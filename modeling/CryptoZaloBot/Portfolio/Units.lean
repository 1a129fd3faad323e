import CryptoZaloBot.Base.Numeral
import CryptoZaloBot.Portfolio.Calculator

/-!
# Quantities as units

A quantity is typed, stored and shown as a text and computed with as a number of units of
`10⁻⁸`. The text may come from a message, from a `NUMERIC` with its eight decimals, or from the
calculator itself, so that one quantity has many texts.

`toQuantityUnits` reads the decimals that have at most eight places, not counting zeros at the
end, and reads each exactly (`CryptoZaloBot.Portfolio.toQuantityUnits_eq_ok_iff`).
`formatQuantityUnits` writes units in the canonical form, which is the only one of the same
number (`CryptoZaloBot.Portfolio.quantity_units_canonical`).
-/

namespace CryptoZaloBot

namespace Portfolio

open Decimal (Numeral)

theorem decimalPattern_text (n : Numeral) : decimalPattern n.text = true := by
  have hne : (!n.whole.isEmpty) = true := by simpa using n.whole_ne_nil
  rw [decimalPattern, Numeral.text]
  split_ifs with hnil
  · rw [List.takeWhile_eq_self_iff.mpr n.isDigit_whole,
      List.dropWhile_eq_nil_iff.mpr n.isDigit_whole, hne]
    rfl
  · have hdot : ¬Char.isDigit '.' = true := by decide
    rw [List.takeWhile_append_of_pos n.isDigit_whole, List.dropWhile_append_of_pos n.isDigit_whole,
      List.takeWhile_cons_of_neg hdot, List.dropWhile_cons_of_neg hdot, List.append_nil, hne]
    simpa [hnil] using n.isDigit_fraction

/-- **The pattern is that of the numerals.** -/
theorem decimalPattern_iff {cs : List Char} :
    decimalPattern cs = true ↔ ∃ n : Numeral, cs = n.text := by
  constructor
  · intro h
    rw [decimalPattern, Bool.and_eq_true] at h
    have hne : cs.takeWhile Char.isDigit ≠ [] := by simpa using h.1
    have hdigits : ∀ c ∈ cs.takeWhile Char.isDigit, c.isDigit = true := fun c hc =>
      List.mem_takeWhile_imp hc
    have hsplit : cs.takeWhile Char.isDigit ++ cs.dropWhile Char.isDigit = cs :=
      List.takeWhile_append_dropWhile
    obtain ⟨-, h⟩ := h
    cases hrest : cs.dropWhile Char.isDigit with
    | nil =>
      rw [hrest, List.append_nil] at hsplit
      exact ⟨⟨_, [], hne, hdigits, List.forall_mem_nil _⟩, hsplit.symm⟩
    | cons c fraction =>
      rw [hrest] at h hsplit
      simp only [Bool.and_eq_true, beq_iff_eq, Bool.not_eq_true', List.isEmpty_eq_false_iff,
        List.all_eq_true] at h
      obtain ⟨⟨rfl, hfraction⟩, hall⟩ := h
      exact ⟨⟨_, fraction, hne, hdigits, hall⟩, by rw [Numeral.text, if_neg hfraction, hsplit]⟩
  · rintro ⟨n, rfl⟩
    exact decimalPattern_text n

theorem toQuantityUnits_of_text {s : String} {n : Numeral} (h : s.toList = n.text) :
    toQuantityUnits s =
      if maxQuantityDecimals < n.significant.length then
        .error ⟨s!"Quantity has more than {maxQuantityDecimals} decimals"⟩
      else .ok (Decimal.value n.whole * 10 ^ maxQuantityDecimals +
        Decimal.value (n.significant.rightpad maxQuantityDecimals '0')) := by
  obtain ⟨hwhole, hfraction⟩ := n.parts_text
  rw [toQuantityUnits]
  simp only [h, decimalPattern_text, hwhole, hfraction, if_true]
  rfl

/-- **What is read, and what as**: a numeral of at most eight places that count, exactly. -/
theorem toQuantityUnits_eq_ok_iff {s : String} {units : ℕ} :
    toQuantityUnits s = .ok units ↔ ∃ n : Numeral, s.toList = n.text ∧
      n.significant.length ≤ maxQuantityDecimals ∧
        (units : ℚ) = n.value * 10 ^ maxQuantityDecimals := by
  constructor
  · intro h
    have hpattern : decimalPattern s.toList = true := by
      by_contra hnot
      rw [toQuantityUnits] at h
      simp only [hnot] at h
      cases h
    obtain ⟨n, hn⟩ := decimalPattern_iff.mp hpattern
    rw [toQuantityUnits_of_text hn] at h
    split_ifs at h with hlong
    have hshort := not_lt.mp hlong
    exact ⟨n, hn, hshort, by rw [n.value_mul_pow hshort, ← Except.ok.inj h]⟩
  · rintro ⟨n, hn, hshort, hunits⟩
    rw [toQuantityUnits_of_text hn, if_neg (not_lt.mpr hshort)]
    rw [n.value_mul_pow hshort] at hunits
    exact congrArg Except.ok (by exact_mod_cast hunits.symm)

/-- A text of digits, a point and eight more digits reads as the number it writes. -/
theorem toQuantityUnits_digits {whole fraction : List Char} (hne : whole ≠ [])
    (hw : ∀ c ∈ whole, c.isDigit = true) (hf : ∀ c ∈ fraction, c.isDigit = true)
    (hlen : fraction.length = maxQuantityDecimals) :
    toQuantityUnits (String.ofList (whole ++ '.' :: fraction)) =
      .ok (Decimal.value whole * quantityScale + Decimal.value fraction) := by
  let n : Numeral := ⟨whole, fraction, hne, hw, hf⟩
  have hfne : fraction ≠ [] := by
    rintro rfl
    exact absurd hlen (by decide)
  have htext : (String.ofList (whole ++ '.' :: fraction)).toList = n.text :=
    String.toList_ofList.trans (if_neg hfne).symm
  have hshort : n.significant.length ≤ maxQuantityDecimals :=
    hlen ▸ (List.rdropWhile_prefix _ (l := fraction)).length_le
  have hpad : n.significant.rightpad maxQuantityDecimals '0' = fraction :=
    hlen ▸ Decimal.rightpad_rdropWhile fraction
  rw [toQuantityUnits_of_text htext, if_neg (not_lt.mpr hshort), hpad]
  rfl

/-! ### Units as a numeral -/

/-- The numeral of a number of units. -/
def unitsNumeral (units : ℕ) : Numeral where
  whole := Decimal.ofNat (units / quantityScale)
  fraction :=
    ((Decimal.ofNat (units % quantityScale)).leftpad maxQuantityDecimals '0').rdropWhile (· = '0')
  whole_ne_nil := Decimal.ofNat_ne_nil _
  isDigit_whole _ hc := Decimal.isDigit_of_mem_ofNat hc
  isDigit_fraction c hc := by
    have hmem := (List.rdropWhile_prefix _ _).subset hc
    rcases List.mem_append.mp hmem with hzero | hdigit
    · rw [List.eq_of_mem_replicate hzero]
      rfl
    · exact Decimal.isDigit_of_mem_ofNat hdigit

theorem toList_formatQuantityUnits (units : ℕ) :
    (formatQuantityUnits units).toList = (unitsNumeral units).text := by
  rw [formatQuantityUnits, String.toList_ofList, Numeral.text]
  exact if_congr List.isEmpty_iff rfl rfl

theorem canonical_unitsNumeral (units : ℕ) : (unitsNumeral units).Canonical where
  whole := Decimal.noLeadingZero_ofNat _
  fraction := by
    intro hzero
    obtain ⟨hne, hlast⟩ := List.mem_getLast?_eq_getLast hzero
    refine List.rdropWhile_last_not _ _ hne ?_
    rw [decide_eq_true_eq]
    exact hlast.symm

/-- The zeros that were trimmed are put back. -/
theorem rightpad_unitsNumeral (units : ℕ) :
    (unitsNumeral units).significant.length ≤ maxQuantityDecimals ∧
      Decimal.value ((unitsNumeral units).significant.rightpad maxQuantityDecimals '0') =
        units % quantityScale := by
  have hlt : units % quantityScale < 10 ^ maxQuantityDecimals := Nat.mod_lt _ (by decide)
  have hlength : ((Decimal.ofNat (units % quantityScale)).leftpad
      maxQuantityDecimals '0').length = maxQuantityDecimals := by
    rw [List.length_leftpad]
    exact max_eq_left (Decimal.length_ofNat_le (by decide) hlt)
  have hsame : (unitsNumeral units).significant = (unitsNumeral units).fraction :=
    List.rdropWhile_idempotent _ _
  rw [hsame, unitsNumeral]
  constructor
  · exact (List.rdropWhile_prefix _ _).length_le.trans hlength.le
  · have hpad := Decimal.rightpad_rdropWhile
      ((Decimal.ofNat (units % quantityScale)).leftpad maxQuantityDecimals '0')
    rw [hlength] at hpad
    rw [hpad, Decimal.value_leftpad, Decimal.value_ofNat]

/-- **Reading undoes writing.** -/
theorem toQuantityUnits_formatQuantityUnits (units : ℕ) :
    toQuantityUnits (formatQuantityUnits units) = .ok units := by
  obtain ⟨hshort, hfraction⟩ := rightpad_unitsNumeral units
  rw [toQuantityUnits_of_text (toList_formatQuantityUnits units), if_neg (not_lt.mpr hshort),
    hfraction, unitsNumeral, Decimal.value_ofNat]
  exact congrArg Except.ok (Nat.div_add_mod' units quantityScale)

theorem value_unitsNumeral (units : ℕ) :
    (unitsNumeral units).value * 10 ^ maxQuantityDecimals = units := by
  obtain ⟨n, hn, -, hunits⟩ :=
    toQuantityUnits_eq_ok_iff.mp (toQuantityUnits_formatQuantityUnits units)
  rw [Numeral.text_injective (hn.symm.trans (toList_formatQuantityUnits units))] at hunits
  exact hunits.symm

/-- **Units and their texts.** Every number of units is read back from its text. A text is read
if and only if it is digits, optionally followed by a point and digits, of which at most eight
are left without the zeros at the end; what is read is its value times `10 ^ 8`, exactly, and
what is written for that is the one canonical numeral of this value. -/
theorem quantity_units_canonical :
    (∀ units : ℕ, toQuantityUnits (formatQuantityUnits units) = .ok units) ∧
    (∀ s : String, (∃ units, toQuantityUnits s = .ok units) ↔
      ∃ n : Numeral, s.toList = n.text ∧ n.significant.length ≤ 8) ∧
    ∀ (s : String) (units : ℕ) (n : Numeral), toQuantityUnits s = .ok units →
      s.toList = n.text →
        (units : ℚ) = n.value * 10 ^ 8 ∧
        ∃ m : Numeral, (formatQuantityUnits units).toList = m.text ∧
          (m.Canonical ∧ m.value = n.value) ∧
          ∀ m' : Numeral, m'.Canonical → m'.value = n.value → m' = m := by
  refine ⟨toQuantityUnits_formatQuantityUnits, fun s => ?_, fun s units n h hn => ?_⟩
  · constructor
    · rintro ⟨units, h⟩
      obtain ⟨n, hn, hshort, -⟩ := toQuantityUnits_eq_ok_iff.mp h
      exact ⟨n, hn, hshort⟩
    · rintro ⟨n, hn, hshort⟩
      have hle : n.significant.length ≤ maxQuantityDecimals := hshort
      rw [toQuantityUnits_of_text hn, if_neg (not_lt.mpr hle)]
      exact ⟨_, rfl⟩
  · obtain ⟨n', hn', -, hunits⟩ := toQuantityUnits_eq_ok_iff.mp h
    obtain rfl : n' = n := Numeral.text_injective (hn'.symm.trans hn)
    have hvalue : (unitsNumeral units).value = n'.value :=
      mul_right_cancel₀ (by positivity) ((value_unitsNumeral units).trans hunits)
    refine ⟨hunits, unitsNumeral units, toList_formatQuantityUnits units,
      ⟨canonical_unitsNumeral units, hvalue⟩, fun m' hcanonical hm' => ?_⟩
    exact Numeral.eq_of_value_eq hcanonical (canonical_unitsNumeral units)
      (hm'.trans hvalue.symm)

/-- Half a coin, with more zeros than it needs. -/
def half : Numeral where
  whole := ['0', '0']
  fraction := ['5', '0', '0']
  whole_ne_nil := by decide
  isDigit_whole := by decide
  isDigit_fraction := by decide

theorem quantity_units_canonical_half :
    formatQuantityUnits 50000000 = "0.5" ∧ ((50000000 : ℕ) : ℚ) = half.value * 10 ^ 8 :=
  ⟨by decide, (quantity_units_canonical.2.2 "00.500" 50000000 half (by decide +kernel) rfl).1⟩

end Portfolio

end CryptoZaloBot
