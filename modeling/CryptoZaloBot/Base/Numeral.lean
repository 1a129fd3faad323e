import Mathlib.Algebra.Order.Field.Basic
import Mathlib.Algebra.Order.Field.Rat
import Mathlib.Tactic.FieldSimp
import Mathlib.Tactic.Linarith
import CryptoZaloBot.Base.Decimal

/-!
# Decimal numerals

A decimal numeral is some digits and, after a point, some more; it has a text and an exact value
(`CryptoZaloBot.Decimal.Numeral`). Many numerals have one value. In its **canonical** form a
numeral has no zero in front that it could do without and none at the end of its fraction, and
then it is the only one: two canonical numerals of one value are equal
(`CryptoZaloBot.Decimal.Numeral.eq_of_value_eq`).

A value tells the whole part and the fraction apart because the fraction is less than one. The
whole part tells its digits since their number is known, and so does the fraction, once the
shorter of two is filled up with zeros: a last digit that is not zero would have to be one.
-/

namespace CryptoZaloBot

namespace Decimal

/-! ### Digits -/

theorem toNat_of_isDigit {c : Char} (h : c.isDigit = true) : 48 ≤ c.toNat ∧ c.toNat ≤ 57 := by
  rw [Char.isDigit, Bool.and_eq_true, decide_eq_true_eq, decide_eq_true_eq] at h
  exact ⟨UInt32.le_iff_toNat_le.mp h.1, UInt32.le_iff_toNat_le.mp h.2⟩

theorem digitValue_lt {c : Char} (h : c.isDigit = true) : digitValue c < 10 := by
  have hrange := toNat_of_isDigit h
  change c.toNat - 48 < 10
  omega

theorem digitValue_injOn {c d : Char} (hc : c.isDigit = true) (hd : d.isDigit = true)
    (h : digitValue c = digitValue d) : c = d := by
  have hrange := toNat_of_isDigit hc
  have hrange' := toNat_of_isDigit hd
  change c.toNat - 48 = d.toNat - 48 at h
  exact Char.toNat_inj.mp (by omega)

theorem value_lt {cs : List Char} (h : ∀ c ∈ cs, c.isDigit = true) :
    value cs < 10 ^ cs.length := by
  induction cs using List.reverseRecOn with
  | nil => exact Nat.one_pos
  | append_singleton cs c ih =>
    obtain ⟨hcs, hc⟩ := List.forall_mem_append.mp h
    have hlt := ih hcs
    have hdigit := digitValue_lt (hc c (List.mem_singleton_self c))
    rw [value_concat, List.length_append, List.length_singleton, pow_succ]
    omega

/-- **Digits of one number and one length** are the same. -/
theorem eq_of_value_eq {cs ds : List Char} (hcs : ∀ c ∈ cs, c.isDigit = true)
    (hds : ∀ d ∈ ds, d.isDigit = true) (hlength : cs.length = ds.length)
    (h : value cs = value ds) : cs = ds := by
  induction cs using List.reverseRecOn generalizing ds with
  | nil => exact (List.eq_nil_of_length_eq_zero hlength.symm).symm
  | append_singleton cs c ih =>
    cases ds using List.reverseRecOn with
    | nil => simp at hlength
    | append_singleton ds d =>
      obtain ⟨hcs, hc⟩ := List.forall_mem_append.mp hcs
      obtain ⟨hds, hd⟩ := List.forall_mem_append.mp hds
      have hc' := hc c (List.mem_singleton_self c)
      have hd' := hd d (List.mem_singleton_self d)
      have hclt := digitValue_lt hc'
      have hdlt := digitValue_lt hd'
      rw [value_concat, value_concat] at h
      rw [List.length_append, List.length_append, List.length_singleton, List.length_singleton,
        Nat.add_right_cancel_iff] at hlength
      rw [ih hcs hds hlength (by omega), digitValue_injOn hc' hd' (by omega)]

/-! ### Digits without a zero in front -/

/-- No zero stands in front of another digit. -/
def NoLeadingZero (cs : List Char) : Prop := cs = ['0'] ∨ cs.head? ≠ some '0'

theorem noLeadingZero_ofNat (n : ℕ) : NoLeadingZero (ofNat n) := by
  rw [NoLeadingZero, ofNat]
  split_ifs with hn
  · exact Or.inl rfl
  · refine Or.inr ?_
    have hne : Nat.digits 10 n ≠ [] := Nat.digits_ne_nil_iff_ne_zero.mpr hn
    rw [List.head?_map, List.head?_reverse, List.getLast?_eq_some_getLast hne, Option.map_some]
    intro hzero
    have hlt : (Nat.digits 10 n).getLast hne < 10 :=
      Nat.digits_lt_base (by decide) (List.getLast_mem hne)
    have hvalue := congrArg digitValue (Option.some.inj hzero)
    rw [digitValue_digitChar hlt] at hvalue
    exact Nat.getLast_digit_ne_zero 10 hn hvalue

/-- A first digit that is not zero tells the length. -/
theorem pow_le_value {c : Char} {cs : List Char} (hc : c.isDigit = true) (hne : c ≠ '0') :
    10 ^ cs.length ≤ value (c :: cs) := by
  have hpos : 0 < digitValue c := by
    refine Nat.pos_of_ne_zero fun hzero => hne ?_
    exact digitValue_injOn hc rfl (hzero.trans rfl)
  have hsplit : value (c :: cs) = value [c] * 10 ^ cs.length + value cs := value_append [c] cs
  have hfirst : value [c] = digitValue c := by simp [value]
  rw [hsplit, hfirst]
  exact le_add_right (Nat.le_mul_of_pos_left _ hpos)

/-- **Digits without a zero in front** are told by their number. -/
theorem eq_of_noLeadingZero {cs ds : List Char} (hcs : ∀ c ∈ cs, c.isDigit = true)
    (hds : ∀ d ∈ ds, d.isDigit = true) (hcne : cs ≠ []) (hdne : ds ≠ [])
    (hczero : NoLeadingZero cs) (hdzero : NoLeadingZero ds) (h : value cs = value ds) :
    cs = ds := by
  obtain ⟨c, cs, rfl⟩ := List.exists_cons_of_ne_nil hcne
  obtain ⟨d, ds, rfl⟩ := List.exists_cons_of_ne_nil hdne
  have hc := hcs c List.mem_cons_self
  have hd := hds d List.mem_cons_self
  by_cases hc0 : c = '0'
  · have hzero : c :: cs = ['0'] := hczero.resolve_right fun hne => hne (by simp [hc0])
    by_cases hd0 : d = '0'
    · exact hzero.trans (hdzero.resolve_right fun hne => hne (by simp [hd0])).symm
    · have hpos : 0 < value (d :: ds) := (Nat.pow_pos (by decide)).trans_le (pow_le_value hd hd0)
      rw [← h, hzero] at hpos
      exact absurd hpos (by decide)
  · by_cases hd0 : d = '0'
    · have hzero : d :: ds = ['0'] := hdzero.resolve_right fun hne => hne (by simp [hd0])
      have hpos : 0 < value (c :: cs) := (Nat.pow_pos (by decide)).trans_le (pow_le_value hc hc0)
      rw [h, hzero] at hpos
      exact absurd hpos (by decide)
    · -- Neither number is less than its first digit says, so they have as many digits.
      have hshort : cs.length < (d :: ds).length :=
        (Nat.pow_lt_pow_iff_right (by decide)).mp
          ((pow_le_value hc hc0).trans_lt (h ▸ value_lt hds))
      have hlong : ds.length < (c :: cs).length :=
        (Nat.pow_lt_pow_iff_right (by decide)).mp
          ((pow_le_value hd hd0).trans_lt (h ▸ value_lt hcs))
      rw [List.length_cons] at hshort hlong
      exact eq_of_value_eq hcs hds (by rw [List.length_cons, List.length_cons]; omega) h

/-! ### Zeros at the end -/

/-- **Zeros at the end of a fraction do not count.** -/
theorem value_rightpad_div {n : ℕ} {cs : List Char} (h : cs.length ≤ n) :
    (value (cs.rightpad n '0') : ℚ) / 10 ^ n = value cs / 10 ^ cs.length := by
  have hpow : (10 : ℚ) ^ n = 10 ^ (n - cs.length) * 10 ^ cs.length := by
    rw [← pow_add, Nat.sub_add_cancel h]
  rw [value_rightpad, hpow]
  push_cast
  field_simp

/-! ### Numerals -/

/-- **A decimal numeral**, without a fraction if there is no point. -/
@[ext]
structure Numeral where
  whole : List Char
  fraction : List Char
  whole_ne_nil : whole ≠ []
  isDigit_whole : ∀ c ∈ whole, c.isDigit = true
  isDigit_fraction : ∀ c ∈ fraction, c.isDigit = true

namespace Numeral

def text (n : Numeral) : List Char :=
  if n.fraction = [] then n.whole else n.whole ++ '.' :: n.fraction

/-- **The exact value.** -/
def value (n : Numeral) : ℚ :=
  Decimal.value n.whole + (Decimal.value n.fraction : ℚ) / 10 ^ n.fraction.length

/-- The fraction without the zeros at its end. -/
def significant (n : Numeral) : List Char := n.fraction.rdropWhile (· = '0')

/-- **The canonical form**: no zero in front of another digit, and none at the end of the
fraction. -/
structure Canonical (n : Numeral) : Prop where
  whole : NoLeadingZero n.whole
  fraction : n.fraction.getLast? ≠ some '0'

theorem ne_point_of_isDigit {c : Char} (h : c.isDigit = true) : decide (c ≠ '.') = true := by
  rw [decide_eq_true_eq]
  rintro rfl
  exact absurd h (by decide)

/-- What stands before the point, and after it. -/
theorem parts_text (n : Numeral) :
    n.text.takeWhile (· ≠ '.') = n.whole ∧ (n.text.dropWhile (· ≠ '.')).drop 1 = n.fraction := by
  have hwhole : ∀ c ∈ n.whole, decide (c ≠ '.') = true := fun c hc =>
    ne_point_of_isDigit (n.isDigit_whole c hc)
  rw [text]
  split_ifs with hnil
  · rw [List.takeWhile_eq_self_iff.mpr hwhole, List.dropWhile_eq_nil_iff.mpr hwhole, hnil]
    exact ⟨rfl, rfl⟩
  · rw [List.takeWhile_append_of_pos hwhole, List.dropWhile_append_of_pos hwhole]
    simp

/-- **A text writes one numeral.** -/
theorem text_injective {m n : Numeral} (h : m.text = n.text) : m = n := by
  obtain ⟨hwhole, hfraction⟩ := m.parts_text
  obtain ⟨hwhole', hfraction'⟩ := n.parts_text
  rw [h] at hwhole hfraction
  exact Numeral.ext (hwhole.symm.trans hwhole') (hfraction.symm.trans hfraction')

theorem value_nonneg (n : Numeral) : 0 ≤ n.value := by
  rw [value]
  positivity

/-- Without the zeros at its end the fraction has the same value. -/
theorem value_significant (n : Numeral) :
    (Decimal.value n.significant : ℚ) / 10 ^ n.significant.length =
      Decimal.value n.fraction / 10 ^ n.fraction.length := by
  have hle : n.significant.length ≤ n.fraction.length :=
    (List.rdropWhile_prefix _ (l := n.fraction)).length_le
  rw [← value_rightpad_div hle, significant, rightpad_rdropWhile]

/-- **The value in small units**, of which there are `10 ^ k` to one. -/
theorem value_mul_pow (n : Numeral) {k : ℕ} (h : n.significant.length ≤ k) :
    n.value * 10 ^ k =
      ((Decimal.value n.whole * 10 ^ k +
        Decimal.value (n.significant.rightpad k '0') : ℕ) : ℚ) := by
  rw [value, ← value_significant, ← value_rightpad_div h]
  push_cast
  field_simp

theorem fraction_lt_one (n : Numeral) :
    (Decimal.value n.fraction : ℚ) / 10 ^ n.fraction.length < 1 := by
  rw [div_lt_one (by positivity)]
  exact_mod_cast value_lt n.isDigit_fraction

/-- The fraction is less than one, so the value tells the whole part. -/
theorem whole_le_of_value_eq {m n : Numeral} (h : m.value = n.value) :
    Decimal.value m.whole ≤ Decimal.value n.whole := by
  have hnonneg : 0 ≤ (Decimal.value m.fraction : ℚ) / 10 ^ m.fraction.length := by positivity
  have hlt := n.fraction_lt_one
  rw [value, value] at h
  have hcast : (Decimal.value m.whole : ℚ) < Decimal.value n.whole + 1 := by linarith
  exact Nat.lt_succ_iff.mp (by exact_mod_cast hcast)

/-- Of two fractions of one value, the longer one ends with zeros. -/
theorem fraction_eq_of_le {m n : Numeral} (hle : m.fraction.length ≤ n.fraction.length)
    (h : (Decimal.value m.fraction : ℚ) / 10 ^ m.fraction.length =
      (Decimal.value n.fraction : ℚ) / 10 ^ n.fraction.length) :
    n.fraction = m.fraction ++
      List.replicate (n.fraction.length - m.fraction.length) '0' := by
  refine eq_of_value_eq n.isDigit_fraction ?_ ?_ ?_
  · intro c hc
    rcases List.mem_append.mp hc with hc | hc
    · exact m.isDigit_fraction c hc
    · rw [List.eq_of_mem_replicate hc]
      rfl
  · rw [List.length_append, List.length_replicate]
    omega
  · rw [value_append, value_replicate_zero, List.length_replicate, add_zero]
    rw [div_eq_div_iff (by positivity) (by positivity)] at h
    have hpow : (10 : ℚ) ^ n.fraction.length =
        10 ^ (n.fraction.length - m.fraction.length) * 10 ^ m.fraction.length := by
      rw [← pow_add]
      congr 1
      omega
    rw [hpow, ← mul_assoc] at h
    have hcancel := mul_right_cancel₀ (pow_ne_zero _ (by norm_num)) h
    exact_mod_cast hcancel.symm

theorem fraction_eq_of_canonical {m n : Numeral} (hn : n.Canonical)
    (hle : m.fraction.length ≤ n.fraction.length)
    (h : (Decimal.value m.fraction : ℚ) / 10 ^ m.fraction.length =
      (Decimal.value n.fraction : ℚ) / 10 ^ n.fraction.length) : m.fraction = n.fraction := by
  have heq := fraction_eq_of_le hle h
  rcases Nat.eq_zero_or_pos (n.fraction.length - m.fraction.length) with hzero | hpos
  · rw [hzero, List.replicate_zero, List.append_nil] at heq
    exact heq.symm
  · refine absurd ?_ hn.fraction
    rw [heq, List.getLast?_append, List.getLast?_replicate, if_neg hpos.ne']
    rfl

/-- **A value has one canonical numeral.** -/
theorem eq_of_value_eq {m n : Numeral} (hm : m.Canonical) (hn : n.Canonical)
    (h : m.value = n.value) : m = n := by
  have hwhole : Decimal.value m.whole = Decimal.value n.whole :=
    le_antisymm (whole_le_of_value_eq h) (whole_le_of_value_eq h.symm)
  have hfraction : (Decimal.value m.fraction : ℚ) / 10 ^ m.fraction.length =
      (Decimal.value n.fraction : ℚ) / 10 ^ n.fraction.length := by
    rw [value, value, hwhole] at h
    exact add_left_cancel h
  refine Numeral.ext (eq_of_noLeadingZero m.isDigit_whole n.isDigit_whole m.whole_ne_nil
    n.whole_ne_nil hm.whole hn.whole hwhole) ?_
  rcases le_total m.fraction.length n.fraction.length with hle | hle
  · exact fraction_eq_of_canonical hn hle hfraction
  · exact (fraction_eq_of_canonical hm hle hfraction.symm).symm

end Numeral

end Decimal

end CryptoZaloBot
