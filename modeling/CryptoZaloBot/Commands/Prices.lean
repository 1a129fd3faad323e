import CryptoZaloBot.Commands.Shown

/-!
# What is stored of a price

A price is a double, and it is stored from the text that `toString` makes of it, in a column of
eight decimals. The text may have more decimals than were typed, for all that is said of it in
`CryptoZaloBot.Commands.ShortestDigits`. But `toString` chooses as *few* digits as read back to
the double (`CryptoZaloBot.Commands.FewestDigits`), and what was typed is one choice. So the text
has eight decimals at most, the column stores it as it is, and the double of what is stored is
the one that was typed (`CryptoZaloBot.Commands.IsAmount.stored`).

Fewer digits could still mean more decimals, were the text a smaller number with fewer digits.
Between the two there would be a power of ten, which then reads back to the double as well, and
has one digit.
-/

namespace CryptoZaloBot

namespace Commands

open Binary64
open Portfolio

/-- **The digits that `toString` chooses**: no number of fewer digits reads back to the same
double. -/
structure FewestDigits extends ShortestDigits where
  fewest : ∀ x, IsDouble x → 0 < x → x < 2 ^ 1024 → ∀ (n : ℕ) (e : ℤ),
    roundToDouble (n * 10 ^ e) = x →
      (Decimal.ofNat (digitsOf x).1).length ≤ (Decimal.ofNat n).length

/-- What the text of a double reads as. -/
def FewestDigits.textValue (digits : FewestDigits) (x : ℚ) : ℚ :=
  Decimal.pointed (Decimal.ofNat (digits.digitsOf x).1) (digits.digitsOf x).2

section Decimals

variable {x : ℚ}

theorem pow_le_of_length {n k : ℕ} (hn : 0 < n) (h : k + 1 ≤ (Decimal.ofNat n).length) :
    10 ^ k ≤ n := by
  by_contra hlt
  rcases Nat.eq_zero_or_pos k with rfl | hk
  · exact hlt hn
  · exact absurd ((length_ofNat_le_iff hk).mpr (not_le.mp hlt)) (not_le.mpr h)

theorem lt_pow_length (n : ℕ) : n < 10 ^ (Decimal.ofNat n).length := by
  have hlength : 0 < (Decimal.ofNat n).length := List.length_pos_of_ne_nil (Decimal.ofNat_ne_nil n)
  exact (length_ofNat_le_iff hlength).mp le_rfl

/-- There are doubles between nine and ten units of the ninth decimal. -/
theorem not_across_least {y z : ℚ} (hy : 0 ≤ y) (hle : y ≤ 9 / 10 ^ 9) (hz : 1 / 10 ^ 8 ≤ z) :
    roundToDouble y ≠ roundToDouble z := by
  have hbelow : IsDouble (39 / 2 ^ 32) := ⟨39, -32, by norm_num, by norm_num, by norm_num⟩
  have habove : IsDouble (42 / 2 ^ 32) := ⟨42, -32, by norm_num, by norm_num, by norm_num⟩
  have hle' : roundToDouble y ≤ 39 / 2 ^ 32 :=
    roundToDouble_le hy hbelow (hle.trans (by norm_num))
  have hge : 42 / 2 ^ 32 ≤ roundToDouble z :=
    le_roundToDouble (le_trans (by norm_num) hz) habove (le_trans (by norm_num) hz)
  intro heq
  rw [heq] at hle'
  exact absurd (hge.trans hle') (by norm_num)

/-- **No more than eight decimals**: the last digit of the text is worth `10⁻⁸` at least. -/
theorem exponent_of_amount (digits : FewestDigits) (hx : IsDouble x) (hpos : 0 < x)
    (hlt : x < 2 ^ 1024) {k : ℕ} (hk : roundToDouble (k / 10 ^ 8) = x) :
    -8 ≤ (digits.digitsOf x).2 - (Decimal.ofNat (digits.digitsOf x).1).length := by
  have hread := ofRat_eq_finite (digits.readsBack x hx hpos hlt)
  have hfewest := digits.fewest x hx hpos hlt
  clear hlt
  rw [Decimal.pointed, Decimal.value_ofNat] at hread
  generalize (digits.digitsOf x).1 = s at *
  generalize (digits.digitsOf x).2 = n at *
  obtain ⟨e, he⟩ : ∃ e : ℤ, n - (Decimal.ofNat s).length = e := ⟨_, rfl⟩
  rw [he] at hread ⊢
  obtain ⟨l, hl⟩ : ∃ l, (Decimal.ofNat s).length = l + 1 :=
    Nat.exists_eq_succ_of_ne_zero (List.length_pos_of_ne_nil (Decimal.ofNat_ne_nil s)).ne'
  have hkpos : 0 < k := by
    rcases Nat.eq_zero_or_pos k with rfl | h
    · rw [Nat.cast_zero, zero_div, roundToDouble_zero] at hk
      exact absurd hk hpos.ne
    · exact h
  have hten : ∀ i : ℤ, (0 : ℚ) ≤ 10 ^ i := fun i => zpow_nonneg (by norm_num) i
  by_contra hmore
  have he9 : e ≤ -9 := by omega
  have hnonneg : (0 : ℚ) ≤ s * 10 ^ e := mul_nonneg (Nat.cast_nonneg s) (hten e)
  -- What was typed has as many digits at least, so that a power of ten lies between.
  have hdigits : 10 ^ l ≤ k := by
    refine pow_le_of_length hkpos (hl ▸ hfewest k (-8) ?_)
    rw [← hk, zpow_neg, div_eq_mul_inv]
    rfl
  have htyped : (10 : ℚ) ^ ((l : ℤ) - 8) ≤ k / 10 ^ 8 := by
    rw [zpow_sub₀ (by norm_num), zpow_natCast]
    have hcast : ((10 ^ l : ℕ) : ℚ) ≤ k := by exact_mod_cast hdigits
    push_cast at hcast
    exact div_le_div_of_nonneg_right hcast (by norm_num)
  have htext : (s : ℚ) * 10 ^ e ≤ 10 ^ ((l : ℤ) - 8) := by
    have hcast : (s : ℚ) ≤ 10 ^ ((l : ℤ) + 1) := by
      have hs := (lt_pow_length s).le
      rw [hl] at hs
      exact_mod_cast hs
    calc (s : ℚ) * 10 ^ e ≤ 10 ^ ((l : ℤ) + 1) * 10 ^ (-9 : ℤ) :=
          mul_le_mul hcast (zpow_le_zpow_right₀ (by norm_num) he9) (hten _) (hten _)
      _ = 10 ^ ((l : ℤ) - 8) := by
          rw [← zpow_add₀ (by norm_num)]
          congr 1
          ring
  have hpower : roundToDouble (10 ^ ((l : ℤ) - 8)) = x := by
    refine le_antisymm ?_ ?_
    · exact (roundToDouble_mono (hten _) htyped).trans_eq hk
    · exact hread.symm.le.trans (roundToDouble_mono hnonneg htext)
  -- It has one digit, and so has the text.
  have hone := hfewest 1 ((l : ℤ) - 8) (by rw [Nat.cast_one, one_mul, hpower])
  have hdigit : (Decimal.ofNat 1).length = 1 := rfl
  have hl0 : l = 0 := by omega
  subst hl0
  have hs9 : s ≤ 9 := by
    have hs := lt_pow_length s
    rw [hl] at hs
    omega
  refine not_across_least (y := (s : ℚ) * 10 ^ e) (z := k / 10 ^ 8) hnonneg ?_ ?_
    (hread.trans hk.symm)
  · have hcast : (s : ℚ) ≤ 9 := by exact_mod_cast hs9
    calc (s : ℚ) * 10 ^ e ≤ 9 * 10 ^ (-9 : ℤ) :=
          mul_le_mul hcast (zpow_le_zpow_right₀ (by norm_num) he9) (hten _) (by norm_num)
      _ = 9 / 10 ^ 9 := by norm_num
  · have hcast : (1 : ℚ) ≤ k := by exact_mod_cast hkpos
    exact div_le_div_of_nonneg_right hcast (by norm_num)

/-- **What is stored of an amount** is its text, and reads as the amount. -/
theorem IsAmount.stored (digits : FewestDigits) (h : IsAmount x) :
    ∃ u : ℕ, digits.textValue x = numericOfUnits u ∧ roundToDouble (numericOfUnits u) = x := by
  obtain ⟨⟨k, hk⟩, hpos, hmax⟩ := h
  have hdouble : IsDouble x := hk ▸ isDouble_roundToDouble (by positivity)
  have hlt : x < 2 ^ 1024 := by
    calc x ≤ 10 ^ 12 := hmax
      _ < 2 ^ 40 := by norm_num
      _ ≤ 2 ^ 1024 := pow_le_pow_right₀ (by norm_num) (by norm_num)
  have hexponent := exponent_of_amount digits hdouble hpos hlt hk
  obtain ⟨m, hm⟩ := Int.eq_ofNat_of_zero_le (neg_le_iff_add_nonneg.mp hexponent)
  have hvalue : digits.textValue x =
      numericOfUnits (((digits.digitsOf x).1 * 10 ^ m : ℕ) : ℤ) := by
    have hsplit : (digits.digitsOf x).2 - ((Decimal.ofNat (digits.digitsOf x).1).length : ℤ) =
        m - 8 := by omega
    rw [FewestDigits.textValue, Decimal.pointed, Decimal.value_ofNat, hsplit, numericOfUnits,
      cast_quantityScale, zpow_sub₀ (by norm_num), zpow_natCast]
    push_cast
    rw [mul_div_assoc]
    rfl
  refine ⟨_, hvalue, ?_⟩
  rw [← hvalue]
  exact ofRat_eq_finite (digits.readsBack x hdouble hpos hlt)

end Decimals

/-! ### Digits as few as possible -/

section Fewest

variable {x : ℚ}

/-- Some number of so many digits reads back to a double. -/
def ReadsBackWith (x : ℚ) (k : ℕ) : Prop :=
  ∃ (n : ℕ) (e : ℤ), roundToDouble (n * 10 ^ e) = x ∧ (Decimal.ofNat n).length = k

theorem exists_readsBackWith (hx : IsDouble x) (hpos : 0 < x) : ∃ k, ReadsBackWith x k := by
  have hexact := pointed_exactDigits hx hpos
  rw [Decimal.pointed, Decimal.value_ofNat] at hexact
  exact ⟨_, _, _, (congrArg roundToDouble hexact).trans (hx.roundToDouble_eq hpos.le), rfl⟩

open Classical in
/-- Of the numbers that read back to a double one of the fewest digits. -/
noncomputable def fewestDigits (x : ℚ) : ℕ × ℤ :=
  if h : ∃ k, ReadsBackWith x k then
    let n := (Nat.find_spec h).choose
    (n, (Nat.find_spec h).choose_spec.choose + (Decimal.ofNat n).length)
  else (0, 0)

theorem fewestDigits_spec (hx : IsDouble x) (hpos : 0 < x) :
    roundToDouble (Decimal.pointed (Decimal.ofNat (fewestDigits x).1) (fewestDigits x).2) = x ∧
      ∀ (n : ℕ) (e : ℤ), roundToDouble (n * 10 ^ e) = x →
        (Decimal.ofNat (fewestDigits x).1).length ≤ (Decimal.ofNat n).length := by
  classical
  have hex := exists_readsBackWith hx hpos
  have hspec := (Nat.find_spec hex).choose_spec.choose_spec
  rw [Decimal.pointed, Decimal.value_ofNat, fewestDigits, dif_pos hex]
  dsimp only
  rw [add_sub_cancel_right]
  refine ⟨hspec.1, fun n e hback => ?_⟩
  rw [hspec.2]
  exact Nat.find_min' hex ⟨n, e, hback, rfl⟩

/-- **As few digits as possible.** -/
noncomputable def fewestDouble : FewestDigits where
  digitsOf := fewestDigits
  readsBack x hx hpos hlt := by
    rw [ofRat, (fewestDigits_spec hx hpos).1, if_pos hlt]
  fewest x hx hpos _ := (fewestDigits_spec hx hpos).2

/-- One has one digit. -/
theorem textValue_one (digits : FewestDigits) : digits.textValue 1 = 1 := by
  have hone : IsDouble 1 := ⟨1, 0, by norm_num, by norm_num, by norm_num⟩
  have hlt : (1 : ℚ) < 2 ^ 1024 := one_lt_pow₀ (by norm_num) (by norm_num)
  have hread := ofRat_eq_finite (digits.readsBack 1 hone one_pos hlt)
  have hdigit := digits.fewest 1 hone one_pos hlt 1 0
    (by rw [Nat.cast_one, zpow_zero, mul_one, hone.roundToDouble_eq zero_le_one])
  clear hlt
  rw [FewestDigits.textValue]
  rw [Decimal.pointed, Decimal.value_ofNat] at hread ⊢
  generalize (digits.digitsOf 1).1 = s at *
  generalize (digits.digitsOf 1).2 - ((Decimal.ofNat s).length : ℤ) = e at *
  have hs : s ≤ 9 := by
    have hlength : (Decimal.ofNat s).length ≤ 1 := hdigit
    have hlt := (length_ofNat_le_iff (by decide)).mp hlength
    omega
  have hs' : (s : ℚ) ≤ 9 := by exact_mod_cast hs
  have hpos : (0 : ℚ) < 10 ^ e := zpow_pos (by norm_num) e
  have hnonneg : (0 : ℚ) ≤ s * 10 ^ e := mul_nonneg (Nat.cast_nonneg s) hpos.le
  rcases lt_trichotomy e 0 with he | rfl | he
  · -- Below one there are doubles that are nearer.
    have hbelow : IsDouble (15 / 16) := ⟨15, -4, by norm_num, by norm_num, by norm_num⟩
    have hsmall : (s : ℚ) * 10 ^ e ≤ 15 / 16 := by
      calc (s : ℚ) * 10 ^ e ≤ 9 * 10 ^ (-1 : ℤ) :=
            mul_le_mul hs' (zpow_le_zpow_right₀ (by norm_num) (by omega)) hpos.le (by norm_num)
        _ ≤ 15 / 16 := by norm_num
    have hle := roundToDouble_le hnonneg hbelow hsmall
    rw [hread] at hle
    norm_num at hle
  · have hdouble : IsDouble ((s : ℚ) * 10 ^ (0 : ℤ)) :=
      ⟨s, 0, by exact_mod_cast hs.trans_lt (by norm_num), by norm_num, by norm_num⟩
    rwa [hdouble.roundToDouble_eq hnonneg] at hread
  · have hten : IsDouble 10 := ⟨10, 0, by norm_num, by norm_num, by norm_num⟩
    rcases Nat.eq_zero_or_pos s with rfl | hspos
    · rw [Nat.cast_zero, zero_mul, roundToDouble_zero] at hread
      norm_num at hread
    · have hlarge : (10 : ℚ) ≤ s * 10 ^ e := by
        have hcast : (1 : ℚ) ≤ s := by exact_mod_cast hspos
        calc (10 : ℚ) = 1 * 10 ^ (1 : ℤ) := by norm_num
          _ ≤ s * 10 ^ e :=
            mul_le_mul hcast (zpow_le_zpow_right₀ (by norm_num) (by omega)) (by norm_num)
              (Nat.cast_nonneg s)
      have hle := le_roundToDouble hnonneg hten hlarge
      rw [hread] at hle
      norm_num at hle

end Fewest

end Commands

end CryptoZaloBot
