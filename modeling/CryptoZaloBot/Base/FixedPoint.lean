import Mathlib.Algebra.Order.Round
import CryptoZaloBot.Base.Binary64
import CryptoZaloBot.Base.Numeral

/-!
# Amounts as they are shown

How a number format writes an amount: rounded to some decimal places, without the zeros at the
end down to a least number of places, and with the whole part in groups of three digits
(`CryptoZaloBot.FixedPoint.format`).

Rounding loses what comes after the last place. But the double of a decimal with no more places
loses nothing that counts: what is shown for it reads as the same double again
(`CryptoZaloBot.FixedPoint.roundToDouble_units`). Where doubles are closer to each other than
such decimals, the decimal nearest to the double is the one it comes from. Where they are further
apart, powers of two are such decimals themselves, so that the nearest decimal is on the same
grid as the one the double comes from, and no further away.
-/

namespace CryptoZaloBot

/-! ### Nearer numbers round to the same double -/

namespace Binary64

/-- **The nearest integer**: less than half away, or half away and even. -/
theorem roundHalfEven_eq_iff {q : ℚ} {n : ℤ} :
    roundHalfEven q = n ↔ |q - n| < 1 / 2 ∨ |q - n| = 1 / 2 ∧ 2 ∣ n := by
  have hspec : |q - roundHalfEven q| < 1 / 2 ∨
      |q - roundHalfEven q| = 1 / 2 ∧ 2 ∣ roundHalfEven q := by
    have hnonneg := Int.fract_nonneg q
    have hlt := Int.fract_lt_one q
    rw [roundHalfEven]
    split_ifs with hdown
    · rw [Int.self_sub_floor, abs_of_nonneg hnonneg]
      exact hdown
    · have hup : |q - ((⌊q⌋ + 1 : ℤ) : ℚ)| = 1 - Int.fract q := by
        have hfract := Int.self_sub_floor q
        push_cast
        rw [abs_of_nonpos (by linarith)]
        linarith
      rw [hup]
      rcases lt_trichotomy (Int.fract q) (1 / 2) with h | h | h
      · exact absurd (Or.inl h) hdown
      · have hodd : ¬2 ∣ ⌊q⌋ := fun heven => hdown (Or.inr ⟨h, heven⟩)
        exact Or.inr ⟨by linarith, by omega⟩
      · exact Or.inl (by linarith)
  constructor
  · rintro rfl
    exact hspec
  · intro h
    -- Two such integers are less than one apart, or one apart and both even.
    generalize roundHalfEven q = m at hspec ⊢
    have hm : |q - m| ≤ 1 / 2 := hspec.elim le_of_lt fun hs => hs.1.le
    have hn : |q - n| ≤ 1 / 2 := h.elim le_of_lt fun hs => hs.1.le
    obtain ⟨hm₁, hm₂⟩ := abs_le.mp hm
    obtain ⟨hn₁, hn₂⟩ := abs_le.mp hn
    have hle : m ≤ n + 1 := by
      have hcast : (m : ℚ) ≤ n + 1 := by linarith
      exact_mod_cast hcast
    have hge : n ≤ m + 1 := by
      have hcast : (n : ℚ) ≤ m + 1 := by linarith
      exact_mod_cast hcast
    rcases hspec with hs | ⟨-, hs⟩
    · have hlt := abs_lt.mp hs
      have hlt₁ : (m : ℚ) < n + 1 := by linarith
      have hlt₂ : (n : ℚ) < m + 1 := by linarith
      have hlt₁ : m < n + 1 := by exact_mod_cast hlt₁
      have hlt₂ : n < m + 1 := by exact_mod_cast hlt₂
      omega
    · rcases h with hs' | ⟨-, hs'⟩
      · have hlt := abs_lt.mp hs'
        have hlt₁ : (m : ℚ) < n + 1 := by linarith
        have hlt₂ : (n : ℚ) < m + 1 := by linarith
        have hlt₁ : m < n + 1 := by exact_mod_cast hlt₁
        have hlt₂ : n < m + 1 := by exact_mod_cast hlt₂
        omega
      · omega

theorem abs_sub_roundHalfEven_le_half (q : ℚ) : |q - roundHalfEven q| ≤ 1 / 2 :=
  (roundHalfEven_eq_iff.mp rfl).elim le_of_lt fun h => h.1.le

/-- A number nearer to what another is rounded to is rounded to the same. -/
theorem roundHalfEven_eq_of_nearer {q q' : ℚ} {n : ℤ} (h : roundHalfEven q = n)
    (hle : |q' - n| ≤ |q - n|) : roundHalfEven q' = n := by
  refine roundHalfEven_eq_iff.mpr ?_
  rcases roundHalfEven_eq_iff.mp h with hlt | ⟨heq, heven⟩
  · exact Or.inl (hle.trans_lt hlt)
  · exact (hle.trans_eq heq).lt_or_eq.imp_right fun heq' => ⟨heq', heven⟩

/-- A distance, counted in last bits. -/
theorem abs_sub_ulp_mul (x : ℚ) (n e : ℤ) :
    |x - n * 2 ^ e| = |x / 2 ^ e - n| * 2 ^ e := by
  rw [← abs_of_pos (ulp_pos e), ← abs_mul, abs_of_pos (ulp_pos e), sub_mul, div_ulp_mul]

/-- **A number nearer to a double**, and on the same grid, is rounded to it as well. -/
theorem roundToDouble_eq_of_nearer {x y z : ℚ} (he : exponentOf y = exponentOf z)
    (hz : roundToDouble z = x) (h : |y - x| ≤ |z - x|) : roundToDouble y = x := by
  rw [roundToDouble] at hz ⊢
  rw [← hz, abs_sub_ulp_mul, abs_sub_ulp_mul] at h
  rw [he, ← hz, roundHalfEven_eq_of_nearer rfl (le_of_mul_le_mul_right h (ulp_pos _))]

/-- Half of the last bit is the most that is lost. -/
theorem abs_sub_roundToDouble_le_half (x : ℚ) :
    |x - roundToDouble x| ≤ 2 ^ exponentOf x / 2 := by
  rw [roundToDouble, abs_sub_ulp_mul]
  have h := mul_le_mul_of_nonneg_right (abs_sub_roundHalfEven_le_half (x / 2 ^ exponentOf x))
    (ulp_pos (exponentOf x)).le
  linarith

/-- **A number with all of its 53 bits** is changed by a part in `2 ^ 53` at most. -/
theorem abs_sub_roundToDouble_le_div {x : ℚ} (hx : 2 ^ (-1021 : ℤ) ≤ x) :
    |x - roundToDouble x| ≤ x / 2 ^ 53 := by
  have hpos : 0 < x := lt_of_lt_of_le (ulp_pos _) hx
  have hlog : -1021 ≤ Int.log 2 x :=
    (Int.zpow_le_iff_le_log (by norm_num) hpos).mp (by exact_mod_cast hx)
  have hexp : -1074 < exponentOf x := by
    have := le_max_left (Int.log 2 x - 52) (-1074)
    rw [exponentOf]
    omega
  have hulp := ulp_mul_le hpos hexp
  have hhalf := abs_sub_roundToDouble_le_half x
  rw [le_div_iff₀ (by norm_num)]
  linarith

/-- **Rounding keeps the order.** Two numbers that it put the other way round would be on the same
side of the middle of the two doubles. -/
theorem roundToDouble_mono {x y : ℚ} (hx : 0 ≤ x) (h : x ≤ y) :
    roundToDouble x ≤ roundToDouble y := by
  by_contra hnot
  rw [not_le] at hnot
  have hy := hx.trans h
  have hbelow := lt_of_roundToDouble_lt hy (isDouble_roundToDouble hx) hnot
  have habove := lt_of_lt_roundToDouble hx (isDouble_roundToDouble hy) hnot
  have hnear := abs_sub_roundToDouble_le hx (isDouble_roundToDouble hy)
  have hnear' := abs_sub_roundToDouble_le hy (isDouble_roundToDouble hx)
  rw [abs_of_neg (by linarith), abs_of_pos (by linarith)] at hnear
  rw [abs_of_pos (by linarith), abs_of_neg (by linarith)] at hnear'
  have hsame : x = y := by linarith
  rw [hsame] at hnot
  exact absurd hnot (lt_irrefl _)

/-- **A number is rounded within its powers of two.** -/
theorem roundToDouble_between {z : ℚ} (hz : 0 < z) (hmin : -1074 < exponentOf z) :
    2 ^ (exponentOf z + 52) ≤ roundToDouble z ∧
      roundToDouble z ≤ 2 * 2 ^ (exponentOf z + 52) := by
  have hsplit : (2 : ℚ) ^ (exponentOf z + 52) = 2 ^ 52 * 2 ^ exponentOf z := by
    rw [zpow_add₀ (by norm_num), mul_comm]
    norm_num
  have hsplit' : (2 : ℚ) * 2 ^ (exponentOf z + 52) = 2 ^ 53 * 2 ^ exponentOf z := by
    rw [hsplit]
    ring
  constructor
  · rw [hsplit]
    exact le_roundToDouble hz.le ⟨2 ^ 52, exponentOf z, by norm_num, hmin.le, by norm_num⟩
      (hsplit ▸ ulp_mul_le hz hmin)
  · refine roundToDouble_le hz.le ⟨2 ^ 52, exponentOf z + 1, by norm_num, by omega, ?_⟩ ?_
    · rw [hsplit', zpow_add₀ (by norm_num)]
      norm_num
      ring
    · have hlt := lt_ulp_mul z
      rw [hsplit']
      exact hlt.le

/-- Two multiples of the last bit are that far apart, or the same. -/
theorem eq_of_abs_sub_lt_ulp {x : ℚ} {m n e : ℤ} (hx : x = m * 2 ^ e)
    (h : |x - n * 2 ^ e| < 2 ^ e) : x = n * 2 ^ e := by
  rw [hx, ← sub_mul, abs_mul, abs_of_pos (ulp_pos e), mul_lt_iff_lt_one_left (ulp_pos e)] at h
  have hlt : |m - n| < 1 := by exact_mod_cast h
  rw [hx, sub_eq_zero.mp (Int.abs_lt_one_iff.mp hlt)]

end Binary64

namespace FixedPoint

open Binary64
open Decimal (Numeral)

/-! ### Rounding -/

/-- **A number in units of the last place shown**, a half rounded up. -/
def units (places : ℕ) (x : ℚ) : ℤ := round (x * 10 ^ places)

section Rounding

variable {places k : ℕ} {x : ℚ}

/-- No decimal of these places is nearer. -/
theorem abs_units_sub_le (places : ℕ) (x : ℚ) (n : ℤ) :
    |(units places x : ℚ) / 10 ^ places - x| ≤ |(n : ℚ) / 10 ^ places - x| := by
  have hpow : (0 : ℚ) < 10 ^ places := by positivity
  have hscale : ∀ m : ℤ, |(m : ℚ) / 10 ^ places - x| = |x * 10 ^ places - m| / 10 ^ places := by
    intro m
    rw [abs_sub_comm, ← abs_of_pos hpow, ← abs_div, abs_of_pos hpow, sub_div,
      mul_div_cancel_right₀ _ hpow.ne']
  rw [hscale, hscale]
  exact div_le_div_of_nonneg_right (round_le _ n) hpow.le

/-- Doubles that are closer together than the decimals. -/
theorem units_of_fine (hk : roundToDouble (k / 10 ^ places) = x)
    (hfine : (2 : ℚ) ^ exponentOf (k / 10 ^ places : ℚ) * 10 ^ places < 1) :
    units places x = k := by
  have hpow : (0 : ℚ) < 10 ^ places := by positivity
  have hnear := abs_sub_roundToDouble_le_half (k / 10 ^ places : ℚ)
  rw [hk] at hnear
  have hscale : |(k : ℚ) - x * 10 ^ places| < 1 / 2 := by
    have hmul : (k : ℚ) - x * 10 ^ places = (k / 10 ^ places - x) * 10 ^ places := by
      rw [sub_mul, div_mul_cancel₀ _ hpow.ne']
    rw [hmul, abs_mul, abs_of_pos hpow]
    have hle := mul_le_mul_of_nonneg_right hnear hpow.le
    linarith
  obtain ⟨hlow, hhigh⟩ := abs_lt.mp hscale
  rw [units, round_eq_iff, Set.mem_Ico]
  constructor <;> push_cast <;> linarith

/-- A power of two that is no finer than a double of the decimals is such a decimal. -/
theorem exists_pow_eq_div {e : ℤ} (h : 0 ≤ e + places) :
    ∃ a : ℤ, (2 : ℚ) ^ e * 10 ^ places = a := by
  obtain ⟨m, hm⟩ := Int.eq_ofNat_of_zero_le h
  refine ⟨2 ^ m * 5 ^ places, ?_⟩
  have hten : (10 : ℚ) ^ places = 2 ^ (places : ℤ) * 5 ^ places := by
    rw [zpow_natCast, ← mul_pow]
    norm_num
  rw [hten, ← mul_assoc, ← zpow_add₀ (by norm_num), hm]
  push_cast
  rw [zpow_natCast]

/-- The exponent of doubles that are not closer together than the decimals. -/
theorem le_of_coarse {e : ℤ} (h : 1 ≤ (2 : ℚ) ^ e * 10 ^ places) : -(4 * places : ℤ) ≤ e := by
  by_contra hlt
  have hten : (10 : ℚ) ^ places ≤ 2 ^ (4 * places : ℤ) := by
    rw [zpow_mul, zpow_natCast]
    exact pow_le_pow_left₀ (by norm_num) (by norm_num) _
  have hsmall : (2 : ℚ) ^ e < 2 ^ (-(4 * places : ℤ)) :=
    zpow_lt_zpow_right₀ (by norm_num) (not_le.mp hlt)
  have hone : (2 : ℚ) ^ (-(4 * places : ℤ)) * 2 ^ (4 * places : ℤ) = 1 := by
    rw [← zpow_add₀ (by norm_num), neg_add_cancel, zpow_zero]
  have hlt : (2 : ℚ) ^ e * 10 ^ places < 1 := by
    calc (2 : ℚ) ^ e * 10 ^ places < 2 ^ (-(4 * places : ℤ)) * 10 ^ places := by gcongr
      _ ≤ 2 ^ (-(4 * places : ℤ)) * 2 ^ (4 * places : ℤ) :=
        mul_le_mul_of_nonneg_left hten (ulp_pos _).le
      _ = 1 := hone
  exact absurd h (not_le.mpr hlt)

/-- Between two powers of two that are decimals of these places, so is the nearest decimal. -/
theorem units_between {a e : ℤ} (ha : (2 : ℚ) ^ e * 10 ^ places = a) (hlow : 2 ^ e ≤ x)
    (hhigh : x ≤ 2 * 2 ^ e) : a ≤ units places x ∧ units places x ≤ 2 * a := by
  have hpow : (0 : ℚ) < 10 ^ places := by positivity
  constructor
  · rw [units, round_eq, Int.le_floor, ← ha]
    have := mul_le_mul_of_nonneg_right hlow hpow.le
    linarith
  · rw [units, round_eq, ← Int.lt_add_one_iff, Int.floor_lt]
    have := mul_le_mul_of_nonneg_right hhigh hpow.le
    push_cast
    linarith

/-- Doubles that are not closer together than the decimals. -/
theorem roundToDouble_units_of_coarse (hplaces : places ≤ 17) (hpos : 0 < k)
    (hk : roundToDouble (k / 10 ^ places) = x)
    (hcoarse : 1 ≤ (2 : ℚ) ^ exponentOf (k / 10 ^ places : ℚ) * 10 ^ places) :
    roundToDouble (units places x / 10 ^ places) = x := by
  have hpow : (0 : ℚ) < 10 ^ places := by positivity
  have hz : 0 < (k / 10 ^ places : ℚ) := div_pos (by exact_mod_cast hpos) hpow
  have hnear := abs_units_sub_le places x k
  rw [Int.cast_natCast] at hnear
  have hexp := le_of_coarse hcoarse
  generalize (k / 10 ^ places : ℚ) = z at *
  obtain ⟨e, he⟩ : ∃ e, exponentOf z = e := ⟨_, rfl⟩
  rw [he] at hexp
  have hmin : -1074 < e := by omega
  obtain ⟨a, ha⟩ : ∃ a : ℤ, (2 : ℚ) ^ (e + 52) * 10 ^ places = a := exists_pow_eq_div (by omega)
  -- The powers of two below and above.
  obtain ⟨hlow, hhigh⟩ := roundToDouble_between hz (he ▸ hmin)
  rw [he, hk] at hlow hhigh
  obtain ⟨hunits, hunits'⟩ := units_between ha hlow hhigh
  rcases hunits'.lt_or_eq with hlt | heq
  · refine roundToDouble_eq_of_nearer (z := z) ?_ hk hnear
    rw [he]
    refine exponentOf_eq hmin.le ?_ ?_
    · rw [le_div_iff₀ hpow, ha]
      exact_mod_cast hunits
    · have hcast : (units places x : ℚ) < 2 * a := by exact_mod_cast hlt
      have hdouble : (2 : ℚ) ^ (e + 53) = 2 * 2 ^ (e + 52) := by
        rw [← zpow_one_add₀ (by norm_num)]
        congr 1
        ring
      rw [div_lt_iff₀ hpow, hdouble, mul_assoc, ha]
      exact hcast
  · -- The nearest decimal is the power of two above, and then this is the double.
    have htop : (units places x : ℚ) / 10 ^ places = 2 ^ 53 * 2 ^ e := by
      have hsplit : (2 : ℚ) ^ (e + 52) = 2 ^ 52 * 2 ^ e := by
        rw [zpow_add₀ (by norm_num), mul_comm]
        norm_num
      rw [div_eq_iff hpow.ne', heq]
      push_cast
      rw [← ha, hsplit]
      ring
    have hclose : |2 ^ 53 * 2 ^ e - x| < 2 ^ e := by
      have hhalf := abs_sub_roundToDouble_le_half z
      rw [hk, he] at hhalf
      rw [htop] at hnear
      linarith [ulp_pos e]
    have hxtop : x = ((2 ^ 53 : ℤ) : ℚ) * 2 ^ e := by
      refine eq_of_abs_sub_lt_ulp (m := roundHalfEven (z / 2 ^ e)) ?_ ?_
      · rw [← hk, roundToDouble, he]
      · rw [abs_sub_comm]
        exact_mod_cast hclose
    have hback : (units places x : ℚ) / 10 ^ places = x := by
      rw [htop, hxtop]
      norm_num
    rw [hback]
    exact (hk ▸ isDouble_roundToDouble hz.le : IsDouble x).roundToDouble_eq
      ((ulp_pos _).le.trans hlow)

/-- **The double of a decimal** is read back from what is shown for it. -/
theorem roundToDouble_units (hplaces : places ≤ 17) (hk : roundToDouble (k / 10 ^ places) = x) :
    roundToDouble (units places x / 10 ^ places) = x := by
  rcases Nat.eq_zero_or_pos k with rfl | hpos
  · have hzero : x = 0 := by
      rw [← hk]
      simp
    simp [hzero, units]
  · rcases lt_or_ge ((2 : ℚ) ^ exponentOf (k / 10 ^ places : ℚ) * 10 ^ places) 1
      with hfine | hcoarse
    · rw [units_of_fine hk hfine, Int.cast_natCast]
      exact hk
    · exact roundToDouble_units_of_coarse hplaces hpos hk hcoarse

end Rounding

/-! ### Texts -/

/-- Groups of three digits, a comma before each. -/
def groups : List Char → List Char
  | a :: b :: c :: cs => ',' :: a :: b :: c :: groups cs
  | _ => []

/-- Digits in groups of three, from the right. -/
def grouped (digits : List Char) : List Char :=
  let first := (digits.length - 1) % 3 + 1
  digits.take first ++ groups (digits.drop first)

/-- A numeral with its whole part in groups. -/
def groupedText (n : Numeral) : List Char :=
  if n.fraction = [] then grouped n.whole else grouped n.whole ++ '.' :: n.fraction

/-- Decimal places without the zeros at the end that are not asked for. -/
def trimmed (minimum : ℕ) (digits : List Char) : List Char :=
  digits.take minimum ++ (digits.drop minimum).rdropWhile (· = '0')

theorem trimmed_prefixOf (minimum : ℕ) (digits : List Char) :
    trimmed minimum digits <+: digits := by
  have hprefix := (List.rdropWhile_prefix (· = '0') (l := digits.drop minimum))
  calc trimmed minimum digits <+: digits.take minimum ++ digits.drop minimum :=
        (List.prefix_append_right_inj _).mpr hprefix
    _ = digits := List.take_append_drop _ _

/-- **What was left out can be put back.** -/
theorem rightpad_trimmed (minimum : ℕ) (digits : List Char) :
    (trimmed minimum digits).rightpad digits.length '0' = digits := by
  have hpad := Decimal.rightpad_rdropWhile (digits.drop minimum)
  have hcount : digits.length - (trimmed minimum digits).length =
      (digits.drop minimum).length - ((digits.drop minimum).rdropWhile (· = '0')).length := by
    have hsplit := congrArg List.length (List.take_append_drop minimum digits)
    rw [List.length_append] at hsplit
    rw [trimmed, List.length_append]
    omega
  rw [List.rightpad] at hpad ⊢
  rw [hcount, trimmed, List.append_assoc, hpad, List.take_append_drop]

/-- **The numeral shown** for some units of the last place. -/
def numeral (minimum places n : ℕ) : Numeral where
  whole := Decimal.ofNat (n / 10 ^ places)
  fraction := trimmed minimum ((Decimal.ofNat (n % 10 ^ places)).leftpad places '0')
  whole_ne_nil := Decimal.ofNat_ne_nil _
  isDigit_whole _ hc := Decimal.isDigit_of_mem_ofNat hc
  isDigit_fraction c hc := by
    rcases List.mem_append.mp ((trimmed_prefixOf _ _).subset hc) with hzero | hdigit
    · rw [List.eq_of_mem_replicate hzero]
      rfl
    · exact Decimal.isDigit_of_mem_ofNat hdigit

/-- **A number as it is shown**, one that is not negative. -/
def format (minimum places : ℕ) (x : ℚ) : List Char :=
  groupedText (numeral minimum places (units places x).toNat)

section Texts

variable {minimum places n : ℕ}

theorem length_leftpad_mod (places n : ℕ) (hplaces : 0 < places) :
    ((Decimal.ofNat (n % 10 ^ places)).leftpad places '0').length = places := by
  rw [List.length_leftpad]
  exact max_eq_left (Decimal.length_ofNat_le hplaces (Nat.mod_lt _ (by positivity)))

/-- **The numeral writes the units**, exactly. -/
theorem value_numeral (hplaces : 0 < places) :
    (numeral minimum places n).value = n / 10 ^ places := by
  have hlength := length_leftpad_mod places n hplaces
  have hle := (trimmed_prefixOf minimum
    ((Decimal.ofNat (n % 10 ^ places)).leftpad places '0')).length_le
  have hpad := rightpad_trimmed minimum
    ((Decimal.ofNat (n % 10 ^ places)).leftpad places '0')
  rw [hlength] at hle hpad
  rw [Numeral.value, numeral, ← Decimal.value_rightpad_div hle, hpad, Decimal.value_leftpad,
    Decimal.value_ofNat, Decimal.value_ofNat]
  have hsplit : (n : ℚ) = 10 ^ places * (n / 10 ^ places : ℕ) + (n % 10 ^ places : ℕ) := by
    exact_mod_cast (Nat.div_add_mod n (10 ^ places)).symm
  rw [hsplit]
  field_simp

theorem length_fraction_le (hplaces : 0 < places) :
    (numeral minimum places n).fraction.length ≤ places :=
  (trimmed_prefixOf _ _).length_le.trans_eq (length_leftpad_mod places n hplaces)

/-- **Without its commas**, a number in groups is what it was. -/
theorem filter_groups {digits : List Char} (h : 3 ∣ digits.length)
    (hdigits : ∀ c ∈ digits, c ≠ ',') : (groups digits).filter (· ≠ ',') = digits := by
  induction digits using groups.induct with
  | case1 a b c cs ih =>
    simp only [List.forall_mem_cons] at hdigits
    obtain ⟨ha, hb, hc, hcs⟩ := hdigits
    have hrest := ih ((Nat.dvd_add_left (dvd_refl 3)).mp h) hcs
    rw [groups, List.filter_cons_of_neg (by simp), List.filter_cons_of_pos (by simpa using ha),
      List.filter_cons_of_pos (by simpa using hb), List.filter_cons_of_pos (by simpa using hc),
      hrest]
  | case2 cs hcs =>
    -- Fewer than three digits are none.
    rcases cs with _ | ⟨a, _ | ⟨b, _ | ⟨c, cs⟩⟩⟩
    · rfl
    · simp at h
    · simp at h
    · exact absurd rfl (hcs a b c cs)

theorem exists_groups_eq_cons {digits : List Char} (h : 3 ∣ digits.length) (hne : digits ≠ []) :
    ∃ rest, groups digits = ',' :: rest := by
  rcases digits with _ | ⟨a, _ | ⟨b, _ | ⟨c, cs⟩⟩⟩
  · exact absurd rfl hne
  · simp at h
  · simp at h
  · exact ⟨_, rfl⟩

theorem mem_groups {digits : List Char} {c : Char} (h : c ∈ groups digits) :
    c ∈ digits ∨ c = ',' := by
  induction digits using groups.induct with
  | case1 x y z cs ih =>
    simp only [groups, List.mem_cons] at h ⊢
    rcases h with h | h | h | h | h
    · exact Or.inr h
    · exact Or.inl (Or.inl h)
    · exact Or.inl (Or.inr (Or.inl h))
    · exact Or.inl (Or.inr (Or.inr (Or.inl h)))
    · exact (ih h).imp_left fun hmem => Or.inr (Or.inr (Or.inr hmem))
  | case2 cs hcs =>
    rw [groups.eq_2 cs hcs] at h
    cases h

/-- Nothing but commas is added. -/
theorem mem_grouped {digits : List Char} {c : Char} (h : c ∈ grouped digits) :
    c ∈ digits ∨ c = ',' := by
  rcases List.mem_append.mp h with h | h
  · exact Or.inl (List.mem_of_mem_take h)
  · exact (mem_groups h).imp_left List.mem_of_mem_drop

theorem filter_grouped {digits : List Char} (hdigits : ∀ c ∈ digits, c ≠ ',') :
    (grouped digits).filter (· ≠ ',') = digits := by
  have hthree : 3 ∣ (digits.drop ((digits.length - 1) % 3 + 1)).length := by
    rw [List.length_drop]
    omega
  have hfirst : (digits.take ((digits.length - 1) % 3 + 1)).filter (· ≠ ',') =
      digits.take ((digits.length - 1) % 3 + 1) :=
    List.filter_eq_self.mpr fun c hc => decide_eq_true (hdigits c (List.mem_of_mem_take hc))
  rw [grouped, List.filter_append, hfirst,
    filter_groups hthree fun c hc => hdigits c (List.mem_of_mem_drop hc), List.take_append_drop]

/-- The first group has one to three digits, and the others three each. -/
theorem exists_first_group {digits : List Char} (h : 3 < digits.length) :
    ∃ first rest, grouped digits = first ++ groups rest ∧ digits = first ++ rest ∧
      (1 ≤ first.length ∧ first.length ≤ 3) ∧ 3 ∣ rest.length ∧ rest ≠ [] := by
  refine ⟨_, _, rfl, (List.take_append_drop _ _).symm, ?_, ?_, ?_⟩
  · rw [List.length_take]
    omega
  · rw [List.length_drop]
    omega
  · rw [Ne, List.drop_eq_nil_iff]
    omega

theorem grouped_of_le {digits : List Char} (h : digits.length ≤ 3) : grouped digits = digits := by
  rcases digits with _ | ⟨a, _ | ⟨b, _ | ⟨c, _ | ⟨d, cs⟩⟩⟩⟩
  · rfl
  · rfl
  · rfl
  · rfl
  · simp only [List.length_cons] at h
    omega

theorem filter_groupedText (n : Numeral) : (groupedText n).filter (· ≠ ',') = n.text := by
  have hcomma : ∀ c : Char, c.isDigit = true → c ≠ ',' := by
    rintro c hc rfl
    exact absurd hc (by decide)
  have hwhole := filter_grouped fun c hc => hcomma c (n.isDigit_whole c hc)
  rw [groupedText, Numeral.text]
  split_ifs
  · exact hwhole
  · have hfraction : n.fraction.filter (· ≠ ',') = n.fraction :=
      List.filter_eq_self.mpr fun c hc => decide_eq_true (hcomma c (n.isDigit_fraction c hc))
    rw [List.filter_append, hwhole, List.filter_cons_of_pos (by decide), hfraction]

theorem groupedText_ne_nil (n : Numeral) : groupedText n ≠ [] := by
  intro hnil
  have htext := filter_groupedText n
  rw [hnil, Numeral.text] at htext
  split_ifs at htext
  · exact n.whole_ne_nil htext.symm
  · exact n.whole_ne_nil (List.append_eq_nil_iff.mp htext.symm).1

end Texts

end FixedPoint

end CryptoZaloBot
