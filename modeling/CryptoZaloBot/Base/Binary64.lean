import Mathlib.Data.Int.Log
import Mathlib.Data.Rat.Floor
import Mathlib.Tactic.Linarith
import Mathlib.Tactic.Ring
import CryptoZaloBot.Base.JsNumber

/-!
# Doubles

The double nearest to a rational number that is not negative, a tie going to the even
significand (`CryptoZaloBot.Binary64.roundToDouble`). A double is told here by its value:
an integer below `2 ^ 53` times a power of two from `2 ^ (-1074)` on
(`CryptoZaloBot.Binary64.IsDouble`), with no largest exponent – what rounds to `2 ^ 1024`
or more is infinite (`CryptoZaloBot.Binary64.ofRat`).

That the result is a nearest double (`CryptoZaloBot.Binary64.abs_sub_roundToDouble_le`) is
the one fact of any depth. Every bound that a program has for its doubles follows from it:
a number on one side of a double is not rounded to the other side
(`CryptoZaloBot.Binary64.le_roundToDouble`, `CryptoZaloBot.Binary64.roundToDouble_le`).
-/

namespace CryptoZaloBot

namespace Binary64

/-- **A double**, by its value. -/
def IsDouble (x : ℚ) : Prop :=
  ∃ m e : ℤ, |m| < 2 ^ 53 ∧ -1074 ≤ e ∧ x = m * 2 ^ e

/-- The nearest integer, the even one of two. -/
def roundHalfEven (q : ℚ) : ℤ :=
  if Int.fract q < 1 / 2 ∨ Int.fract q = 1 / 2 ∧ 2 ∣ ⌊q⌋ then ⌊q⌋ else ⌊q⌋ + 1

/-- The exponent of the last bit that doubles of this size have. -/
def exponentOf (x : ℚ) : ℤ := max (Int.log 2 x - 52) (-1074)

/-- **The nearest double** of a number that is not negative. -/
def roundToDouble (x : ℚ) : ℚ := roundHalfEven (x / 2 ^ exponentOf x) * 2 ^ exponentOf x

/-- The number for a number that is not negative. -/
def ofRat (x : ℚ) : JsNumber :=
  if roundToDouble x < 2 ^ 1024 then .finite (roundToDouble x) else .posInfinity

/-! ### Rounding to integers -/

/-- No integer is nearer. -/
theorem abs_sub_roundHalfEven_le (q : ℚ) (n : ℤ) : |q - roundHalfEven q| ≤ |q - n| := by
  have hfloor : q = ⌊q⌋ + Int.fract q := (Int.floor_add_fract q).symm
  have hnonneg := Int.fract_nonneg q
  have hlt := Int.fract_lt_one q
  -- The distances to the two integers next to `q` are `fract q` and `1 - fract q`.
  have hother : Int.fract q ≤ |q - n| ∨ 1 - Int.fract q ≤ |q - n| := by
    rcases le_or_gt n ⌊q⌋ with hn | hn
    · have hcast : (n : ℚ) ≤ ⌊q⌋ := Int.cast_le.mpr hn
      exact Or.inl (le_trans (by linarith) (le_abs_self _))
    · have hcast : (⌊q⌋ : ℚ) + 1 ≤ n := by exact_mod_cast hn
      exact Or.inr (le_trans (by linarith) (neg_le_abs _))
  rw [roundHalfEven]
  split_ifs with hdown
  · have habs : |q - ⌊q⌋| = Int.fract q := by
      rw [← Int.self_sub_floor, abs_of_nonneg]
      linarith
    have hhalf : Int.fract q ≤ 1 / 2 := hdown.elim le_of_lt fun h => h.1.le
    rw [habs]
    rcases hother with h | h <;> linarith
  · have habs : |q - ((⌊q⌋ + 1 : ℤ) : ℚ)| = 1 - Int.fract q := by
      push_cast
      rw [abs_of_nonpos (by linarith)]
      linarith
    have hhalf : 1 / 2 ≤ Int.fract q := not_lt.mp fun h => hdown (Or.inl h)
    rw [habs]
    rcases hother with h | h <;> linarith

theorem roundHalfEven_le {q : ℚ} {n : ℤ} (h : q ≤ n) : roundHalfEven q ≤ n := by
  have hnear := abs_sub_roundHalfEven_le q n
  rw [abs_of_nonpos (by linarith : q - n ≤ 0)] at hnear
  have hle : (roundHalfEven q : ℚ) ≤ n := by linarith [neg_le_abs (q - roundHalfEven q)]
  exact_mod_cast hle

theorem le_roundHalfEven {q : ℚ} {n : ℤ} (h : n ≤ q) : n ≤ roundHalfEven q := by
  have hnear := abs_sub_roundHalfEven_le q n
  rw [abs_of_nonneg (by linarith : 0 ≤ q - n)] at hnear
  have hle : (n : ℚ) ≤ roundHalfEven q := by linarith [le_abs_self (q - roundHalfEven q)]
  exact_mod_cast hle

/-- **A number up to the middle** is rounded down to an even integer. -/
theorem roundHalfEven_le_iff {q : ℚ} {n : ℤ} (hn : 2 ∣ n) :
    roundHalfEven q ≤ n ↔ q ≤ n + 1 / 2 := by
  constructor
  · intro h
    by_contra hlt
    have hfract : q = ⌊q⌋ + Int.fract q := (Int.floor_add_fract q).symm
    rcases lt_trichotomy ⌊q⌋ n with hfloor | rfl | hfloor
    · -- Below `n` altogether.
      have hcast : (⌊q⌋ : ℚ) + 1 ≤ n := by exact_mod_cast hfloor
      linarith [Int.fract_lt_one q]
    · rw [roundHalfEven, if_neg] at h
      · omega
      · rintro (hhalf | ⟨hhalf, -⟩) <;> linarith
    · have hle : n + 1 ≤ roundHalfEven q :=
        le_roundHalfEven ((Int.cast_le.mpr hfloor).trans (Int.floor_le q))
      omega
  · intro h
    rcases lt_or_ge q (n + 1) with hlt | hge
    · rcases lt_or_ge q n with hbelow | habove
      · exact roundHalfEven_le hbelow.le
      · have hfloor : ⌊q⌋ = n := Int.floor_eq_iff.mpr ⟨habove, hlt⟩
        have hfract : Int.fract q = q - n := by rw [Int.fract, hfloor]
        rw [roundHalfEven, hfract, hfloor, if_pos]
        rcases h.lt_or_eq with hlt | heq
        · exact Or.inl (by linarith)
        · exact Or.inr ⟨by linarith, hn⟩
    · linarith

/-! ### Rounding to doubles -/

section Rounding

variable {x d : ℚ}

theorem ulp_pos (e : ℤ) : (0 : ℚ) < 2 ^ e := zpow_pos (by norm_num) e

theorem lt_ulp_mul (x : ℚ) : x < 2 ^ 53 * 2 ^ exponentOf x := by
  have hlog : x < (2 : ℚ) ^ (Int.log 2 x + 1) := by
    exact_mod_cast Int.lt_zpow_succ_log_self (by norm_num) x
  have hexp : Int.log 2 x + 1 ≤ 53 + exponentOf x := by
    have := le_max_left (Int.log 2 x - 52) (-1074)
    rw [exponentOf]
    omega
  calc x < (2 : ℚ) ^ (Int.log 2 x + 1) := hlog
    _ ≤ 2 ^ (53 + exponentOf x) := zpow_le_zpow_right₀ (by norm_num) hexp
    _ = 2 ^ 53 * 2 ^ exponentOf x := by
      rw [zpow_add₀ (by norm_num)]
      norm_num

/-- A number that is rounded to a coarser grid than the finest has all of its 53 bits. -/
theorem ulp_mul_le (hx : 0 < x) (he : -1074 < exponentOf x) :
    2 ^ 52 * 2 ^ exponentOf x ≤ x := by
  have hlog : (2 : ℚ) ^ Int.log 2 x ≤ x := by exact_mod_cast Int.zpow_log_le_self (by norm_num) hx
  have hexp : exponentOf x = Int.log 2 x - 52 := by
    rw [exponentOf] at he ⊢
    exact max_eq_left (by rcases lt_max_iff.mp he with h | h <;> omega)
  have hmul : (2 : ℚ) ^ 52 * 2 ^ exponentOf x = 2 ^ Int.log 2 x := by
    rw [hexp, zpow_sub₀ (by norm_num)]
    norm_num
    ring
  exact hmul ▸ hlog

theorem div_ulp_mul (x : ℚ) (e : ℤ) : x / 2 ^ e * 2 ^ e = x :=
  div_mul_cancel₀ x (ulp_pos e).ne'

/-- Of the multiples of the last bit, none is nearer. -/
theorem abs_sub_roundToDouble_le_mul (x : ℚ) {y : ℚ} {n : ℤ} (hy : y = n) :
    |x - roundToDouble x| ≤ |x - y * 2 ^ exponentOf x| := by
  subst hy
  have hscale : ∀ k : ℤ, |x - k * 2 ^ exponentOf x| =
      |x / 2 ^ exponentOf x - k| * 2 ^ exponentOf x := by
    intro k
    rw [← abs_of_pos (ulp_pos (exponentOf x)), ← abs_mul, abs_of_pos (ulp_pos (exponentOf x)),
      sub_mul, div_ulp_mul]
  rw [roundToDouble, hscale, hscale]
  exact mul_le_mul_of_nonneg_right (abs_sub_roundHalfEven_le _ n) (ulp_pos _).le

@[simp] theorem roundToDouble_zero : roundToDouble 0 = 0 := by
  have hzero := abs_sub_roundToDouble_le_mul 0 Int.cast_zero.symm
  simpa using hzero

/-- **No double is nearer.** -/
theorem abs_sub_roundToDouble_le (hx : 0 ≤ x) (hd : IsDouble d) :
    |x - roundToDouble x| ≤ |x - d| := by
  rcases hx.eq_or_lt with rfl | hpos
  · simp
  obtain ⟨m, e, hm, hmin, rfl⟩ := hd
  rcases le_or_gt (exponentOf x) e with he | he
  · -- The double is on the grid `x` is rounded to.
    obtain ⟨k, hk⟩ := Int.eq_ofNat_of_zero_le (sub_nonneg.mpr he)
    have hgrid : (m : ℚ) * 2 ^ e = m * 2 ^ k * 2 ^ exponentOf x := by
      have hsplit : e = k + exponentOf x := by omega
      rw [hsplit, zpow_add₀ (by norm_num), zpow_natCast, mul_assoc]
    rw [hgrid]
    exact abs_sub_roundToDouble_le_mul x (n := m * 2 ^ k) (by push_cast; rfl)
  · -- It is on a finer grid, so it is too small to be near.
    have hlow := ulp_mul_le hpos (hmin.trans_lt he)
    have hsmall : (m : ℚ) * 2 ^ e ≤ 2 ^ 52 * 2 ^ exponentOf x := by
      have hcast : (m : ℚ) ≤ 2 ^ 53 := by
        exact_mod_cast (le_abs_self m).trans hm.le
      calc (m : ℚ) * 2 ^ e ≤ 2 ^ 53 * 2 ^ e := mul_le_mul_of_nonneg_right hcast (ulp_pos e).le
        _ = 2 ^ (53 + e) := by
          rw [zpow_add₀ (by norm_num)]
          norm_num
        _ ≤ 2 ^ (52 + exponentOf x) := zpow_le_zpow_right₀ (by norm_num) (by omega)
        _ = 2 ^ 52 * 2 ^ exponentOf x := by
          rw [zpow_add₀ (by norm_num)]
          norm_num
    have hnear : |x - roundToDouble x| ≤ |x - 2 ^ 52 * 2 ^ exponentOf x| :=
      abs_sub_roundToDouble_le_mul x (n := 2 ^ 52) (by norm_num)
    rw [abs_of_nonneg (sub_nonneg.mpr hlow)] at hnear
    exact hnear.trans ((sub_le_sub_left hsmall x).trans (le_abs_self _))

/-- What is rounded to is a double. -/
theorem isDouble_roundToDouble (hx : 0 ≤ x) : IsDouble (roundToDouble x) := by
  have hmin : -1074 ≤ exponentOf x := le_max_right _ _
  have hq : 0 ≤ x / 2 ^ exponentOf x := div_nonneg hx (ulp_pos _).le
  have hnonneg : 0 ≤ roundHalfEven (x / 2 ^ exponentOf x) := le_roundHalfEven (by exact_mod_cast hq)
  have hle : roundHalfEven (x / 2 ^ exponentOf x) ≤ 2 ^ 53 := by
    refine roundHalfEven_le ?_
    rw [div_le_iff₀ (ulp_pos _)]
    exact_mod_cast (lt_ulp_mul x).le
  rcases hle.lt_or_eq with hlt | heq
  · exact ⟨_, _, by rwa [abs_of_nonneg hnonneg], hmin, rfl⟩
  · refine ⟨2 ^ 52, exponentOf x + 1, by norm_num, by omega, ?_⟩
    rw [roundToDouble, heq, zpow_add₀ (by norm_num)]
    norm_num
    ring

/-- **A number on one side of a double** is not rounded to the other side. -/
theorem roundToDouble_le (hx : 0 ≤ x) (hd : IsDouble d) (h : x ≤ d) : roundToDouble x ≤ d := by
  have hnear := abs_sub_roundToDouble_le hx hd
  rw [abs_of_nonpos (sub_nonpos.mpr h)] at hnear
  linarith [neg_le_abs (x - roundToDouble x)]

theorem le_roundToDouble (hx : 0 ≤ x) (hd : IsDouble d) (h : d ≤ x) : d ≤ roundToDouble x := by
  have hnear := abs_sub_roundToDouble_le hx hd
  rw [abs_of_nonneg (sub_nonneg.mpr h)] at hnear
  linarith [le_abs_self (x - roundToDouble x)]

theorem lt_of_roundToDouble_lt (hx : 0 ≤ x) (hd : IsDouble d) (h : roundToDouble x < d) : x < d :=
  not_le.mp fun hle => absurd (le_roundToDouble hx hd hle) (not_le.mpr h)

theorem lt_of_lt_roundToDouble (hx : 0 ≤ x) (hd : IsDouble d) (h : d < roundToDouble x) : d < x :=
  not_le.mp fun hle => absurd (roundToDouble_le hx hd hle) (not_le.mpr h)

/-- A double is not rounded. -/
theorem IsDouble.roundToDouble_eq (hd : IsDouble d) (h : 0 ≤ d) : roundToDouble d = d :=
  le_antisymm (roundToDouble_le h hd le_rfl) (le_roundToDouble h hd le_rfl)

theorem exponentOf_eq {k : ℤ} (hk : -1074 ≤ k) (hlow : 2 ^ (k + 52) ≤ x)
    (hhigh : x < 2 ^ (k + 53)) : exponentOf x = k := by
  have hpos : 0 < x := lt_of_lt_of_le (ulp_pos _) hlow
  have hle : k + 52 ≤ Int.log 2 x :=
    (Int.zpow_le_iff_le_log (by norm_num) hpos).mp (by exact_mod_cast hlow)
  have hlt : Int.log 2 x < k + 53 :=
    (Int.lt_zpow_iff_log_lt (by norm_num) hpos).mp (by exact_mod_cast hhigh)
  rw [exponentOf, max_eq_left (by omega)]
  omega

/-- **Above an even double**, a number up to the middle between it and the next is rounded down
to it. -/
theorem roundToDouble_le_iff {n k : ℤ} (hn : 2 ∣ n) (hk : exponentOf x = k) :
    roundToDouble x ≤ n * 2 ^ k ↔ x ≤ (n + 1 / 2) * 2 ^ k := by
  rw [roundToDouble, hk, mul_le_mul_iff_of_pos_right (ulp_pos k), Int.cast_le,
    roundHalfEven_le_iff hn, div_le_iff₀ (ulp_pos k)]

theorem ofRat_eq_finite {y : ℚ} (h : ofRat x = .finite y) : roundToDouble x = y := by
  rw [ofRat] at h
  split_ifs at h
  exact JsNumber.finite.inj h

theorem lt_of_ofRat_eq_finite {y : ℚ} (h : ofRat x = .finite y) : y < 2 ^ 1024 := by
  rw [ofRat] at h
  split_ifs at h with hlt
  exact JsNumber.finite.inj h ▸ hlt

end Rounding

end Binary64

end CryptoZaloBot
