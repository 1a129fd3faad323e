import Mathlib.Algebra.Order.Field.Rat

/-!
# The numbers of a scripting language

A number read from elsewhere may be no number, or infinite. The finite ones are exact
here; of the others only what comparisons and `Number.isFinite` tell apart is kept.

A program that is careful asks for a *finite positive* number before it computes:
`CryptoZaloBot.JsNumber.positive?`.
-/

namespace CryptoZaloBot

/-- **A number**, finite or not. -/
inductive JsNumber where
  | finite (q : ℚ)
  | posInfinity
  | negInfinity
  | nan
  deriving DecidableEq

namespace JsNumber

/-- `Number.isFinite`. -/
def isFinite : JsNumber → Bool
  | finite _ => true
  | _ => false

/-- `a < b`; nothing compares with `NaN`. -/
def lt : JsNumber → JsNumber → Bool
  | finite a, finite b => a < b
  | finite _, posInfinity => true
  | negInfinity, finite _ => true
  | negInfinity, posInfinity => true
  | _, _ => false

/-- The number, if it is finite and positive. -/
def positive? : JsNumber → Option ℚ
  | finite q => if 0 < q then some q else none
  | _ => none

@[simp] theorem isFinite_finite (q : ℚ) : (finite q).isFinite = true := rfl

@[simp] theorem lt_finite (a b : ℚ) : (finite a).lt (finite b) = decide (a < b) := rfl

theorem isFinite_iff {x : JsNumber} : x.isFinite = true ↔ ∃ q, x = finite q := by
  cases x <;> simp [isFinite]

end JsNumber

end CryptoZaloBot
