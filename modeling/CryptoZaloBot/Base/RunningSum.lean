import Mathlib.Algebra.BigOperators.Group.List.Basic
import Mathlib.Algebra.Order.Group.Defs
import Mathlib.Data.List.Induction

/-!
# Running sums that never go negative

An account is a list of signed amounts, and the one thing to ask of it is that no
withdrawal ever takes more than is there: every **running** sum, not only the last
one, is nonnegative (`CryptoZaloBot.NeverNegative`).

The final sum says nothing about the ones before it, so the property is not one of the
final sum. An append can be checked against it entry by entry
(`CryptoZaloBot.neverNegative_concat`), while a removal from the middle has to be checked
in full.
-/

namespace CryptoZaloBot

section Sums

variable {α : Type*} [AddCommGroup α]

/-- The running sums of a list, one after each entry, starting from `acc`. -/
def runningSums (acc : α) : List α → List α
  | [] => []
  | x :: xs => (acc + x) :: runningSums (acc + x) xs

@[simp] theorem runningSums_nil (acc : α) : runningSums acc [] = [] := rfl

@[simp] theorem runningSums_cons (acc x : α) (xs : List α) :
    runningSums acc (x :: xs) = (acc + x) :: runningSums (acc + x) xs := rfl

theorem runningSums_append (acc : α) (xs ys : List α) :
    runningSums acc (xs ++ ys) = runningSums acc xs ++ runningSums (acc + xs.sum) ys := by
  induction xs generalizing acc with
  | nil => simp
  | cons x xs ih => simp [ih, add_assoc]

variable [LinearOrder α]

/-- **No running sum is negative**, starting from `acc`. -/
def NeverNegativeFrom (acc : α) (xs : List α) : Prop := ∀ r ∈ runningSums acc xs, 0 ≤ r

/-- **No running sum is negative.** -/
abbrev NeverNegative (xs : List α) : Prop := NeverNegativeFrom 0 xs

instance (acc : α) (xs : List α) : Decidable (NeverNegativeFrom acc xs) :=
  inferInstanceAs (Decidable (∀ r ∈ runningSums acc xs, 0 ≤ r))

@[simp] theorem neverNegativeFrom_nil (acc : α) : NeverNegativeFrom acc ([] : List α) := by
  simp [NeverNegativeFrom]

@[simp] theorem neverNegativeFrom_cons (acc x : α) (xs : List α) :
    NeverNegativeFrom acc (x :: xs) ↔ 0 ≤ acc + x ∧ NeverNegativeFrom (acc + x) xs := by
  simp [NeverNegativeFrom]

theorem neverNegativeFrom_append (acc : α) (xs ys : List α) :
    NeverNegativeFrom acc (xs ++ ys) ↔
      NeverNegativeFrom acc xs ∧ NeverNegativeFrom (acc + xs.sum) ys := by
  simp only [NeverNegativeFrom, runningSums_append, List.mem_append]
  exact ⟨fun h => ⟨fun r hr => h r (Or.inl hr), fun r hr => h r (Or.inr hr)⟩,
    fun h r hr => hr.elim (h.1 r) (h.2 r)⟩

/-- **Appending one entry** only has to be checked against the total before it. -/
theorem neverNegative_concat (xs : List α) (x : α) :
    NeverNegative (xs ++ [x]) ↔ NeverNegative xs ∧ 0 ≤ xs.sum + x := by
  simp [NeverNegative, neverNegativeFrom_append]

/-- The total of a list whose running sums are never negative is not negative
either. -/
theorem NeverNegativeFrom.sum_nonneg {acc : α} {xs : List α} (hacc : 0 ≤ acc)
    (h : NeverNegativeFrom acc xs) : 0 ≤ acc + xs.sum := by
  induction xs generalizing acc with
  | nil => simpa using hacc
  | cons x xs ih =>
    obtain ⟨hx, hxs⟩ := (neverNegativeFrom_cons acc x xs).mp h
    simpa [add_assoc] using ih hx hxs

end Sums

end CryptoZaloBot
