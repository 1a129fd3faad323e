import Mathlib.Data.List.Basic
import Mathlib.Logic.Function.Basic

/-!
# Writing a list of entries

A store that is a function from keys to values, after a list of writes: a key nobody
wrote keeps its value (`CryptoZaloBot.writeAll_of_forall_ne`), and a key that all writes
to it agree on has that value (`CryptoZaloBot.writeAll_of_mem`), whatever the order.
-/

namespace CryptoZaloBot

variable {α κ ν : Type*} [DecidableEq κ] (key : α → κ) (val : α → ν)

/-- **The store after writing each entry under its key**, in order. -/
def writeAll (f : κ → ν) (xs : List α) : κ → ν :=
  xs.foldl (fun f x => Function.update f (key x) (val x)) f

variable {key val}

@[simp] theorem writeAll_nil (f : κ → ν) : writeAll key val f [] = f := rfl

@[simp] theorem writeAll_cons (f : κ → ν) (x : α) (xs : List α) :
    writeAll key val f (x :: xs) = writeAll key val (Function.update f (key x) (val x)) xs := rfl

@[simp] theorem writeAll_append (f : κ → ν) (xs ys : List α) :
    writeAll key val f (xs ++ ys) = writeAll key val (writeAll key val f xs) ys :=
  List.foldl_append

/-- A key nobody wrote keeps its value. -/
theorem writeAll_of_forall_ne (f : κ → ν) {xs : List α} {k : κ} (h : ∀ x ∈ xs, key x ≠ k) :
    writeAll key val f xs k = f k := by
  induction xs generalizing f with
  | nil => rfl
  | cons x xs ih =>
    rw [writeAll_cons, ih _ fun y hy => h y (List.mem_cons_of_mem x hy)]
    exact Function.update_of_ne (h x List.mem_cons_self).symm _ _

/-- A key that was written, with writes that all agree, has the value they write. -/
theorem writeAll_of_mem (f : κ → ν) {xs : List α} {k : κ} {v : ν} (hmem : ∃ x ∈ xs, key x = k)
    (hval : ∀ x ∈ xs, key x = k → val x = v) : writeAll key val f xs k = v := by
  induction xs generalizing f with
  | nil =>
    obtain ⟨x, hx, -⟩ := hmem
    cases hx
  | cons y xs ih =>
    rw [writeAll_cons]
    by_cases hrest : ∃ x ∈ xs, key x = k
    · exact ih _ hrest fun x hx => hval x (List.mem_cons_of_mem y hx)
    · have hne : ∀ x ∈ xs, key x ≠ k := fun x hx hk => hrest ⟨x, hx, hk⟩
      obtain ⟨x, hx, rfl⟩ := hmem
      obtain rfl := (List.mem_cons.mp hx).resolve_right fun h => hne x h rfl
      rw [writeAll_of_forall_ne _ hne, Function.update_self]
      exact hval x hx rfl

end CryptoZaloBot
