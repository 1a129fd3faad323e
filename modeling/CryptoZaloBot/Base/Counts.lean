import Mathlib.Algebra.BigOperators.Group.List.Lemmas
import Mathlib.Algebra.Order.BigOperators.Group.List
import Mathlib.Algebra.Order.Ring.Nat
import CryptoZaloBot.Base.InsertionMap

/-!
# Counts under keys

Maps of counts, where a key that is not set counts zero, and what such a map holds under
the keys that meet a condition (`CryptoZaloBot.InsertionMap.sumOf`).

The sum is all one needs to know of a map that is only ever added to: an addition shows
in it if and only if its key meets the condition
(`CryptoZaloBot.InsertionMap.sumOf_increment`), whether the key was there or not.
-/

namespace CryptoZaloBot

/-- A stronger condition selects no more. -/
theorem sum_filter_le {α : Type*} (f : α → ℕ) {p q : α → Prop} [DecidablePred p]
    [DecidablePred q] {l : List α} (hpq : ∀ a ∈ l, p a → q a) :
    ((l.filter p).map f).sum ≤ ((l.filter q).map f).sum := by
  induction l with
  | nil => exact le_rfl
  | cons a l ih =>
    obtain ⟨ha, hl⟩ := List.forall_mem_cons.mp hpq
    have hrest := ih hl
    by_cases hp : p a
    · simp only [hp, ha hp, decide_true, List.filter_cons_of_pos, List.map_cons, List.sum_cons]
      omega
    · by_cases hq : q a
      · simp only [hp, hq, decide_false, decide_true, List.filter_cons_of_neg,
          List.filter_cons_of_pos, List.map_cons, List.sum_cons, Bool.false_eq_true,
          not_false_eq_true]
        omega
      · simp only [hp, hq, decide_false, List.filter_cons_of_neg, Bool.false_eq_true,
          not_false_eq_true]
        exact hrest

/-- **It selects as much** exactly if what is between the two counts nothing. -/
theorem sum_filter_eq_iff {α : Type*} (f : α → ℕ) {p q : α → Prop} [DecidablePred p]
    [DecidablePred q] {l : List α} (hpq : ∀ a ∈ l, p a → q a) :
    ((l.filter p).map f).sum = ((l.filter q).map f).sum ↔ ∀ a ∈ l, q a → ¬p a → f a = 0 := by
  induction l with
  | nil => simp
  | cons a l ih =>
    obtain ⟨ha, hl⟩ := List.forall_mem_cons.mp hpq
    rw [List.forall_mem_cons]
    refine Iff.trans ?_ (and_congr_right fun _ => ih hl)
    have hrest := sum_filter_le f hl
    by_cases hp : p a
    · simp [hp, ha hp]
    · by_cases hq : q a
      · simp only [hp, hq, decide_false, decide_true, List.filter_cons_of_neg,
          List.filter_cons_of_pos, List.map_cons, List.sum_cons, not_false_eq_true, forall_const,
          Bool.false_eq_true]
        omega
      · simp [hp, hq]

/-- **Two conditions select equally many** exactly if each selects as many that the other
one leaves out. -/
theorem countP_eq_countP_iff {α : Type*} (p q : α → Bool) (l : List α) :
    l.countP p = l.countP q ↔
      l.countP (fun a => p a && !q a) = l.countP fun a => q a && !p a := by
  have hsplit : l.countP p + l.countP (fun a => q a && !p a) =
      l.countP q + l.countP fun a => p a && !q a := by
    induction l with
    | nil => rfl
    | cons a l ih =>
      cases hp : p a <;> cases hq : q a <;> simp [hp, hq] <;> omega
  omega

/-- A stronger condition selects as many exactly if it selects the same. -/
theorem countP_eq_countP_iff_of_imp {α : Type*} {p q : α → Bool} {l : List α}
    (hpq : ∀ a ∈ l, p a = true → q a = true) :
    l.countP p = l.countP q ↔ ∀ a ∈ l, q a = true → p a = true := by
  have hnone : l.countP (fun a => p a && !q a) = 0 := by
    refine List.countP_eq_zero.mpr fun a ha hsplit => ?_
    obtain ⟨hp, hq⟩ := Bool.and_eq_true_iff.mp hsplit
    rw [hpq a ha hp] at hq
    cases hq
  rw [countP_eq_countP_iff, hnone, eq_comm, List.countP_eq_zero]
  refine forall₂_congr fun a _ => ?_
  cases p a <;> cases q a <;> simp

/-- Among distinct keys, one that counts more adds no more than once. -/
theorem sum_map_le_of_eq_of_ne {κ : Type*} [DecidableEq κ] {f g : κ → ℕ} {k : κ} {n : ℕ}
    (hk : g k ≤ f k + n) (hne : ∀ k' ≠ k, g k' = f k') {keys : List κ} (hnd : keys.Nodup) :
    (keys.map g).sum ≤ (keys.map f).sum + n := by
  induction keys with
  | nil => simp
  | cons k' keys ih =>
    obtain ⟨hnot, hnd⟩ := List.nodup_cons.mp hnd
    rw [List.map_cons, List.map_cons, List.sum_cons, List.sum_cons]
    rcases eq_or_ne k' k with rfl | hk'
    · have hrest : keys.map g = keys.map f :=
        List.map_congr_left fun k'' hmem => hne k'' fun heq => hnot (heq ▸ hmem)
      rw [hrest]
      omega
    · have := ih hnd
      have := hne k' hk'
      omega

namespace InsertionMap

variable {κ : Type*} [DecidableEq κ]

/-- Adds to the count under a key. -/
def increment (m : InsertionMap κ ℕ) (k : κ) (n : ℕ) : InsertionMap κ ℕ :=
  m.set k ((m.get? k).getD 0 + n)

/-- **What is counted under the keys that meet a condition.** -/
def sumOf (m : InsertionMap κ ℕ) (p : κ → Prop) [DecidablePred p] : ℕ :=
  ((m.entries.filter fun e => p e.1).map Prod.snd).sum

omit [DecidableEq κ] in
@[simp] theorem sumOf_empty (p : κ → Prop) [DecidablePred p] :
    (empty : InsertionMap κ ℕ).sumOf p = 0 := rfl

/-- **An addition counts once**, where its key meets the condition. -/
theorem sumOf_increment (m : InsertionMap κ ℕ) (k : κ) (n : ℕ) (p : κ → Prop) [DecidablePred p] :
    (m.increment k n).sumOf p = m.sumOf p + if p k then n else 0 := by
  have hentries : ∀ es : List (κ × ℕ),
      (((setEntry k ((lookupEntry k es).getD 0 + n) es).filter fun e => p e.1).map
          Prod.snd).sum =
        ((es.filter fun e => p e.1).map Prod.snd).sum + if p k then n else 0 := by
    intro es
    induction es with
    | nil => by_cases hp : p k <;> simp [setEntry, lookupEntry, hp]
    | cons e es ih =>
      obtain ⟨k', v⟩ := e
      by_cases hk : k' = k
      · subst hk
        by_cases hp : p k'
        · simp [setEntry, lookupEntry, hp]
          omega
        · simp [setEntry, lookupEntry, hp]
      · rw [setEntry, lookupEntry, if_neg hk, if_neg hk]
        by_cases hp : p k' <;> simp [hp, ih, Nat.add_assoc]
  exact hentries m.entries

/-- What is counted under one key is part of the sum. -/
theorem le_sumOf {m : InsertionMap κ ℕ} {k : κ} {n : ℕ} (h : m.get? k = some n) {p : κ → Prop}
    [DecidablePred p] (hp : p k) : n ≤ m.sumOf p := by
  refine List.le_sum_of_mem (List.mem_map.mpr ⟨(k, n), List.mem_filter.mpr ⟨?_, ?_⟩, rfl⟩)
  · exact mem_entries.mpr h
  · exact decide_eq_true hp

/-- The keys of a map that was added to. -/
theorem mem_keys_increment {m : InsertionMap κ ℕ} {k : κ} {n : ℕ} {e : κ × ℕ}
    (h : e ∈ (m.increment k n).entries) : e.1 = k ∨ ∃ v, (e.1, v) ∈ m.entries := by
  rcases eq_or_ne e.1 k with hk | hk
  · exact Or.inl hk
  · have hget : (m.increment k n).get? e.1 = some e.2 := mem_entries.mp h
    rw [increment, get?_set_of_ne m _ hk] at hget
    exact Or.inr ⟨e.2, mem_entries.mpr hget⟩

end InsertionMap

end CryptoZaloBot
