import Mathlib.Data.Set.Card
import CryptoZaloBot.Base.InsertionMap

/-!
# Collecting by key

The loop of every report: each event updates what is kept under its key, and a key that is seen
for the first time starts afresh.

What is kept under a key in the end depends on the events of that key alone
(`CryptoZaloBot.Collect.get?_collect`), and the keys are listed in the order in which they first
came (`CryptoZaloBot.Collect.keys_collect`). So a report that says something about each key says
it about the events of the key, whatever the order of the others
(`CryptoZaloBot.Collect.mem_entries_collect`).
-/

namespace CryptoZaloBot

namespace Collect

variable {κ σ α : Type*} [DecidableEq κ] (key : α → κ) (add : Option σ → α → σ)

/-- **Events collected by their keys.** -/
def collect (m : InsertionMap κ σ) (as : List α) : InsertionMap κ σ :=
  as.foldl (fun m a => m.set (key a) (add (m.get? (key a)) a)) m

/-- What the events of one key make of it, one after the other. -/
def addAll (s : Option σ) (as : List α) : Option σ := as.foldl (fun s a => some (add s a)) s

variable {add}

@[simp] theorem addAll_nil (s : Option σ) : addAll add s [] = s := rfl

@[simp] theorem addAll_cons (s : Option σ) (a : α) (as : List α) :
    addAll add s (a :: as) = addAll add (some (add s a)) as := rfl

@[simp] theorem addAll_concat (s : Option σ) (as : List α) (a : α) :
    addAll add s (as ++ [a]) = some (add (addAll add s as) a) := by
  simp [addAll]

variable {key}

/-- **What is kept under a key depends on its own events alone.** -/
theorem get?_collect (m : InsertionMap κ σ) (as : List α) (k : κ) :
    (collect key add m as).get? k = addAll add (m.get? k) (as.filter (key · = k)) := by
  induction as generalizing m with
  | nil => rfl
  | cons a as ih =>
    have hrest := ih (m.set (key a) (add (m.get? (key a)) a))
    rcases eq_or_ne (key a) k with rfl | hk
    · rw [InsertionMap.get?_set_self] at hrest
      rw [List.filter_cons_of_pos (by simp)]
      exact hrest
    · rw [InsertionMap.get?_set_of_ne m _ (Ne.symm hk)] at hrest
      rw [List.filter_cons_of_neg (by simpa using hk)]
      exact hrest

/-- **The keys are listed in the order in which they first came.** -/
theorem keys_collect (m : InsertionMap κ σ) (as : List α) :
    (collect key add m as).entries.map Prod.fst =
      m.entries.map Prod.fst ++ uniqueFrom (m.entries.map Prod.fst) (as.map key) := by
  induction as generalizing m with
  | nil => simp [collect, uniqueFrom]
  | cons a as ih =>
    have hkeys : (m.set (key a) (add (m.get? (key a)) a)).entries.map Prod.fst =
        if key a ∈ m.entries.map Prod.fst then m.entries.map Prod.fst
        else m.entries.map Prod.fst ++ [key a] := InsertionMap.keys_setEntry _ _ _
    have hrest := ih (m.set (key a) (add (m.get? (key a)) a))
    rw [hkeys] at hrest
    refine hrest.trans ?_
    rw [List.map_cons, uniqueFrom]
    split_ifs with hmem
    · rfl
    · rw [List.append_assoc, List.singleton_append]
      refine congrArg (_ ++ key a :: ·) (uniqueFrom_congr (fun k => ?_) _)
      rw [List.mem_append, List.mem_singleton, List.mem_cons, or_comm]

/-- The keys of the events, each once. -/
theorem keys_collect_empty (as : List α) :
    (collect key add InsertionMap.empty as).entries.map Prod.fst = unique (as.map key) :=
  keys_collect InsertionMap.empty as

/-- **An entry is what the events of its key make**, and a key with an event has one. -/
theorem mem_entries_collect {as : List α} {k : κ} {s : σ} :
    (k, s) ∈ (collect key add InsertionMap.empty as).entries ↔
      addAll add none (as.filter (key · = k)) = some s := by
  rw [InsertionMap.mem_entries, get?_collect, InsertionMap.get?_empty]

end Collect

/-- One more element of a set that remembers the order of insertion. -/
theorem unique_concat {α : Type*} [DecidableEq α] (xs : List α) (x : α) :
    unique (xs ++ [x]) = if x ∈ unique xs then unique xs else unique xs ++ [x] := by
  have hone : unique [x] = [x] := by simp [unique, uniqueFrom]
  rw [unique_append, hone]
  split_ifs with hx
  · rw [mem_unique] at hx
    rw [List.filter_cons_of_neg (by simpa using hx), List.filter_nil, List.append_nil]
  · rw [mem_unique] at hx
    rw [List.filter_cons_of_pos (by simpa using hx), List.filter_nil]

/-- Distinct elements are as many as their set has. -/
theorem length_eq_ncard {α : Type*} [DecidableEq α] {l : List α} (h : l.Nodup) :
    l.length = {a | a ∈ l}.ncard := by
  have hset : {a | a ∈ l} = ↑l.toFinset := by
    ext a
    simp
  rw [hset, Set.ncard_coe_finset, List.toFinset_card_of_nodup h]

end CryptoZaloBot
