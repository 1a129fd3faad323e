import Mathlib.Data.List.Basic
import Mathlib.Data.List.Induction
import Mathlib.Data.List.Nodup
import Mathlib.Data.Set.Card

/-!
# Maps that remember the order of insertion

The map of many scripting languages: a value per key, listed in the order in which
the keys were first set. Setting a key again replaces its value *in place*; a new
key goes to the end.

`CryptoZaloBot.InsertionMap` carries the proof that its keys are distinct, so that
reading a key and listing the entries always agree
(`CryptoZaloBot.InsertionMap.mem_entries`). A map built from a list of pairs holds, for
each key, the **last** value the list has for it
(`CryptoZaloBot.InsertionMap.get?_ofList`); a set built from a list holds each
element where it came **first** (`CryptoZaloBot.unique`).
-/

namespace CryptoZaloBot

/-- **A map listing its keys in the order of their first insertion.** -/
structure InsertionMap (κ ν : Type*) where
  /-- The entries, oldest key first. -/
  entries : List (κ × ν)
  /-- No key occurs twice. -/
  nodup : (entries.map Prod.fst).Nodup

namespace InsertionMap

variable {κ ν : Type*}

/-- The map with no entry. -/
def empty : InsertionMap κ ν := ⟨[], by simp⟩

@[simp] theorem entries_empty : (empty : InsertionMap κ ν).entries = [] := rfl

variable [DecidableEq κ]

/-- The entries that meet a condition. -/
def filter (m : InsertionMap κ ν) (p : κ × ν → Bool) : InsertionMap κ ν where
  entries := m.entries.filter p
  nodup := m.nodup.sublist (List.filter_sublist.map Prod.fst)

/-- The value under a key in a list of entries. -/
def lookupEntry (k : κ) : List (κ × ν) → Option ν
  | [] => none
  | (k', v) :: es => if k' = k then some v else lookupEntry k es

/-- Replaces the value under a key, or appends the entry. -/
def setEntry (k : κ) (v : ν) : List (κ × ν) → List (κ × ν)
  | [] => [(k, v)]
  | (k', v') :: es => if k' = k then (k, v) :: es else (k', v') :: setEntry k v es

theorem keys_setEntry (k : κ) (v : ν) (es : List (κ × ν)) :
    (setEntry k v es).map Prod.fst =
      if k ∈ es.map Prod.fst then es.map Prod.fst else es.map Prod.fst ++ [k] := by
  induction es with
  | nil => simp [setEntry]
  | cons e es ih =>
    obtain ⟨k', v'⟩ := e
    by_cases hk : k' = k
    · simp [setEntry, hk]
    · have hk' : k ≠ k' := fun h => hk h.symm
      by_cases hmem : k ∈ es.map Prod.fst
      · rw [if_pos hmem] at ih
        simp [setEntry, hk, ih, List.mem_cons_of_mem _ hmem, List.map_cons]
      · rw [if_neg hmem] at ih
        simp only [setEntry, hk, if_false, List.map_cons, ih, List.mem_cons, hk', hmem, or_self,
          List.cons_append]

theorem nodup_setEntry (k : κ) (v : ν) {es : List (κ × ν)} (h : (es.map Prod.fst).Nodup) :
    ((setEntry k v es).map Prod.fst).Nodup := by
  rw [keys_setEntry]
  split_ifs with hk
  · exact h
  · exact List.nodup_append.mpr
      ⟨h, List.nodup_singleton k, by rintro a ha b hb rfl; simp_all⟩

theorem lookupEntry_setEntry (k k' : κ) (v : ν) (es : List (κ × ν)) :
    lookupEntry k' (setEntry k v es) = if k' = k then some v else lookupEntry k' es := by
  induction es with
  | nil =>
    by_cases h : k' = k
    · simp [setEntry, lookupEntry, h]
    · simp [setEntry, lookupEntry, h, Ne.symm h]
  | cons e es ih =>
    obtain ⟨k₀, v₀⟩ := e
    by_cases h₀ : k₀ = k
    · subst h₀
      by_cases h : k' = k₀
      · simp [setEntry, lookupEntry, h]
      · simp [setEntry, lookupEntry, h, Ne.symm h]
    · by_cases h : k₀ = k'
      · subst h
        simp [setEntry, lookupEntry, h₀]
      · simp [setEntry, lookupEntry, h₀, h, ih]

theorem lookupEntry_eq_some {k : κ} {v : ν} {es : List (κ × ν)} (h : (es.map Prod.fst).Nodup) :
    lookupEntry k es = some v ↔ (k, v) ∈ es := by
  induction es with
  | nil => simp [lookupEntry]
  | cons e es ih =>
    obtain ⟨k', v'⟩ := e
    simp only [List.map_cons, List.nodup_cons] at h
    by_cases hk : k' = k
    · subst hk
      have hnot : (k', v) ∉ es := fun hm => h.1 (List.mem_map_of_mem (f := Prod.fst) hm)
      simp [lookupEntry, hnot, eq_comm]
    · simp [lookupEntry, hk, Ne.symm hk, ih h.2]

/-- The value under a key, if it is set. -/
def get? (m : InsertionMap κ ν) (k : κ) : Option ν := lookupEntry k m.entries

/-- Sets a key: in place if it is there, at the end if it is new. -/
def set (m : InsertionMap κ ν) (k : κ) (v : ν) : InsertionMap κ ν :=
  ⟨setEntry k v m.entries, nodup_setEntry k v m.nodup⟩

/-- The map a list of pairs is built into: of two pairs with one key, the later one
gives the value. -/
def ofList (es : List (κ × ν)) : InsertionMap κ ν := es.foldl (fun m e => m.set e.1 e.2) empty

@[simp] theorem get?_empty (k : κ) : (empty : InsertionMap κ ν).get? k = none := rfl

theorem get?_set (m : InsertionMap κ ν) (k k' : κ) (v : ν) :
    (m.set k v).get? k' = if k' = k then some v else m.get? k' :=
  lookupEntry_setEntry k k' v m.entries

@[simp] theorem get?_set_self (m : InsertionMap κ ν) (k : κ) (v : ν) :
    (m.set k v).get? k = some v := by
  simp [get?_set]

theorem get?_set_of_ne (m : InsertionMap κ ν) {k k' : κ} (v : ν) (h : k' ≠ k) :
    (m.set k v).get? k' = m.get? k' := by
  simp [get?_set, h]

omit [DecidableEq κ] in
/-- Maps with the same entries are the same. -/
theorem ext_entries {m m' : InsertionMap κ ν} (h : m.entries = m'.entries) : m = m' := by
  obtain ⟨entries, nodup⟩ := m
  obtain ⟨entries', nodup'⟩ := m'
  obtain rfl : entries = entries' := h
  rfl

theorem setEntry_of_lookupEntry_eq_none {k : κ} {v : ν} {es : List (κ × ν)}
    (h : lookupEntry k es = none) : setEntry k v es = es ++ [(k, v)] := by
  induction es with
  | nil => rfl
  | cons e es ih =>
    obtain ⟨k', v'⟩ := e
    by_cases hk : k' = k
    · simp [lookupEntry, hk] at h
    · rw [lookupEntry, if_neg hk] at h
      rw [setEntry, if_neg hk, ih h, List.cons_append]

/-- A new key is listed last. -/
theorem entries_set_of_get?_eq_none {m : InsertionMap κ ν} {k : κ} (h : m.get? k = none) (v : ν) :
    (m.set k v).entries = m.entries ++ [(k, v)] :=
  setEntry_of_lookupEntry_eq_none h

/-- Deletes a key. -/
def erase (m : InsertionMap κ ν) (k : κ) : InsertionMap κ ν := m.filter fun e => e.1 ≠ k

/-- **Listing and reading agree.** -/
theorem mem_entries {m : InsertionMap κ ν} {k : κ} {v : ν} :
    (k, v) ∈ m.entries ↔ m.get? k = some v :=
  (lookupEntry_eq_some m.nodup).symm

/-- A key is set if it is listed. -/
theorem isSome_get?_iff {m : InsertionMap κ ν} {k : κ} :
    (m.get? k).isSome = true ↔ k ∈ m.entries.map Prod.fst := by
  rw [Option.isSome_iff_exists, List.mem_map]
  constructor
  · rintro ⟨v, hv⟩
    exact ⟨(k, v), mem_entries.mpr hv, rfl⟩
  · rintro ⟨e, he, rfl⟩
    exact ⟨e.2, mem_entries.mp he⟩

theorem get?_of_get?_filter {m : InsertionMap κ ν} {p : κ × ν → Bool} {k : κ} {v : ν}
    (h : (m.filter p).get? k = some v) : m.get? k = some v :=
  mem_entries.mp (List.mem_of_mem_filter (mem_entries.mpr h))

@[simp] theorem get?_erase_self (m : InsertionMap κ ν) (k : κ) : (m.erase k).get? k = none := by
  refine Option.eq_none_iff_forall_ne_some.mpr fun v h => ?_
  simpa [erase, filter] using mem_entries.mpr h

theorem get?_erase_of_ne (m : InsertionMap κ ν) {k k' : κ} (h : k' ≠ k) :
    (m.erase k).get? k' = m.get? k' := by
  refine Option.ext fun v => ?_
  rw [← mem_entries, ← mem_entries]
  simp [erase, filter, h]

theorem get?_filter (m : InsertionMap κ ν) (p : κ × ν → Bool) (k : κ) :
    (m.filter p).get? k = (m.get? k).filter fun v => p (k, v) := by
  refine Option.ext fun v => ?_
  rw [← mem_entries, Option.filter_eq_some_iff, ← mem_entries]
  exact List.mem_filter

/-- **At most one entry has a key**, so that a list computed entry by entry holds at
most one element for it. -/
theorem filter_filterMap_entries {α : Type*} (m : InsertionMap κ ν) {f : κ × ν → Option α}
    {key : α → κ} (hf : ∀ e a, f e = some a → key a = e.1) (k : κ) :
    (m.entries.filterMap f).filter (fun a => key a = k) =
      ((m.get? k).bind fun v => f (k, v)).toList := by
  obtain ⟨entries, hnd⟩ := m
  rw [get?]
  induction entries with
  | nil => rfl
  | cons e entries ih =>
    obtain ⟨k', v⟩ := e
    rw [List.map_cons, List.nodup_cons] at hnd
    have hrest := ih hnd.2
    by_cases hk : k' = k
    · subst hk
      have hnone : (entries.filterMap f).filter (fun a => key a = k') = [] := by
        refine List.filter_eq_nil_iff.mpr fun a ha hkey => hnd.1 ?_
        obtain ⟨e, he, hfe⟩ := List.mem_filterMap.mp ha
        show k' ∈ entries.map Prod.fst
        rw [← of_decide_eq_true hkey, hf e a hfe]
        exact List.mem_map_of_mem (f := Prod.fst) he
      cases hfe : f (k', v) with
      | none => simp [lookupEntry, hfe, hnone]
      | some a => simp [lookupEntry, hfe, hnone, hf _ _ hfe]
    · cases hfe : f (k', v) with
      | none => simpa [lookupEntry, hfe, hk] using hrest
      | some a => simpa [lookupEntry, hfe, hk, hf _ _ hfe] using hrest

/-! ### Maps built from pairs -/

theorem ofList_concat (es : List (κ × ν)) (e : κ × ν) :
    ofList (es ++ [e]) = (ofList es).set e.1 e.2 := by
  simp [ofList, List.foldl_append]

/-- **The last pair with a key** gives its value. -/
theorem get?_ofList (es : List (κ × ν)) (k : κ) :
    (ofList es).get? k = (es.filter (·.1 = k)).getLast?.map Prod.snd := by
  induction es using List.reverseRecOn with
  | nil => rfl
  | append_singleton es e ih =>
    rw [ofList_concat, get?_set, List.filter_append]
    by_cases h : k = e.1
    · simp [h]
    · simp [h, Ne.symm h, ih]

/-- What is read was in the list. -/
theorem mem_of_get?_ofList {es : List (κ × ν)} {k : κ} {v : ν}
    (h : (ofList es).get? k = some v) : (k, v) ∈ es := by
  rw [get?_ofList] at h
  obtain ⟨e, he, rfl⟩ := Option.map_eq_some_iff.mp h
  obtain ⟨hmem, hkey⟩ := List.mem_filter.mp (List.mem_of_getLast? he)
  obtain rfl : e.1 = k := of_decide_eq_true hkey
  exact hmem

theorem get?_ofList_append (es fs : List (κ × ν)) (k : κ) :
    (ofList (es ++ fs)).get? k = ((ofList fs).get? k).or ((ofList es).get? k) := by
  rw [get?_ofList, get?_ofList, get?_ofList, List.filter_append, List.getLast?_append]
  cases (fs.filter (·.1 = k)).getLast? <;> rfl

/-- A key that no pair has is not set. -/
theorem get?_ofList_eq_none {es : List (κ × ν)} {k : κ} (h : ∀ e ∈ es, e.1 ≠ k) :
    (ofList es).get? k = none := by
  rw [get?_ofList, List.filter_eq_nil_iff.mpr fun e he => by simpa using h e he]
  rfl

/-- A key that always comes with one value has that value. -/
theorem get?_ofList_of_forall {es : List (κ × ν)} {k : κ} {v : ν} (hmem : (k, v) ∈ es)
    (h : ∀ e ∈ es, e.1 = k → e.2 = v) : (ofList es).get? k = some v := by
  have hne : es.filter (·.1 = k) ≠ [] :=
    List.ne_nil_of_mem (List.mem_filter.mpr ⟨hmem, decide_eq_true rfl⟩)
  have hlast := List.mem_filter.mp (List.getLast_mem hne)
  rw [get?_ofList, List.getLast?_eq_some_getLast hne, Option.map_some]
  exact congrArg some (h _ hlast.1 (of_decide_eq_true hlast.2))

/-- A map is built again from its entries. -/
theorem get?_ofList_entries (m : InsertionMap κ ν) (k : κ) :
    (ofList m.entries).get? k = m.get? k := by
  cases hk : m.get? k with
  | none =>
    refine get?_ofList_eq_none fun e he hkey => ?_
    subst hkey
    exact nomatch hk.symm.trans (mem_entries.mp he)
  | some v =>
    refine get?_ofList_of_forall (mem_entries.mpr hk) fun e he hkey => ?_
    subst hkey
    exact Option.some.inj ((mem_entries.mp he).symm.trans hk)

/-- Changing the values changes what is read. -/
theorem get?_ofList_map {μ : Type*} (f : ν → μ) (es : List (κ × ν)) (k : κ) :
    (ofList (es.map fun e => (e.1, f e.2))).get? k = ((ofList es).get? k).map f := by
  rw [get?_ofList, get?_ofList, List.filter_map, List.getLast?_map, Option.map_map, Option.map_map]
  rfl

/-- A map whose values are computed from their keys. -/
theorem get?_ofList_filterMap (xs : List κ) (f : κ → Option ν) (k : κ) :
    (ofList (xs.filterMap fun x => (f x).map fun v => (x, v))).get? k =
      if k ∈ xs then f k else none := by
  induction xs using List.reverseRecOn with
  | nil => rfl
  | append_singleton xs x ih =>
    rw [List.filterMap_append, get?_ofList_append, ih]
    simp only [List.mem_append, List.mem_singleton]
    cases hx : f x with
    | none =>
      by_cases h : k = x
      · subst h
        simp [hx, ofList]
      · simp [hx, ofList, h]
    | some v =>
      by_cases h : k = x
      · subst h
        simp [hx, ofList]
      · simp [hx, ofList, get?_set, h]

/-- A map has as many keys as entries. -/
theorem encard_keys (m : InsertionMap κ ν) :
    {k | (m.get? k).isSome = true}.encard = m.entries.length := by
  have hkeys : {k | (m.get? k).isSome = true} = ↑(m.entries.map Prod.fst).toFinset := by
    ext k
    rw [Set.mem_ofPred_eq, Finset.mem_coe, List.mem_toFinset, List.mem_map,
      Option.isSome_iff_exists]
    constructor
    · rintro ⟨v, hv⟩
      exact ⟨(k, v), mem_entries.mpr hv, rfl⟩
    · rintro ⟨⟨_, v⟩, hv, rfl⟩
      exact ⟨v, mem_entries.mp hv⟩
  rw [hkeys, Set.encard_coe_eq_coe_finsetCard, List.toFinset_card_of_nodup m.nodup,
    List.length_map]

/-! ### Keyed lists -/

omit [DecidableEq κ] in
theorem mem_filterMap_keyed {keys : List κ} {f : κ → Option ν} {k : κ} {v : ν} :
    (k, v) ∈ (keys.filterMap fun k => (f k).map (k, ·)) ↔ k ∈ keys ∧ f k = some v := by
  simp only [List.mem_filterMap, Option.map_eq_some_iff, Prod.mk.injEq]
  constructor
  · rintro ⟨k', hk', v', hv, rfl, rfl⟩
    exact ⟨hk', hv⟩
  · rintro ⟨hk, hv⟩
    exact ⟨k, hk, v, hv, rfl, rfl⟩

omit [DecidableEq κ] in
/-- Two lists of values with keys have the same entries if each key has the same value. -/
theorem perm_filterMap_keyed_iff {keys : List κ} {f g : κ → Option ν} :
    (keys.filterMap fun k => (f k).map (k, ·)).Perm
        (keys.filterMap fun k => (g k).map (k, ·)) ↔ ∀ k ∈ keys, f k = g k := by
  constructor
  · intro h k hk
    refine Option.ext fun v => ?_
    have hmem := h.mem_iff (a := (k, v))
    simpa only [mem_filterMap_keyed, hk, true_and] using hmem
  · intro h
    rw [List.filterMap_congr fun k hk => by rw [h k hk]]

end InsertionMap

/-! ### Sets that remember the order of insertion -/

section Sets

variable {α β : Type*} [DecidableEq α] [DecidableEq β]

/-- The elements of a list not seen before, each once. -/
def uniqueFrom (seen : List α) : List α → List α
  | [] => []
  | x :: xs => if x ∈ seen then uniqueFrom seen xs else x :: uniqueFrom (x :: seen) xs

/-- **The distinct elements of a list**, in the order of their first occurrence. -/
def unique (xs : List α) : List α := uniqueFrom [] xs

theorem mem_uniqueFrom {seen xs : List α} {a : α} :
    a ∈ uniqueFrom seen xs ↔ a ∈ xs ∧ a ∉ seen := by
  induction xs generalizing seen with
  | nil => simp [uniqueFrom]
  | cons x xs ih =>
    rw [uniqueFrom]
    split_ifs with hx
    · rw [ih, List.mem_cons]
      constructor
      · rintro ⟨ha, hseen⟩
        exact ⟨Or.inr ha, hseen⟩
      · rintro ⟨rfl | ha, hseen⟩
        · exact absurd hx hseen
        · exact ⟨ha, hseen⟩
    · rw [List.mem_cons, ih, List.mem_cons, List.mem_cons, not_or]
      constructor
      · rintro (rfl | ⟨ha, hne, hseen⟩)
        · exact ⟨Or.inl rfl, hx⟩
        · exact ⟨Or.inr ha, hseen⟩
      · rintro ⟨ha, hseen⟩
        rcases eq_or_ne a x with rfl | hne
        · exact Or.inl rfl
        · exact Or.inr ⟨ha.resolve_left hne, hne, hseen⟩

@[simp] theorem mem_unique {xs : List α} {a : α} : a ∈ unique xs ↔ a ∈ xs := by
  simp [unique, mem_uniqueFrom]

theorem nodup_uniqueFrom (seen xs : List α) : (uniqueFrom seen xs).Nodup := by
  induction xs generalizing seen with
  | nil => exact List.nodup_nil
  | cons x xs ih =>
    rw [uniqueFrom]
    split_ifs with hx
    · exact ih seen
    · refine List.nodup_cons.mpr ⟨fun hmem => ?_, ih (x :: seen)⟩
      exact (mem_uniqueFrom.mp hmem).2 List.mem_cons_self

theorem nodup_unique (xs : List α) : (unique xs).Nodup := nodup_uniqueFrom [] xs

/-- Seen before, by another name. -/
theorem uniqueFrom_eq_filter {seen seen' xs : List α} (h : ∀ a ∈ seen, a ∈ seen') :
    uniqueFrom seen' xs = (uniqueFrom seen xs).filter (· ∉ seen') := by
  induction xs generalizing seen seen' with
  | nil => rfl
  | cons x xs ih =>
    rw [uniqueFrom, uniqueFrom]
    by_cases hx' : x ∈ seen'
    · rw [if_pos hx']
      split_ifs with hx
      · exact ih h
      · rw [List.filter_cons_of_neg (by simpa using hx')]
        exact ih fun a ha => (List.mem_cons.mp ha).elim (fun hax => hax ▸ hx') (h a)
    · have hx : x ∉ seen := fun hx => hx' (h x hx)
      rw [if_neg hx', if_neg hx, List.filter_cons_of_pos (by simpa using hx'),
        @ih (x :: seen) (x :: seen')]
      · refine congrArg (x :: ·) (List.filter_congr fun a ha => ?_)
        have hne : a ≠ x := fun hax => (mem_uniqueFrom.mp ha).2 (hax ▸ List.mem_cons_self)
        simp [hne]
      · exact fun a ha => (List.mem_cons.mp ha).elim (fun hax => hax ▸ List.mem_cons_self)
          fun ha => List.mem_cons_of_mem x (h a ha)

/-- Seen before, in another order. -/
theorem uniqueFrom_congr {seen seen' : List α} (h : ∀ a, a ∈ seen ↔ a ∈ seen') (xs : List α) :
    uniqueFrom seen xs = uniqueFrom seen' xs := by
  rw [uniqueFrom_eq_filter fun a ha => (h a).mp ha, eq_comm, List.filter_eq_self]
  intro a ha
  simpa [← h a] using (mem_uniqueFrom.mp ha).2

theorem uniqueFrom_append (seen xs ys : List α) :
    uniqueFrom seen (xs ++ ys) =
      uniqueFrom seen xs ++ (unique ys).filter fun a => a ∉ seen ∧ a ∉ xs := by
  induction xs generalizing seen with
  | nil =>
    rw [List.nil_append, @uniqueFrom_eq_filter _ _ [] seen ys (by simp)]
    simp [uniqueFrom, unique]
  | cons x xs ih =>
    rw [List.cons_append, uniqueFrom, uniqueFrom]
    split_ifs with hx
    · rw [ih]
      refine congrArg _ (List.filter_congr fun a _ => decide_eq_decide.mpr ?_)
      refine and_congr_right fun ha => ?_
      have hne : a ≠ x := fun hax => ha (hax ▸ hx)
      simp [hne]
    · rw [ih, List.cons_append]
      refine congrArg (x :: ·) (congrArg _ (List.filter_congr fun a _ => decide_eq_decide.mpr ?_))
      rw [List.mem_cons, List.mem_cons, not_or, not_or, and_assoc, and_left_comm]

/-- The distinct elements of two lists: those of the first, and what the second adds. -/
theorem unique_append (xs ys : List α) :
    unique (xs ++ ys) = unique xs ++ (unique ys).filter (· ∉ xs) := by
  rw [unique, uniqueFrom_append]
  simp [unique]

/-- Elements dropped as repetitions are repetitions of their images too. -/
theorem uniqueFrom_map_uniqueFrom (f : α → β) {seen : List α} {seen' : List β}
    (h : ∀ a ∈ seen, f a ∈ seen') (xs : List α) :
    uniqueFrom seen' ((uniqueFrom seen xs).map f) = uniqueFrom seen' (xs.map f) := by
  induction xs generalizing seen seen' with
  | nil => rfl
  | cons x xs ih =>
    rw [uniqueFrom, List.map_cons, uniqueFrom]
    by_cases hx : x ∈ seen
    · rw [if_pos hx, if_pos (h x hx), ih h]
    · rw [if_neg hx, List.map_cons, uniqueFrom]
      by_cases hfx : f x ∈ seen'
      · rw [if_pos hfx, if_pos hfx]
        refine ih fun a ha => ?_
        rcases List.mem_cons.mp ha with rfl | ha
        · exact hfx
        · exact h a ha
      · rw [if_neg hfx, if_neg hfx]
        refine congrArg (f x :: ·) (ih fun a ha => ?_)
        rcases List.mem_cons.mp ha with rfl | ha
        · exact List.mem_cons_self
        · exact List.mem_cons_of_mem _ (h a ha)

theorem unique_map_unique (f : α → β) (xs : List α) :
    unique ((unique xs).map f) = unique (xs.map f) :=
  uniqueFrom_map_uniqueFrom f (by simp) xs

omit [DecidableEq β] in
theorem pairwise_uniqueFrom_map (f : β → α) {r : β → β → Prop} (seen : List α) {xs : List β}
    (hxs : xs.Pairwise r) :
    (uniqueFrom seen (xs.map f)).Pairwise fun a b =>
      ∃ x ∈ xs, f x = a ∧ ∀ y ∈ xs, f y = b → r x y := by
  induction xs generalizing seen with
  | nil => exact List.Pairwise.nil
  | cons x xs ih =>
    obtain ⟨hx, hxs⟩ := List.pairwise_cons.mp hxs
    -- What is not seen for the first time at `x` has all its images further on.
    have hrest : ∀ seen : List α, f x ∈ seen → (uniqueFrom seen (xs.map f)).Pairwise fun a b =>
        ∃ y ∈ x :: xs, f y = a ∧ ∀ z ∈ x :: xs, f z = b → r y z := by
      intro seen hseen
      refine (ih seen hxs).imp_of_mem fun _ hb => ?_
      rintro ⟨y, hy, hya, hyz⟩
      refine ⟨y, List.mem_cons_of_mem x hy, hya, fun z hz hzb => ?_⟩
      rcases List.mem_cons.mp hz with rfl | hz
      · exact absurd (hzb ▸ hseen) (mem_uniqueFrom.mp hb).2
      · exact hyz z hz hzb
    rw [List.map_cons, uniqueFrom]
    split_ifs with hseen
    · exact hrest seen hseen
    · refine List.pairwise_cons.mpr ⟨fun b hb => ⟨x, List.mem_cons_self, rfl, ?_⟩,
        hrest _ List.mem_cons_self⟩
      intro z hz hzb
      rcases List.mem_cons.mp hz with rfl | hz
      · exact absurd (hzb ▸ List.mem_cons_self) (mem_uniqueFrom.mp hb).2
      · exact hx z hz

omit [DecidableEq β] in
/-- **The distinct images stand in the order of the first elements with them.** -/
theorem pairwise_unique_map (f : β → α) {r : β → β → Prop} {xs : List β} (hxs : xs.Pairwise r) :
    (unique (xs.map f)).Pairwise fun a b => ∃ x ∈ xs, f x = a ∧ ∀ y ∈ xs, f y = b → r x y :=
  pairwise_uniqueFrom_map f [] hxs

end Sets

end CryptoZaloBot
