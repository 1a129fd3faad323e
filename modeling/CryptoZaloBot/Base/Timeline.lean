import Mathlib.Data.List.Induction
import Mathlib.Data.List.Sort
import Mathlib.Order.Basic

/-!
# Lists of things that have a time

Two ways to pick from a list whose elements have a time, or fall into buckets.

The *earliest* element from a time on (`CryptoZaloBot.earliest`) is what a search in the
sorted list finds (`CryptoZaloBot.find?_sortOn`); of elements of one time it is the first
one in the list, because sorting is stable. The *last of its bucket*
(`CryptoZaloBot.LastOf`) is what is left when each element replaces the one before it in its
bucket.
-/

namespace CryptoZaloBot

section Earliest

variable {α κ : Type*} [LinearOrder κ] (time : α → κ)

/-- **Sorted by time**; elements of one time stay in their order. -/
def sortOn (l : List α) : List α := l.insertionSort fun a b => time a ≤ time b

/-- **The earliest element from a time on.** -/
def earliest (start : κ) : List α → Option α
  | [] => none
  | a :: l =>
    if start ≤ time a then
      match earliest start l with
      | none => some a
      | some b => if time a ≤ time b then some a else some b
    else earliest start l

variable {time} {start start' : κ} {a b : α} {l l' : List α}

@[simp] theorem mem_sortOn : a ∈ sortOn time l ↔ a ∈ l := List.mem_insertionSort _

theorem sorted_sortOn (l : List α) : (sortOn time l).Pairwise fun a b => time a ≤ time b := by
  have : Std.Total fun a b : α => time a ≤ time b := ⟨fun a b => le_total (time a) (time b)⟩
  have : IsTrans α fun a b : α => time a ≤ time b := ⟨fun _ _ _ => le_trans⟩
  exact List.pairwise_insertionSort _ l

theorem sortOn_of_sorted (h : l.Pairwise fun a b => time a ≤ time b) : sortOn time l = l :=
  h.insertionSort_eq

theorem sortOn_sortOn (l : List α) : sortOn time (sortOn time l) = sortOn time l :=
  sortOn_of_sorted (sorted_sortOn l)

/-! ### What the earliest element is -/

theorem earliest_eq_none : earliest time start l = none ↔ ∀ x ∈ l, time x < start := by
  induction l with
  | nil => simp [earliest]
  | cons a l ih =>
    rw [earliest, List.forall_mem_cons, ← ih]
    by_cases ha : start ≤ time a
    · rw [if_pos ha]
      constructor
      · intro h
        cases hl : earliest time start l with
        | none => simp [hl] at h
        | some b => by_cases hab : time a ≤ time b <;> simp [hl, hab] at h
      · exact fun h => absurd h.1 (not_lt.mpr ha)
    · rw [if_neg ha]
      exact ⟨fun h => ⟨not_le.mp ha, h⟩, fun h => h.2⟩

/-- **The earliest element** is one, and none from that time on is earlier. -/
theorem earliest_spec (h : earliest time start l = some a) :
    a ∈ l ∧ start ≤ time a ∧ ∀ x ∈ l, start ≤ time x → time a ≤ time x := by
  induction l generalizing a with
  | nil => cases h
  | cons c l ih =>
    rw [earliest] at h
    by_cases hc : start ≤ time c
    · rw [if_pos hc] at h
      cases hl : earliest time start l with
      | none =>
        rw [hl] at h
        obtain rfl := Option.some.inj h
        refine ⟨List.mem_cons_self, hc, List.forall_mem_cons.mpr ⟨fun _ => le_rfl, ?_⟩⟩
        exact fun x hx hstart => absurd hstart (not_le.mpr (earliest_eq_none.mp hl x hx))
      | some b =>
        rw [hl] at h
        obtain ⟨hmem, hstart, hmin⟩ := ih hl
        by_cases hle : time c ≤ time b
        · obtain rfl : c = a := by simpa [hle] using h
          refine ⟨List.mem_cons_self, hc, List.forall_mem_cons.mpr ⟨fun _ => le_rfl, ?_⟩⟩
          exact fun x hx hx' => hle.trans (hmin x hx hx')
        · obtain rfl : b = a := by simpa [hle] using h
          refine ⟨List.mem_cons_of_mem c hmem, hstart, List.forall_mem_cons.mpr ⟨?_, hmin⟩⟩
          exact fun _ => (not_le.mp hle).le
    · rw [if_neg hc] at h
      obtain ⟨hmem, hstart, hmin⟩ := ih h
      refine ⟨List.mem_cons_of_mem c hmem, hstart, List.forall_mem_cons.mpr ⟨?_, hmin⟩⟩
      exact fun hc' => absurd hc' hc

theorem earliest_isSome (hmem : a ∈ l) (hstart : start ≤ time a) :
    ∃ b, earliest time start l = some b := by
  cases h : earliest time start l with
  | none => exact absurd hstart (not_le.mpr (earliest_eq_none.mp h a hmem))
  | some b => exact ⟨b, rfl⟩

/-- An element that none of its time or earlier comes near is the earliest. -/
theorem earliest_of_forall (hmem : a ∈ l) (hstart : start ≤ time a)
    (hmin : ∀ x ∈ l, start ≤ time x → time a ≤ time x ∧ (time x = time a → x = a)) :
    earliest time start l = some a := by
  obtain ⟨b, hb⟩ := earliest_isSome hmem hstart
  obtain ⟨hbmem, hbstart, hbmin⟩ := earliest_spec hb
  obtain ⟨hle, heq⟩ := hmin b hbmem hbstart
  rw [hb, heq (le_antisymm (hbmin a hmem hstart) hle)]

/-- **Only the elements from the start on** matter. -/
theorem earliest_congr (h : ∀ x ∈ l, start ≤ time x ↔ start' ≤ time x) :
    earliest time start l = earliest time start' l := by
  induction l with
  | nil => rfl
  | cons a l ih =>
    obtain ⟨ha, hl⟩ := List.forall_mem_cons.mp h
    rw [earliest, earliest, ih hl]
    exact if_congr ha rfl rfl

/-! ### Searching a sorted list -/

theorem find?_orderedInsert (hl : l.Pairwise fun a b => time a ≤ time b) :
    (l.orderedInsert (fun a b => time a ≤ time b) a).find? (fun x => start ≤ time x) =
      if start ≤ time a then
        match l.find? (fun x => start ≤ time x) with
        | none => some a
        | some b => if time a ≤ time b then some a else some b
      else l.find? (fun x => start ≤ time x) := by
  induction l with
  | nil => by_cases ha : start ≤ time a <;> simp [ha]
  | cons c l ih =>
    obtain ⟨hc, hl⟩ := List.pairwise_cons.mp hl
    rw [List.orderedInsert_cons]
    by_cases hac : time a ≤ time c
    · rw [if_pos hac, List.find?_cons]
      by_cases ha : start ≤ time a
      · have hfirst : ∀ b, (c :: l).find? (fun x => start ≤ time x) = some b → time a ≤ time b := by
          intro b hb
          rcases List.mem_cons.mp (List.mem_of_find?_eq_some hb) with rfl | hb
          · exact hac
          · exact hac.trans (hc b hb)
        simp only [ha, decide_true, if_true]
        cases hfind : (c :: l).find? (fun x => start ≤ time x) with
        | none => rfl
        | some b => simp [hfirst b hfind]
      · simp [ha]
    · rw [if_neg hac, List.find?_cons, ih hl]
      have hca : time c < time a := not_le.mp hac
      by_cases hstart : start ≤ time c
      · simp [hstart, hstart.trans hca.le, hac]
      · simp [hstart]

/-- **A search in the sorted list finds the earliest element.** -/
theorem find?_sortOn (l : List α) :
    (sortOn time l).find? (fun x => start ≤ time x) = earliest time start l := by
  induction l with
  | nil => rfl
  | cons a l ih =>
    refine (find?_orderedInsert (sorted_sortOn l)).trans ?_
    rw [ih]
    rfl

theorem earliest_sortOn (l : List α) :
    earliest time start (sortOn time l) = earliest time start l := by
  rw [← find?_sortOn, sortOn_sortOn, find?_sortOn]

theorem earliest_append (l l' : List α) :
    earliest time start (l ++ l') =
      match earliest time start l, earliest time start l' with
      | none, found => found
      | some a, none => some a
      | some a, some b => if time a ≤ time b then some a else some b := by
  induction l with
  | nil => rfl
  | cons c l ih =>
    rw [List.cons_append, earliest, earliest, ih]
    by_cases hc : start ≤ time c
    · rw [if_pos hc, if_pos hc]
      cases earliest time start l with
      | none =>
        cases earliest time start l' with
        | none => rfl
        | some b => rfl
      | some a =>
        cases earliest time start l' with
        | none =>
          by_cases hca : time c ≤ time a <;> simp [hca]
        | some b =>
          by_cases hca : time c ≤ time a <;> by_cases hab : time a ≤ time b <;>
            by_cases hcb : time c ≤ time b <;> simp [hca, hab, hcb]
          · exact absurd (hca.trans hab) hcb
          · exact absurd (hcb.trans (not_le.mp hab).le) hca
    · rw [if_neg hc, if_neg hc]

/-- **Sorting the parts first** does not matter. -/
theorem earliest_sortOn_append (l l' : List α) :
    earliest time start (sortOn time l ++ sortOn time l') = earliest time start (l ++ l') := by
  rw [earliest_append, earliest_append, earliest_sortOn, earliest_sortOn]

end Earliest

/-! ### The last of a bucket -/

section LastOf

variable {α β γ : Type*} {bucket : α → β} {l l' : List α} {a b : α}

variable (bucket) in
/-- **The last element of its bucket.** -/
def LastOf (l : List α) (a : α) : Prop :=
  ∃ pre post, l = pre ++ a :: post ∧ ∀ x ∈ post, bucket x ≠ bucket a

theorem LastOf.mem (h : LastOf bucket l a) : a ∈ l := by
  obtain ⟨pre, post, rfl, -⟩ := h
  simp

theorem lastOf_append :
    LastOf bucket (l ++ l') a ↔
      LastOf bucket l' a ∨ LastOf bucket l a ∧ ∀ x ∈ l', bucket x ≠ bucket a := by
  constructor
  · rintro ⟨pre, post, heq, hpost⟩
    rcases List.append_eq_append_iff.mp heq with ⟨mid, rfl, rfl⟩ | ⟨mid, rfl, hmid⟩
    · exact Or.inl ⟨mid, post, rfl, hpost⟩
    · cases mid with
      | nil => exact Or.inl ⟨[], post, by simpa using hmid.symm, hpost⟩
      | cons c mid =>
        obtain ⟨rfl, rfl⟩ := List.cons.inj hmid
        refine Or.inr ⟨⟨pre, mid, rfl, fun x hx => ?_⟩, fun x hx => ?_⟩
        · exact hpost x (List.mem_append_left l' hx)
        · exact hpost x (List.mem_append_right mid hx)
  · rintro (⟨pre, post, rfl, hpost⟩ | ⟨⟨pre, post, rfl, hpost⟩, hl'⟩)
    · exact ⟨l ++ pre, post, by simp, hpost⟩
    · refine ⟨pre, post ++ l', by simp, fun x hx => ?_⟩
      rcases List.mem_append.mp hx with hx | hx
      · exact hpost x hx
      · exact hl' x hx

theorem lastOf_concat :
    LastOf bucket (l ++ [b]) a ↔ a = b ∨ LastOf bucket l a ∧ bucket b ≠ bucket a := by
  rw [lastOf_append]
  refine or_congr ⟨?_, ?_⟩ (and_congr_right' (by simp))
  · intro h
    simpa using h.mem
  · rintro rfl
    exact ⟨[], [], rfl, by simp⟩

/-- **A bucket has one last element.** -/
theorem LastOf.unique (ha : LastOf bucket l a) (hb : LastOf bucket l b)
    (h : bucket a = bucket b) : a = b := by
  induction l using List.reverseRecOn with
  | nil => exact nomatch ha.mem
  | append_singleton l c ih =>
    rcases lastOf_concat.mp ha with rfl | ⟨ha, hca⟩
    · rcases lastOf_concat.mp hb with rfl | ⟨-, hcb⟩
      · rfl
      · exact absurd h hcb
    · rcases lastOf_concat.mp hb with rfl | ⟨hb, -⟩
      · exact absurd h.symm hca
      · exact ih ha hb

/-- The last of a bucket is the last of any smaller bucket it is in. -/
theorem LastOf.finer {fine : α → γ} (h : LastOf bucket l a)
    (hfine : ∀ x, fine x = fine a → bucket x = bucket a) : LastOf fine l a := by
  obtain ⟨pre, post, rfl, hpost⟩ := h
  exact ⟨pre, post, rfl, fun x hx heq => hpost x hx (hfine x heq)⟩

variable (bucket) in
/-- **Every bucket that is not empty has a last element**, which comes no earlier than any
other of the bucket. -/
theorem exists_lastOf {time : α → ℤ} (hl : l.Pairwise fun a b => time a ≤ time b) (ha : a ∈ l) :
    ∃ b, LastOf bucket l b ∧ bucket b = bucket a ∧ time a ≤ time b := by
  induction l using List.reverseRecOn with
  | nil => cases ha
  | append_singleton l c ih =>
    obtain ⟨hl, -, hc⟩ := List.pairwise_append.mp hl
    rcases List.mem_append.mp ha with ha | ha
    · obtain ⟨b, hb, hbucket, hle⟩ := ih hl ha
      by_cases hcb : bucket c = bucket a
      · exact ⟨c, lastOf_concat.mpr (Or.inl rfl), hcb, hc a ha c (by simp)⟩
      · exact ⟨b, lastOf_concat.mpr (Or.inr ⟨hb, hbucket ▸ hcb⟩), hbucket, hle⟩
    · obtain rfl := List.mem_singleton.mp ha
      exact ⟨a, lastOf_concat.mpr (Or.inl rfl), rfl, le_rfl⟩

end LastOf

end CryptoZaloBot
