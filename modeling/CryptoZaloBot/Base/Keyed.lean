import CryptoZaloBot.Base.InsertionMap

/-!
# Many machines in one map

A machine for each key, all of them in one map: an event is handled by the machine of its own
key, which is started the first time it is needed. The run stops at the first event its machine
refuses.

The machines do not see each other. As long as the run does not stop, each ends as it would end
if it were alone with its own events (`CryptoZaloBot.Keyed.foldlM_component`), whatever else is
in between; and the map lists them in the order they were started
(`CryptoZaloBot.Keyed.keys_foldlM`).
-/

namespace CryptoZaloBot

namespace Keyed

/-- A run that succeeds, event by event. -/
theorem foldlM_cons_eq_ok {σ α ε : Type*} {f : σ → α → Except ε σ} {a : α} {as : List α}
    {s s' : σ} :
    (a :: as).foldlM f s = .ok s' ↔ ∃ s₁, f s a = .ok s₁ ∧ as.foldlM f s₁ = .ok s' := by
  rw [List.foldlM_cons]
  cases f s a with
  | error error => exact ⟨nofun, fun ⟨_, h, _⟩ => nomatch h⟩
  | ok s₁ => exact ⟨fun h => ⟨s₁, rfl, h⟩, fun ⟨_, h, h'⟩ => Except.ok.inj h ▸ h'⟩

/-- Events of the same content lead to the same state. -/
theorem foldlM_eq_ok_of_map_eq {σ α β ε : Type*} {f : σ → α → Except ε σ} {content : α → β}
    (hf : ∀ s a b s', content a = content b → f s a = .ok s' → f s b = .ok s') {as bs : List α}
    (h : as.map content = bs.map content) {s s' : σ} (has : as.foldlM f s = .ok s') :
    bs.foldlM f s = .ok s' := by
  induction as generalizing bs s with
  | nil =>
    obtain rfl : bs = [] := List.map_eq_nil_iff.mp h.symm
    exact has
  | cons a as ih =>
    obtain ⟨b, bs, rfl, hb, hbs⟩ := List.map_eq_cons_iff.mp h.symm
    obtain ⟨s₁, hs₁, has⟩ := foldlM_cons_eq_ok.mp has
    exact foldlM_cons_eq_ok.mpr ⟨s₁, hf s a b s₁ hb.symm hs₁, ih hbs.symm has⟩

variable {κ σ α ε : Type*} [DecidableEq κ]

/-- The machine of a key. -/
def component (init : σ) (m : InsertionMap κ σ) (k : κ) : σ := (m.get? k).getD init

/-- **One event**, handled by the machine of its key. -/
def stepAt (key : α → κ) (init : σ) (step : σ → α → Except ε σ) (m : InsertionMap κ σ) (a : α) :
    Except ε (InsertionMap κ σ) :=
  (step (component init m (key a)) a).map (m.set (key a))

variable {key : α → κ} {init : σ} {step : σ → α → Except ε σ} {m m' : InsertionMap κ σ}

@[simp] theorem component_empty (k : κ) :
    component init (InsertionMap.empty : InsertionMap κ σ) k = init := rfl

theorem component_set (m : InsertionMap κ σ) (k k' : κ) (s : σ) :
    component init (m.set k s) k' = if k' = k then s else component init m k' := by
  by_cases h : k' = k <;> simp [component, InsertionMap.get?_set, h]

theorem stepAt_eq_ok {a : α} (h : stepAt key init step m a = .ok m') :
    ∃ s, step (component init m (key a)) a = .ok s ∧ m' = m.set (key a) s := by
  rw [stepAt] at h
  cases hs : step (component init m (key a)) a with
  | error error =>
    rw [hs] at h
    cases h
  | ok s =>
    rw [hs] at h
    exact ⟨s, rfl, (Except.ok.inj h).symm⟩

/-- **Each machine runs as if it were alone** with its own events. -/
theorem foldlM_component {as : List α} (h : as.foldlM (stepAt key init step) m = .ok m') (k : κ) :
    (as.filter (key · = k)).foldlM step (component init m k) = .ok (component init m' k) := by
  induction as generalizing m with
  | nil =>
    obtain rfl := Except.ok.inj h
    rfl
  | cons a as ih =>
    obtain ⟨m₁, hm₁, h⟩ := foldlM_cons_eq_ok.mp h
    obtain ⟨s, hs, rfl⟩ := stepAt_eq_ok hm₁
    have hrest := ih h
    rw [component_set] at hrest
    by_cases hk : key a = k
    · subst hk
      rw [List.filter_cons_of_pos (by simp)]
      rw [if_pos rfl] at hrest
      exact foldlM_cons_eq_ok.mpr ⟨s, hs, hrest⟩
    · rw [List.filter_cons_of_neg (by simpa using hk)]
      rwa [if_neg (Ne.symm hk)] at hrest

/-- **The machines are listed in the order of their first events.** -/
theorem keys_foldlM {as : List α} (h : as.foldlM (stepAt key init step) m = .ok m') :
    m'.entries.map Prod.fst =
      m.entries.map Prod.fst ++ uniqueFrom (m.entries.map Prod.fst) (as.map key) := by
  induction as generalizing m with
  | nil =>
    obtain rfl := Except.ok.inj h
    simp [uniqueFrom]
  | cons a as ih =>
    obtain ⟨m₁, hm₁, h⟩ := foldlM_cons_eq_ok.mp h
    obtain ⟨s, -, rfl⟩ := stepAt_eq_ok hm₁
    have hkeys : (m.set (key a) s).entries.map Prod.fst =
        if key a ∈ m.entries.map Prod.fst then m.entries.map Prod.fst
        else m.entries.map Prod.fst ++ [key a] := InsertionMap.keys_setEntry _ _ _
    rw [ih h, hkeys, List.map_cons, uniqueFrom]
    split_ifs with hmem
    · rfl
    · rw [List.append_assoc, List.singleton_append]
      refine congrArg (_ ++ key a :: ·) (uniqueFrom_congr (fun k => ?_) _)
      rw [List.mem_append, List.mem_singleton, List.mem_cons, or_comm]

/-- A machine that was started, or none. -/
theorem get?_foldlM {as : List α}
    (h : as.foldlM (stepAt key init step) InsertionMap.empty = .ok m') (k : κ) :
    m'.get? k = if k ∈ as.map key then some (component init m' k) else none := by
  have hkeys := keys_foldlM h
  have hsome : (m'.get? k).isSome = true ↔ k ∈ as.map key := by
    rw [InsertionMap.isSome_get?_iff, hkeys]
    simp [mem_uniqueFrom]
  rw [component]
  cases hk : m'.get? k with
  | none =>
    rw [hk] at hsome
    exact (if_neg fun hmem => nomatch hsome.mpr hmem).symm
  | some s =>
    rw [hk] at hsome
    exact (if_pos (hsome.mp rfl)).symm

/-- **What a machine ends as depends on its own events alone**: two runs that do not stop, with
the same events of a key up to what the machines look at, have the same machine under it. -/
theorem get?_eq_of_map_eq {β : Type*} {content : α → β}
    (hstep : ∀ s a b s', content a = content b → step s a = .ok s' → step s b = .ok s')
    {as bs : List α} {n' : InsertionMap κ σ}
    (has : as.foldlM (stepAt key init step) InsertionMap.empty = .ok m')
    (hbs : bs.foldlM (stepAt key init step) InsertionMap.empty = .ok n') {k : κ}
    (h : (as.filter (key · = k)).map content = (bs.filter (key · = k)).map content) :
    m'.get? k = n'.get? k := by
  have hrun := foldlM_eq_ok_of_map_eq hstep h (foldlM_component has k)
  have hsame : component init n' k = component init m' k :=
    Except.ok.inj ((foldlM_component hbs k).symm.trans hrun)
  have hmem : ∀ cs : List α, k ∈ cs.map key ↔ (cs.filter (key · = k)).map content ≠ [] := by
    intro cs
    rw [Ne, List.map_eq_nil_iff, List.filter_eq_nil_iff, List.mem_map]
    push Not
    simp
  rw [get?_foldlM has, get?_foldlM hbs, hsame]
  exact if_congr ((hmem as).trans (h ▸ (hmem bs).symm)) rfl rfl

end Keyed

end CryptoZaloBot
