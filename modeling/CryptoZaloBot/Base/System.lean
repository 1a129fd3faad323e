import Mathlib.Data.List.Basic
import Mathlib.Data.List.Induction

/-!
# Transition systems with outputs

A program that lives by reacting – to a request, to a timer, to the answer of a
service it called – is a state, a set of events, and what each event makes of the
state. This file fixes that shape once, together with the rules every safety
argument of this development is an instance of.

`CryptoZaloBot.System` is deterministic in its event: whatever the environment
decides (which process moves, what a remote call answers, what time it is) is part
of the event, and `CryptoZaloBot.System.legal` says which events can happen in
which state. Quantifying over all runs then quantifies over every environment and
over every interleaving.

| rule | what it is for | theorem |
|---|---|---|
| invariant | what holds in every reachable state | `CryptoZaloBot.System.Run.invariant` |
| history | what ties a state to everything output so far | `CryptoZaloBot.System.Run.history` |
| events | what ties a state to the events that led to it | `CryptoZaloBot.System.Run.induction_concat` |
| pairwise | what an output promises about all later ones | `CryptoZaloBot.System.Run.outputs_pairwise` |
| crossing | a property that was lost was lost at some step | `CryptoZaloBot.System.Run.exists_crossing` |
| simulation | a run here is a run of a simpler system | `CryptoZaloBot.System.Run.simulated` |
-/

namespace CryptoZaloBot

/-- **A transition system with outputs**: which events can happen in a state, what
each makes of the state, and what it outputs. -/
structure System (σ ε ω : Type*) where
  /-- Whether the event can happen in the state. -/
  legal : σ → ε → Prop
  /-- The state after the event. -/
  next : σ → ε → σ
  /-- What the event outputs, in order. -/
  out : σ → ε → List ω

namespace System

variable {σ ε ω : Type*} (M : System σ ε ω)

/-- **A run**: every event is legal in the state the events before it lead to. -/
def Run : σ → List ε → Prop
  | _, [] => True
  | s, e :: es => M.legal s e ∧ Run (M.next s e) es

/-- The state a list of events leads to. -/
def final : σ → List ε → σ
  | s, [] => s
  | s, e :: es => final (M.next s e) es

/-- Everything a list of events outputs, in order. -/
def outputs : σ → List ε → List ω
  | _, [] => []
  | s, e :: es => M.out s e ++ outputs (M.next s e) es

@[simp] theorem run_nil (s : σ) : M.Run s [] := trivial

@[simp] theorem run_cons (s : σ) (e : ε) (es : List ε) :
    M.Run s (e :: es) ↔ M.legal s e ∧ M.Run (M.next s e) es := Iff.rfl

/-- A run can be checked event by event. -/
instance decidableRun [∀ s e, Decidable (M.legal s e)] : ∀ s es, Decidable (M.Run s es)
  | _, [] => .isTrue trivial
  | s, e :: es =>
    haveI := decidableRun (M.next s e) es
    inferInstanceAs (Decidable (M.legal s e ∧ M.Run (M.next s e) es))

@[simp] theorem final_nil (s : σ) : M.final s [] = s := rfl

@[simp] theorem final_cons (s : σ) (e : ε) (es : List ε) :
    M.final s (e :: es) = M.final (M.next s e) es := rfl

@[simp] theorem outputs_nil (s : σ) : M.outputs s [] = [] := rfl

@[simp] theorem outputs_cons (s : σ) (e : ε) (es : List ε) :
    M.outputs s (e :: es) = M.out s e ++ M.outputs (M.next s e) es := rfl

@[simp] theorem run_append (s : σ) (es fs : List ε) :
    M.Run s (es ++ fs) ↔ M.Run s es ∧ M.Run (M.final s es) fs := by
  induction es generalizing s with
  | nil => simp
  | cons e es ih => simp [ih, and_assoc]

@[simp] theorem final_append (s : σ) (es fs : List ε) :
    M.final s (es ++ fs) = M.final (M.final s es) fs := by
  induction es generalizing s with
  | nil => rfl
  | cons e es ih => simp [ih]

@[simp] theorem outputs_append (s : σ) (es fs : List ε) :
    M.outputs s (es ++ fs) = M.outputs s es ++ M.outputs (M.final s es) fs := by
  induction es generalizing s with
  | nil => rfl
  | cons e es ih => simp [ih, List.append_assoc]

/-- An output comes from some event. -/
theorem exists_of_mem_outputs {s : σ} {es : List ε} {o : ω} (h : o ∈ M.outputs s es) :
    ∃ pre e post, es = pre ++ e :: post ∧ o ∈ M.out (M.final s pre) e := by
  induction es generalizing s with
  | nil => cases h
  | cons e es ih =>
    rcases List.mem_append.mp h with hfirst | hrest
    · exact ⟨[], e, es, rfl, hfirst⟩
    · obtain ⟨pre, e', post, rfl, hout⟩ := ih hrest
      exact ⟨e :: pre, e', post, rfl, hout⟩

variable {M}

/-! ### Invariants -/

variable (M) in
/-- **A property every legal step keeps.** -/
def Keeps (I : σ → Prop) : Prop := ∀ s e, I s → M.legal s e → I (M.next s e)

/-- **The invariant rule**: what every step keeps holds wherever a run leads. -/
theorem Run.invariant {I : σ → Prop} (hI : M.Keeps I) {s : σ} {es : List ε} (hs : I s)
    (hr : M.Run s es) : I (M.final s es) := by
  induction es generalizing s with
  | nil => exact hs
  | cons e es ih => exact ih (hI s e hs hr.1) hr.2

/-- **The history rule**: an invariant that ties the state to everything output
so far. -/
theorem Run.history {J : σ → List ω → Prop}
    (hJ : ∀ s h e, J s h → M.legal s e → J (M.next s e) (h ++ M.out s e))
    {s : σ} {h : List ω} {es : List ε} (hs : J s h) (hr : M.Run s es) :
    J (M.final s es) (h ++ M.outputs s es) := by
  induction es generalizing s h with
  | nil => simpa using hs
  | cons e es ih => simpa [List.append_assoc] using ih (hJ s h e hs hr.1) hr.2

/-- **The events rule**: what holds of no events, and of one more event than it holds of,
holds of the events of any run. -/
theorem Run.induction_concat {P : List ε → Prop} {s : σ} (hnil : P [])
    (hstep : ∀ es e, M.Run s es → M.legal (M.final s es) e → P es → P (es ++ [e]))
    {es : List ε} (hr : M.Run s es) : P es := by
  induction es using List.reverseRecOn with
  | nil => exact hnil
  | append_singleton es e ih =>
    obtain ⟨hes, hleg, -⟩ := (M.run_append s es [e]).mp hr
    exact hstep es e hes hleg (ih hes)

theorem final_concat (s : σ) (es : List ε) (e : ε) :
    M.final s (es ++ [e]) = M.next (M.final s es) e :=
  M.final_append s es [e]

theorem outputs_concat (s : σ) (es : List ε) (e : ε) :
    M.outputs s (es ++ [e]) = M.outputs s es ++ M.out (M.final s es) e := by
  rw [outputs_append, outputs_cons, outputs_nil, List.append_nil]

variable (M) in
/-- **The runs whose every step meets a condition.** -/
def restrict (C : σ → ε → Prop) : System σ ε ω where
  legal s e := M.legal s e ∧ C s e
  next := M.next
  out := M.out

instance (C : σ → ε → Prop) (s : σ) (e : ε) [Decidable (M.legal s e)] [Decidable (C s e)] :
    Decidable ((M.restrict C).legal s e) :=
  inferInstanceAs (Decidable (_ ∧ _))

@[simp] theorem final_restrict (C : σ → ε → Prop) (s : σ) (es : List ε) :
    (M.restrict C).final s es = M.final s es := by
  induction es generalizing s with
  | nil => rfl
  | cons e es ih => exact ih (M.next s e)

@[simp] theorem outputs_restrict (C : σ → ε → Prop) (s : σ) (es : List ε) :
    (M.restrict C).outputs s es = M.outputs s es := by
  induction es generalizing s with
  | nil => rfl
  | cons e es ih => exact congrArg (M.out s e ++ ·) (ih (M.next s e))

theorem Run.of_restrict {C : σ → ε → Prop} {s : σ} {es : List ε} (hr : (M.restrict C).Run s es) :
    M.Run s es := by
  induction es generalizing s with
  | nil => trivial
  | cons e es ih => exact ⟨hr.1.1, ih hr.2⟩

theorem Keeps.restrict {I : σ → Prop} (hI : M.Keeps I) (C : σ → ε → Prop) :
    (M.restrict C).Keeps I :=
  fun s e hs hleg => hI s e hs hleg.1

/-- **A run of the restriction** is a run with the condition at each of its steps. -/
theorem run_restrict_iff {C : σ → ε → Prop} {s : σ} {es : List ε} :
    (M.restrict C).Run s es ↔
      M.Run s es ∧ ∀ pre e post, es = pre ++ e :: post → C (M.final s pre) e := by
  constructor
  · rintro hr
    refine ⟨hr.of_restrict, ?_⟩
    rintro pre e post rfl
    have hstep := ((M.restrict C).run_append s pre (e :: post)).mp hr
    rw [final_restrict] at hstep
    exact hstep.2.1.2
  · rintro ⟨hr, hC⟩
    induction es generalizing s with
    | nil => trivial
    | cons e es ih =>
      refine ⟨⟨hr.1, hC [] e es rfl⟩, ih hr.2 fun pre e' post heq => ?_⟩
      exact hC (e :: pre) e' post (by rw [heq, List.cons_append])

/-! ### Remembering the outputs -/

variable (M) in
/-- **The system that remembers what it output**, for conditions that speak of it. -/
def recorded : System (σ × List ω) ε ω where
  legal p e := M.legal p.1 e
  next p e := (M.next p.1 e, p.2 ++ M.out p.1 e)
  out p e := M.out p.1 e

instance (p : σ × List ω) (e : ε) [Decidable (M.legal p.1 e)] : Decidable (M.recorded.legal p e) :=
  inferInstanceAs (Decidable (M.legal p.1 e))

@[simp] theorem final_recorded (s : σ) (h : List ω) (es : List ε) :
    M.recorded.final (s, h) es = (M.final s es, h ++ M.outputs s es) := by
  induction es generalizing s h with
  | nil => simp
  | cons e es ih =>
    refine (ih (M.next s e) (h ++ M.out s e)).trans ?_
    simp [List.append_assoc]

@[simp] theorem run_recorded (s : σ) (h : List ω) (es : List ε) :
    M.recorded.Run (s, h) es ↔ M.Run s es := by
  induction es generalizing s h with
  | nil => rfl
  | cons e es ih => exact and_congr_right fun _ => ih (M.next s e) (h ++ M.out s e)

/-! ### What an output promises -/

section Promise

variable {I : σ → Prop} {A : ω → σ → Prop} {R : ω → ω → Prop}

/-- Once its mark is on the state, an output is in relation with everything the
rest of the run outputs. -/
theorem Run.forall_outputs (hI : M.Keeps I)
    (hkeep : ∀ o s e, I s → A o s → M.legal s e → A o (M.next s e))
    (hrel : ∀ o s e, I s → A o s → M.legal s e → ∀ o' ∈ M.out s e, R o o')
    {o : ω} {s : σ} {es : List ε} (hs : I s) (ho : A o s) (hr : M.Run s es) :
    ∀ o' ∈ M.outputs s es, R o o' := by
  induction es generalizing s with
  | nil => simp
  | cons e es ih =>
    intro o' ho'
    rcases List.mem_append.mp ho' with h | h
    · exact hrel o s e hs ho hr.1 o' h
    · exact ih (hI s e hs hr.1) (hkeep o s e hs ho hr.1) hr.2 o' h

/-- **The pairwise rule.** Each output leaves a mark `A` on the state; the mark
stays, and while it is there only outputs in relation `R` with it can follow. Then
any two outputs of a run, the earlier one first, are in relation `R`. -/
theorem Run.outputs_pairwise (hI : M.Keeps I)
    (hself : ∀ s e, I s → M.legal s e → (M.out s e).Pairwise R)
    (hmark : ∀ s e, I s → M.legal s e → ∀ o ∈ M.out s e, A o (M.next s e))
    (hkeep : ∀ o s e, I s → A o s → M.legal s e → A o (M.next s e))
    (hrel : ∀ o s e, I s → A o s → M.legal s e → ∀ o' ∈ M.out s e, R o o')
    {s : σ} {es : List ε} (hs : I s) (hr : M.Run s es) : (M.outputs s es).Pairwise R := by
  induction es generalizing s with
  | nil => simp
  | cons e es ih =>
    have hs' : I (M.next s e) := hI s e hs hr.1
    refine List.pairwise_append.mpr ⟨hself s e hs hr.1, ih hs' hr.2, fun o ho => ?_⟩
    exact Run.forall_outputs hI hkeep hrel hs' (hmark s e hs hr.1 o ho) hr.2

end Promise

/-! ### Crossings -/

/-- **The crossing rule**: a property that held and no longer does was lost at
some step of the run. -/
theorem Run.exists_crossing {P : σ → Prop} {s : σ} {es : List ε} (hr : M.Run s es)
    (hs : P s) (hf : ¬P (M.final s es)) :
    ∃ pre e post, es = pre ++ e :: post ∧ M.Run s pre ∧ M.legal (M.final s pre) e ∧
      P (M.final s pre) ∧ ¬P (M.next (M.final s pre) e) := by
  induction es generalizing s with
  | nil => exact absurd hs hf
  | cons e es ih =>
    by_cases hn : P (M.next s e)
    · obtain ⟨pre, e', post, rfl, hpre, hleg, hin, hout⟩ := ih hr.2 hn hf
      exact ⟨e :: pre, e', post, by simp, ⟨hr.1, hpre⟩, hleg, hin, hout⟩
    · exact ⟨[], e, es, rfl, trivial, hr.1, hs, hn⟩

/-! ### Simulation -/

/-- **The simulation rule**: if every step here is matched by a run of `N` that shows
the same visible outputs, then so is every run. -/
theorem Run.simulated {τ α ω' : Type*} {N : System τ α ω'} {Sim : σ → τ → Prop}
    {visible : ω → Option ω'}
    (hstep : ∀ s t e, Sim s t → M.legal s e → ∃ as, N.Run t as ∧ Sim (M.next s e) (N.final t as) ∧
      N.outputs t as = (M.out s e).filterMap visible)
    {s : σ} {t : τ} {es : List ε} (hst : Sim s t) (hr : M.Run s es) :
    ∃ as, N.Run t as ∧ Sim (M.final s es) (N.final t as) ∧
      N.outputs t as = (M.outputs s es).filterMap visible := by
  induction es generalizing s t with
  | nil => exact ⟨[], trivial, hst, rfl⟩
  | cons e es ih =>
    obtain ⟨as, has, hsim, hout⟩ := hstep s t e hst hr.1
    obtain ⟨bs, hbs, hfin, houts⟩ := ih hsim hr.2
    refine ⟨as ++ bs, by simpa using ⟨has, hbs⟩, by simpa using hfin, ?_⟩
    rw [outputs_append, outputs_cons, List.filterMap_append, hout, houts]

end System

end CryptoZaloBot
