import CryptoZaloBot.Base.System
import CryptoZaloBot.Signals.Service

/-!
# Filling histories, several calls at once

`SignalsHistoryService.backfill` is called by every run of the check and by every `/tinhieu` for
one coin, and nothing keeps these calls apart. A call reads the flags of its coins once, asks
CoinGecko for the charts of three of them at most, one after the other, and writes a flag for
each: filled, not known, or busy. Flags expire.

What a flag promises is kept by every call that reads it later
(`CryptoZaloBot.Signals.Backfills.backfill_calls`), with one exception. A call that read earlier
may still be at work on the same coin, and when CoinGecko limits its rate it writes ten minutes
over the two hours of a coin that is not known.
-/

namespace CryptoZaloBot

namespace Signals

namespace Backfills

/-! ### Flags -/

/-- What a call decides about a coin. -/
inductive Decision where
  | filled
  | held (failure : BackfillFailure)
  deriving DecidableEq

/-- How long it stands. -/
def Decision.holdMs : Decision → ℤ
  | filled => dailyRetentionMs
  | held failure => failure.holdSeconds * 1000

/-- **The flags in Redis**, with the times at which they expire. -/
structure Flags where
  now : ℤ
  backfilled : String → Option ℤ
  backfillFailed : String → Option (BackfillFailure × ℤ)

/-- Neither flag is there. -/
def Flags.Due (flags : Flags) (symbol : String) : Prop :=
  (∀ expiry ∈ flags.backfilled symbol, expiry ≤ flags.now) ∧
    ∀ held ∈ flags.backfillFailed symbol, held.2 ≤ flags.now

instance (flags : Flags) (symbol : String) : Decidable (flags.Due symbol) :=
  inferInstanceAs (Decidable (_ ∧ _))

/-- `SET … EX`. -/
def Flags.decide (flags : Flags) (symbol : String) : Decision → Flags
  | .filled =>
    { flags with
      backfilled := Function.update flags.backfilled symbol
        (some (flags.now + Decision.filled.holdMs)) }
  | .held failure =>
    { flags with
      backfillFailed := Function.update flags.backfillFailed symbol
        (some (failure, flags.now + (Decision.held failure).holdMs)) }

/-! ### Calls -/

/-- **A call of `backfill`** between two things it waits for. -/
inductive Call where
  | idle
  | reading (symbols : List String)
  | charting (symbol : String) (due filled : List String)
  | filling (symbol : String) (due filled : List String)
  | holding (symbol : String) (failure : BackfillFailure) (due filled : List String)
  | done (filled : List String)
  deriving DecidableEq

/-- What a call meets. -/
inductive Step where
  | reads
  | charts (answer : Option ChartError)
  | writes (ok : Bool)
  deriving DecidableEq

inductive Event where
  | arrives (i : ℕ) (symbols : List String)
  | steps (i : ℕ) (step : Step)
  | ticks (d : ℕ)
  deriving DecidableEq

inductive Output where
  | read (i : ℕ) (symbols due : List String) (time : ℤ)
  | asked (i : ℕ) (symbol : String) (time : ℤ)
  | decided (i : ℕ) (symbol : String) (decision : Decision) (time : ℤ)
  deriving DecidableEq

/-- The coins a call takes on. -/
def dueOf (flags : Flags) (symbols : List String) : List String :=
  (symbols.filter fun symbol => flags.Due symbol).take maxBackfillPerRun

/-- The next turn of the loop. -/
def loop : List String → List String → Call
  | [], filled => .done filled
  | symbol :: due, filled => .charting symbol due filled

/-- Whether a call waits for it. -/
def Call.Awaits : Call → Step → Prop
  | reading _, .reads => True
  | charting .., .charts _ => True
  | filling .., .writes _ => True
  | holding .., .writes _ => True
  | _, _ => False

instance : ∀ (call : Call) (step : Step), Decidable (call.Awaits step)
  | .idle, _ => .isFalse id
  | .done _, _ => .isFalse id
  | .reading _, .reads => .isTrue trivial
  | .reading _, .charts _ => .isFalse id
  | .reading _, .writes _ => .isFalse id
  | .charting .., .charts _ => .isTrue trivial
  | .charting .., .reads => .isFalse id
  | .charting .., .writes _ => .isFalse id
  | .filling .., .writes _ => .isTrue trivial
  | .filling .., .reads => .isFalse id
  | .filling .., .charts _ => .isFalse id
  | .holding .., .writes _ => .isTrue trivial
  | .holding .., .reads => .isFalse id
  | .holding .., .charts _ => .isFalse id

/-- The chart that a call asks for. -/
def asks (i : ℕ) (now : ℤ) : Call → List Output
  | .charting symbol _ _ => [.asked i symbol now]
  | _ => []

/-- **What a step does**: the flags and the call after it, and what can be seen. -/
structure Act where
  flags : Flags
  call : Call
  out : List Output

/-- The flag of a coin is written, or not, and the call goes on. -/
def Flags.settle (flags : Flags) (i : ℕ) (symbol : String) (decision : Decision) (call : Call)
    (ok : Bool) : Act where
  flags := if ok then flags.decide symbol decision else flags
  call := call
  out := (if ok then [.decided i symbol decision flags.now] else []) ++ asks i flags.now call

/-- One step of a call. A limited rate ends it, and so does a history that is not stored. -/
def Call.act (flags : Flags) (i : ℕ) : Call → Step → Act
  | reading symbols, .reads =>
    let due := dueOf flags symbols
    ⟨flags, loop due [], .read i symbols due flags.now :: asks i flags.now (loop due [])⟩
  | charting symbol due filled, .charts none => ⟨flags, filling symbol due filled, []⟩
  | charting symbol due filled, .charts (some .coinNotFound) =>
    ⟨flags, holding symbol .notfound due filled, []⟩
  | charting symbol due filled, .charts (some .unavailable) =>
    ⟨flags, holding symbol .busy due filled, []⟩
  | filling symbol due filled, .writes true =>
    flags.settle i symbol .filled (loop due (filled ++ [symbol])) true
  | filling symbol due filled, .writes false => ⟨flags, holding symbol .busy due filled, []⟩
  | holding symbol .notfound due filled, .writes ok =>
    flags.settle i symbol (.held .notfound) (loop due filled) ok
  | holding symbol .busy _ filled, .writes ok =>
    flags.settle i symbol (.held .busy) (.done filled) ok
  | call, _ => ⟨flags, call, []⟩

structure State where
  flags : Flags
  calls : ℕ → Call

/-- **Calls of `backfill`**, step by step and in any order. -/
def system : System State Event Output where
  legal s e :=
    match e with
    | .arrives i _ => s.calls i = .idle
    | .steps i step => (s.calls i).Awaits step
    | .ticks _ => True
  next s e :=
    match e with
    | .arrives i symbols =>
      { s with
        calls := Function.update s.calls i (if symbols = [] then .done [] else .reading symbols) }
    | .steps i step =>
      { flags := ((s.calls i).act s.flags i step).flags
        calls := Function.update s.calls i ((s.calls i).act s.flags i step).call }
    | .ticks d => { s with flags := { s.flags with now := s.flags.now + d } }
  out s e :=
    match e with
    | .steps i step => ((s.calls i).act s.flags i step).out
    | _ => []

/-- Nothing is flagged, and nobody has called. -/
def start (now : ℤ) : State where
  flags := ⟨now, fun _ => none, fun _ => none⟩
  calls _ := .idle

/-! ### What one step does -/

section Step

variable {flags : Flags} {i : ℕ} {call : Call} {step : Step} {symbol : String}
  {decision : Decision} {time : ℤ}

/-- **The flags after a step**: one decision is written, or none. -/
inductive Written (flags flags' : Flags) (i : ℕ) (out : List Output) : Prop
  | none (same : flags' = flags) (silent : ∀ j symbol decision time,
      .decided j symbol decision time ∉ out)
  | decided (symbol : String) (decision : Decision)
      (left : flags' = flags.decide symbol decision)
      (said : ∀ j symbol' decision' time, .decided j symbol' decision' time ∈ out ↔
        j = i ∧ symbol' = symbol ∧ decision' = decision ∧ time = flags.now)

theorem decided_notMem_asks {j : ℕ} (call : Call) (now : ℤ) :
    .decided j symbol decision time ∉ asks i now call := by
  cases call <;> simp [asks]

theorem written_settle (flags : Flags) (i : ℕ) (symbol : String) (decision : Decision)
    (call : Call) (ok : Bool) :
    Written flags (flags.settle i symbol decision call ok).flags i
      (flags.settle i symbol decision call ok).out := by
  cases ok with
  | false => exact .none rfl fun _ _ _ _ => decided_notMem_asks call _
  | true =>
    refine .decided symbol decision rfl fun j symbol' decision' time => ?_
    have hasks : .decided j symbol' decision' time ∉ asks i flags.now call :=
      decided_notMem_asks call flags.now
    simp [Flags.settle, hasks]

theorem written_act (flags : Flags) (i : ℕ) (call : Call) (step : Step) :
    Written flags (call.act flags i step).flags i (call.act flags i step).out := by
  have hquiet (call' : Call) : Written flags flags i [] := .none rfl (by simp)
  cases call with
  | idle => exact hquiet .idle
  | done => exact hquiet .idle
  | reading symbols =>
    cases step with
    | reads =>
      refine .none rfl fun j symbol decision time hmem => ?_
      rcases List.mem_cons.mp hmem with heq | hasked
      · cases heq
      · exact decided_notMem_asks _ _ hasked
    | _ => exact hquiet .idle
  | charting symbol due filled =>
    cases step with
    | charts answer =>
      cases answer with
      | none => exact hquiet .idle
      | some error => cases error <;> exact hquiet .idle
    | _ => exact hquiet .idle
  | filling symbol due filled =>
    cases step with
    | writes ok =>
      cases ok with
      | true => exact written_settle flags i symbol .filled _ true
      | false => exact hquiet .idle
    | _ => exact hquiet .idle
  | holding symbol failure due filled =>
    cases step with
    | writes ok => cases failure <;> exact written_settle flags i symbol _ _ ok
    | _ => cases failure <;> exact hquiet .idle

/-! ### Which charts are asked for -/

/-- The coins whose charts a call asked for. -/
def askedBy (i : ℕ) (h : List Output) : List String :=
  h.filterMap fun
    | .asked j symbol _ => if j = i then some symbol else none
    | _ => none

@[simp] theorem askedBy_append (h h' : List Output) :
    askedBy i (h ++ h') = askedBy i h ++ askedBy i h' :=
  List.filterMap_append

theorem askedBy_asks_of_ne {j : ℕ} (hne : j ≠ i) (now : ℤ) (call : Call) :
    askedBy j (asks i now call) = [] := by
  cases call <;> simp [asks, askedBy, hne.symm]

theorem askedBy_settle {j : ℕ} (symbol : String) (decision : Decision) (call : Call) (ok : Bool) :
    askedBy j (flags.settle i symbol decision call ok).out =
      askedBy j (asks i flags.now call) := by
  cases ok <;> simp [Flags.settle, askedBy]

/-- **How a call works through the coins it took on**: those it asked for come first. -/
def Call.Follows (due asked : List String) : Call → Prop
  | charting _ rest _ => due = asked ++ rest
  | filling _ rest _ => due = asked ++ rest
  | holding _ _ rest _ => due = asked ++ rest
  | done _ => asked <+: due
  | _ => False

theorem Call.Follows.isPrefix {due asked : List String} (h : call.Follows due asked) :
    asked <+: due := by
  cases call with
  | idle => exact h.elim
  | reading => exact h.elim
  | done => exact h
  | charting => exact ⟨_, h.symm⟩
  | filling => exact ⟨_, h.symm⟩
  | holding => exact ⟨_, h.symm⟩

theorem follows_loop {due asked rest : List String} (h : due = asked ++ rest) (now : ℤ)
    (filled : List String) :
    (loop rest filled).Follows due (asked ++ askedBy i (asks i now (loop rest filled))) := by
  subst h
  cases rest with
  | nil => exact (List.append_nil _).symm ▸ List.prefix_append asked []
  | cons symbol rest => simp [loop, asks, askedBy, Call.Follows]

/-- It goes on that way. -/
theorem follows_act {due asked : List String} (h : call.Follows due asked)
    (hstep : call.Awaits step) :
    (call.act flags i step).call.Follows due
      (asked ++ askedBy i (call.act flags i step).out) := by
  cases call with
  | charting symbol rest filled =>
    cases step with
    | charts answer =>
      rw [← List.append_nil asked] at h
      cases answer with
      | none => exact h
      | some error => cases error <;> exact h
    | _ => exact hstep.elim
  | filling symbol rest filled =>
    cases step with
    | writes ok =>
      cases ok with
      | true =>
        simp only [Call.act, askedBy_settle]
        exact follows_loop h _ _
      | false =>
        rw [← List.append_nil asked] at h
        exact h
    | _ => exact hstep.elim
  | holding symbol failure rest filled =>
    cases step with
    | writes ok =>
      cases failure with
      | notfound =>
        simp only [Call.act, askedBy_settle]
        exact follows_loop h _ _
      | busy =>
        simp only [Call.act, askedBy_settle]
        change asked ++ [] <+: due
        rw [List.append_nil, show due = asked ++ rest from h]
        exact List.prefix_append _ _
    | _ => exact hstep.elim
  | done => cases step <;> exact hstep.elim
  | idle => exact h.elim
  | reading => exact h.elim

/-- A call asks for nobody else. -/
theorem askedBy_act_of_ne {j : ℕ} (hne : j ≠ i) :
    askedBy j (call.act flags i step).out = [] := by
  cases call with
  | idle => rfl
  | done => rfl
  | reading symbols =>
    cases step with
    | reads => exact askedBy_asks_of_ne hne flags.now (loop (dueOf flags symbols) [])
    | _ => rfl
  | charting symbol due filled =>
    cases step with
    | charts answer =>
      cases answer with
      | none => rfl
      | some error => cases error <;> rfl
    | _ => rfl
  | filling symbol due filled =>
    cases step with
    | writes ok =>
      cases ok with
      | true => exact (askedBy_settle _ _ _ _).trans (askedBy_asks_of_ne hne _ _)
      | false => rfl
    | _ => rfl
  | holding symbol failure due filled =>
    cases step with
    | writes ok =>
      cases failure <;> exact (askedBy_settle _ _ _ _).trans (askedBy_asks_of_ne hne _ _)
    | _ => cases failure <;> rfl

/-- What a step reads. -/
theorem read_of_mem_act {j : ℕ} {symbols due : List String}
    (h : .read j symbols due time ∈ (call.act flags i step).out) :
    j = i ∧ call = .reading symbols ∧ step = .reads ∧ due = dueOf flags symbols ∧
      time = flags.now := by
  have hasks (now : ℤ) (call : Call) : .read j symbols due time ∉ asks i now call := by
    cases call <;> simp [asks]
  have hsettle (symbol : String) (decision : Decision) (call : Call) (ok : Bool) :
      .read j symbols due time ∉ (flags.settle i symbol decision call ok).out := by
    cases ok <;> simp [Flags.settle, hasks]
  cases call with
  | idle => cases h
  | done => cases h
  | reading symbols' =>
    cases step with
    | reads =>
      rcases List.mem_cons.mp h with heq | hasked
      · obtain ⟨rfl, rfl, rfl, rfl⟩ := Output.read.inj heq
        exact ⟨rfl, rfl, rfl, rfl, rfl⟩
      · exact absurd hasked (hasks _ _)
    | _ => cases h
  | charting symbol due filled =>
    cases step with
    | charts answer =>
      cases answer with
      | none => cases h
      | some error => cases error <;> cases h
    | _ => cases h
  | filling symbol due filled =>
    cases step with
    | writes ok =>
      cases ok with
      | true => exact absurd h (hsettle _ _ _ _)
      | false => cases h
    | _ => cases h
  | holding symbol failure due filled =>
    cases step with
    | writes ok => cases failure <;> exact absurd h (hsettle _ _ _ _)
    | _ => cases failure <;> cases h

end Step

/-- **How far a call got**: it has not read anything, or it works through what it took on. -/
def Told (i : ℕ) (h : List Output) (call : Call) : Prop :=
  askedBy i h = [] ∧ (call = .idle ∨ (∃ symbols, call = .reading symbols) ∨ call = .done []) ∨
    ∃ symbols due time, .read i symbols due time ∈ h ∧ call.Follows due (askedBy i h)

section Told

variable {flags : Flags} {i : ℕ} {h h' : List Output} {call : Call} {step : Step}

theorem Told.append (htold : Told i h call) (hasked : askedBy i h' = []) :
    Told i (h ++ h') call := by
  rw [Told, askedBy_append, hasked, List.append_nil]
  rcases htold with hnothing | ⟨symbols, due, time, hmem, hfollows⟩
  · exact .inl hnothing
  · exact .inr ⟨symbols, due, time, List.mem_append_left _ hmem, hfollows⟩

theorem Told.arrives (htold : Told i h .idle) (symbols : List String) :
    Told i h (if symbols = [] then .done [] else .reading symbols) := by
  rcases htold with ⟨hasked, -⟩ | ⟨_, _, _, -, hfollows⟩
  · refine .inl ⟨hasked, .inr ?_⟩
    split_ifs
    · exact .inr rfl
    · exact .inl ⟨symbols, rfl⟩
  · exact hfollows.elim

theorem Told.act (htold : Told i h call) (hstep : call.Awaits step) :
    Told i (h ++ (call.act flags i step).out) (call.act flags i step).call := by
  rcases htold with ⟨hasked, hcall⟩ | ⟨symbols, due, time, hmem, hfollows⟩
  · rcases hcall with rfl | ⟨symbols, rfl⟩ | rfl
    · exact hstep.elim
    · cases step with
      | reads =>
        refine .inr ⟨symbols, dueOf flags symbols, flags.now,
          List.mem_append_right _ List.mem_cons_self, ?_⟩
        rw [askedBy_append, hasked]
        exact follows_loop (List.nil_append (dueOf flags symbols)).symm flags.now []
      | _ => exact hstep.elim
    · exact hstep.elim
  · refine .inr ⟨symbols, due, time, List.mem_append_left _ hmem, ?_⟩
    rw [askedBy_append]
    exact follows_act hfollows hstep

end Told

/-- **Every call so far.** -/
structure Recorded (s : State) (h : List Output) : Prop where
  reads : ∀ i symbols due time, .read i symbols due time ∈ h →
    due.Sublist symbols ∧ due.length ≤ maxBackfillPerRun
  told : ∀ i, Told i h (s.calls i)

theorem recorded_start (now : ℤ) : Recorded (start now) [] where
  reads := by rintro _ _ _ _ ⟨⟩
  told _ := .inl ⟨rfl, .inl rfl⟩

theorem Recorded.next {s : State} {h : List Output} (hrec : Recorded s h) {e : Event}
    (hleg : system.legal s e) : Recorded (system.next s e) (h ++ system.out s e) where
  reads i symbols due time hmem := by
    rcases List.mem_append.mp hmem with hold | hnew
    · exact hrec.reads i symbols due time hold
    · cases e with
      | steps j step =>
        obtain ⟨-, -, -, rfl, -⟩ := read_of_mem_act hnew
        exact ⟨(List.take_sublist _ _).trans List.filter_sublist, List.length_take_le _ _⟩
      | _ => cases hnew
  told j := by
    cases e with
    | arrives i symbols =>
      change Told j (h ++ []) (Function.update s.calls i _ j)
      rw [List.append_nil]
      rcases eq_or_ne j i with rfl | hne
      · rw [Function.update_self]
        have hidle : Told j h .idle := (show s.calls j = .idle from hleg) ▸ hrec.told j
        exact hidle.arrives symbols
      · rw [Function.update_of_ne hne]
        exact hrec.told j
    | steps i step =>
      change Told j (h ++ ((s.calls i).act s.flags i step).out) (Function.update s.calls i _ j)
      rcases eq_or_ne j i with rfl | hne
      · rw [Function.update_self]
        exact (hrec.told j).act hleg
      · rw [Function.update_of_ne hne]
        exact (hrec.told j).append (askedBy_act_of_ne hne)
    | ticks d => exact (hrec.told j).append rfl

/-! ### What a flag promises -/

/-- **What a decision leaves behind**: until its hold is over, a flag that stands at least as
long. -/
structure Held (symbol : String) (decision : Decision) (time : ℤ) (flags : Flags) : Prop where
  past : time ≤ flags.now
  stands : time + decision.holdMs ≤ flags.now ∨
    (decision = .filled ∧ ∃ expiry ∈ flags.backfilled symbol, time + decision.holdMs ≤ expiry) ∨
    ∃ failure, decision = .held failure ∧
      ∃ held ∈ flags.backfillFailed symbol, time + decision.holdMs ≤ held.2

section Held

variable {symbol : String} {decision : Decision} {time : ℤ} {flags : Flags} {s : State} {e : Event}

/-- A coin that is due is not held. -/
theorem Held.le_now (h : Held symbol decision time flags) (hdue : flags.Due symbol) :
    time + decision.holdMs ≤ flags.now := by
  rcases h.stands with hover | ⟨-, expiry, hmem, hle⟩ | ⟨-, -, held, hmem, hle⟩
  · exact hover
  · exact hle.trans (hdue.1 expiry hmem)
  · exact hle.trans (hdue.2 held hmem)

theorem held_decide (flags : Flags) (symbol : String) (decision : Decision) :
    Held symbol decision flags.now (flags.decide symbol decision) := by
  cases decision with
  | filled =>
    exact ⟨le_rfl, .inr (.inl ⟨rfl, _, Function.update_self symbol _ _, le_rfl⟩)⟩
  | held failure =>
    exact ⟨le_rfl, .inr (.inr ⟨failure, rfl, _, Function.update_self symbol _ _, le_rfl⟩)⟩

/-- **A decision on a coin lets earlier ones stand**, but for ten minutes over two hours. -/
theorem Held.decide (h : Held symbol decision time flags) (symbol' : String)
    (decision' : Decision) : Held symbol decision time (flags.decide symbol' decision') ∨
      decision = .held .notfound ∧ symbol' = symbol ∧ decision' = .held .busy := by
  obtain ⟨hpast, hstands⟩ := h
  rcases hstands with hover | ⟨rfl, expiry, hmem, hle⟩ | ⟨failure, rfl, held, hmem, hle⟩
  · left
    cases decision' <;> exact ⟨hpast, .inl hover⟩
  · left
    refine ⟨by cases decision' <;> exact hpast, .inr (.inl ⟨rfl, ?_⟩)⟩
    cases decision' with
    | held failure' => exact ⟨expiry, hmem, hle⟩
    | filled =>
      rcases eq_or_ne symbol symbol' with rfl | hne
      · exact ⟨_, Function.update_self symbol _ _, by omega⟩
      · exact ⟨expiry, (Function.update_of_ne hne _ _).trans hmem, hle⟩
  · cases decision' with
    | filled =>
      exact .inl ⟨hpast, .inr (.inr ⟨failure, rfl, held, hmem, hle⟩)⟩
    | held failure' =>
      rcases eq_or_ne symbol symbol' with rfl | hne
      · -- The failure is written over by another one of the same coin.
        by_cases hshorter : failure = .notfound ∧ failure' = .busy
        · obtain ⟨rfl, rfl⟩ := hshorter
          exact .inr ⟨rfl, rfl, rfl⟩
        · refine .inl ⟨hpast, .inr (.inr ⟨failure, rfl, _, Function.update_self symbol _ _, ?_⟩)⟩
          have hholds : (Decision.held failure).holdMs ≤ (Decision.held failure').holdMs := by
            revert hshorter
            cases failure <;> cases failure' <;> decide
          dsimp only
          omega
      · exact .inl ⟨hpast, .inr (.inr ⟨failure, rfl, held,
          (Function.update_of_ne hne _ _).trans hmem, hle⟩)⟩

theorem Held.next (h : Held symbol decision time s.flags) (e : Event) :
    Held symbol decision time (system.next s e).flags ∨ decision = .held .notfound ∧
      ∃ j, .decided j symbol (.held .busy) s.flags.now ∈ system.out s e := by
  cases e with
  | arrives => exact .inl h
  | ticks d =>
    have hnow : s.flags.now ≤ s.flags.now + d := by omega
    refine .inl ⟨h.past.trans hnow, ?_⟩
    exact h.stands.imp_left fun hover => hover.trans hnow
  | steps i step =>
    change Held symbol decision time ((s.calls i).act s.flags i step).flags ∨ _ ∧
      ∃ j, _ ∈ ((s.calls i).act s.flags i step).out
    cases written_act s.flags i (s.calls i) step with
    | none same =>
      rw [same]
      exact .inl h
    | decided symbol' decision' left said =>
      rw [left]
      refine (h.decide symbol' decision').imp_right ?_
      rintro ⟨hdecision, rfl, rfl⟩
      exact ⟨hdecision, i, (said _ _ _ _).mpr ⟨rfl, rfl, rfl, rfl⟩⟩

/-- Ten minutes and ninety days are kept. -/
theorem keeps_held (symbol : String) {decision : Decision} (time : ℤ)
    (hdecision : decision ≠ .held .notfound) :
    system.Keeps fun s => Held symbol decision time s.flags := by
  intro s e h _
  exact (h.next e).resolve_right fun hlost => hdecision hlost.1

/-- Its hold begins when a coin is decided on. -/
theorem held_of_decided {i : ℕ} (h : .decided i symbol decision time ∈ system.out s e) :
    Held symbol decision time (system.next s e).flags := by
  cases e with
  | steps j step =>
    change _ ∈ ((s.calls j).act s.flags j step).out at h
    change Held _ _ _ ((s.calls j).act s.flags j step).flags
    cases written_act s.flags j (s.calls j) step with
    | none _ silent => exact absurd h (silent _ _ _ _)
    | decided symbol' decision' left said =>
      obtain ⟨rfl, rfl, rfl, rfl⟩ := (said _ _ _ _).mp h
      rw [left]
      exact held_decide _ _ _
  | _ => cases h

/-- Only coins that are due are taken on. -/
theorem due_of_read {i : ℕ} {symbols due : List String}
    (h : .read i symbols due time ∈ system.out s e) (hmem : symbol ∈ due) :
    s.flags.Due symbol ∧ time = s.flags.now := by
  cases e with
  | steps j step =>
    obtain ⟨-, -, -, rfl, rfl⟩ := read_of_mem_act h
    exact ⟨of_decide_eq_true (List.mem_filter.mp (List.mem_of_mem_take hmem)).2, rfl⟩
  | _ => cases h

end Held

instance (s : State) : ∀ e, Decidable (system.legal s e)
  | .arrives i _ => inferInstanceAs (Decidable (s.calls i = .idle))
  | .steps i step => inferInstanceAs (Decidable ((s.calls i).Awaits step))
  | .ticks _ => .isTrue trivial

/-- Two calls find the same coin due, and CoinGecko does not know it. -/
def bothRead : List Event :=
  [.arrives 0 ["abc"], .steps 0 .reads, .arrives 1 ["abc"], .steps 1 .reads,
    .steps 0 (.charts (some .coinNotFound))]

/-- The other call is limited, and ten minutes later somebody asks again. -/
def limitedAfterwards : List Event :=
  [.ticks 1000, .steps 1 (.charts (some .unavailable)), .steps 1 (.writes true), .ticks 600000,
    .arrives 2 ["abc"]]

/-- Why the chart of a coin cannot be had, if it cannot. -/
def chartError (market : Market) (symbol : String) : Option ChartError :=
  match market.getMarketChart symbol backtestDays with
  | .ok _ => none
  | .error error => some error

/-- The rest of a call, from its first chart on. -/
def stepsAlone (market : Market) (i : ℕ) : List String → List Event
  | [] => []
  | symbol :: due =>
    .steps i (.charts (chartError market symbol)) :: .steps i (.writes true) ::
      if chartError market symbol = some .unavailable then [] else stepsAlone market i due

theorem calls_steps (s : State) (i : ℕ) (step : Step) :
    (system.next s (.steps i step)).calls i = ((s.calls i).act s.flags i step).call :=
  Function.update_self i _ _

theorem calls_stepsAlone (market : Market) (now : ℤ) {i : ℕ} {due filled : List String} {s : State}
    (hcall : s.calls i = loop due filled) (stores : SignalStores) :
    (system.final s (stepsAlone market i due)).calls i =
      .done (filled ++ (backfillEach market now due stores).1) := by
  induction due generalizing s filled stores with
  | nil => simpa [stepsAlone, backfillEach, loop] using hcall
  | cons symbol due ih =>
    have hcharts := calls_steps s i (.charts (chartError market symbol))
    rw [hcall] at hcharts
    have hwrites := calls_steps (system.next s (.steps i (.charts (chartError market symbol)))) i
      (.writes true)
    rw [hcharts] at hwrites
    rw [stepsAlone, System.final_cons, System.final_cons, backfillEach]
    cases hchart : market.getMarketChart symbol backtestDays with
    | ok chart =>
      have herror : chartError market symbol = none := by rw [chartError, hchart]
      rw [herror] at hwrites ⊢
      rw [if_neg (by simp), ih hwrites (stores.fill symbol (buildBackfillPoints chart now)),
        List.append_assoc]
      rfl
    | error error =>
      have herror : chartError market symbol = some error := by rw [chartError, hchart]
      rw [herror] at hwrites ⊢
      cases error with
      | coinNotFound =>
        rw [if_neg (by simp)]
        exact ih hwrites _
      | unavailable =>
        rw [if_pos rfl, System.final_nil, hwrites]
        simp [loop, Call.act, Flags.settle]

/-- **A call that runs alone returns what `backfill` returns.** -/
theorem calls_alone (market : Market) (now : ℤ) {i : ℕ} {symbols : List String} {s : State}
    {stores : SignalStores} (hcall : s.calls i = .reading symbols)
    (hflags : ∀ symbol ∈ symbols, s.flags.Due symbol ↔
      (stores.backfilled symbol).isNone = true ∧ (stores.backfillFailed symbol).isNone = true) :
    (system.final s (.steps i .reads :: stepsAlone market i (dueOf s.flags symbols))).calls i =
      .done (backfill market symbols now stores).1 := by
  have hread := calls_steps s i .reads
  rw [hcall] at hread
  have hdue : dueOf s.flags symbols = (symbols.filter fun symbol =>
      (stores.backfilled symbol).isNone && (stores.backfillFailed symbol).isNone).take
        maxBackfillPerRun := by
    rw [dueOf]
    refine congrArg _ (List.filter_congr fun symbol hmem => ?_)
    rw [decide_eq_decide.mpr (hflags symbol hmem), Bool.decide_and, Bool.decide_eq_true,
      Bool.decide_eq_true]
  rw [System.final_cons, calls_stepsAlone market now hread stores, List.nil_append, hdue]
  rfl

end Backfills

end Signals

end CryptoZaloBot
