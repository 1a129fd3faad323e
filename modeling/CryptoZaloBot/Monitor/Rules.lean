import Mathlib.Algebra.Order.Ring.Int
import CryptoZaloBot.PriceAlerts.Check

/-!
# The monitoring rules

`price-alert-monitor.ts`: a watcher looks at the log of the check runs every few
minutes and decides what to tell the owner. No healthy run for 15 minutes is an
**outage**, told once (`down`), then every six hours (`reminder`), and once more when a
healthy run is seen again (`recovered`). The checks in turn watch the watcher's
heartbeat, by rules of the same shape.

A decision carries the state to store for either outcome of the send, as an outage only
counts as notified once a message was delivered. Each evaluator is read backwards by one
lemma, `CryptoZaloBot.Monitor.evaluateMonitor_step` and
`CryptoZaloBot.Monitor.evaluateWatchdog_step`: which of its branches can have made the
decision, and on what grounds.
-/

namespace CryptoZaloBot

namespace Monitor

open PriceAlerts (minutes RunOutcome)

/-! ### Constants -/

/-- No healthy run for this long is an outage the owner is told about. -/
def outageThresholdMs : ℤ := minutes 15

/-- While an outage lasts, the owner gets at most one message per this window. -/
def outageReminderMs : ℤ := minutes 360

/-- The check tells the owner when the watcher has been silent this long. -/
def watcherSilenceMs : ℤ := minutes 30

/-! ### Data -/

/-- One entry of the run log, as far as the rules read it. -/
structure LoggedRun where
  /-- `none` if the text is no date. -/
  startedAt : Option ℤ
  /-- Runs logged by earlier versions have no outcome. -/
  outcome : Option RunOutcome
  deriving DecidableEq

/-- What was seen during an outage: counts per kind, zero where the kind is absent. -/
structure OutageSignal where
  rejected : ℕ := 0
  noPrice : ℕ := 0
  failed : ℕ := 0
  skipped : ℕ := 0
  deriving DecidableEq

/-- An outage the watcher has noticed. -/
structure OutageState where
  /-- Start of the silence: the last healthy run, or the watcher's start. -/
  since : ℤ
  /-- When the owner was last told; `none` until a message is delivered. -/
  notifiedAt : Option ℤ
  deriving DecidableEq

/-- The watcher's own state. -/
structure MonitorState where
  watcherStartedAt : ℤ
  /-- The heartbeat the check itself watches. -/
  lastWatcherRunAt : ℤ
  /-- Newest healthy run seen so far. -/
  lastHealthyAt : Option ℤ
  outage : Option OutageState
  ownerChatConfigured : Option Bool := none
  deriving DecidableEq

/-- The check's view of the watcher. -/
structure WatchdogState where
  outage : Option OutageState
  deriving DecidableEq

structure OutageReport where
  lastHealthyAt : Option ℤ
  since : ℤ
  downForMs : ℤ
  signal : OutageSignal
  deriving DecidableEq

/-- A message the monitor sends the owner. -/
inductive MonitorAction where
  | down (report : OutageReport)
  | reminder (report : OutageReport)
  | recovered (since recoveredAt downForMs : ℤ)
  | watcherDown (lastWatcherRunAt silentForMs : ℤ)
  | watcherRecovered (since recoveredAt silentForMs : ℤ)
  deriving DecidableEq

inductive MonitorActionKind where
  | down
  | reminder
  | recovered
  | watcherDown
  | watcherRecovered
  deriving DecidableEq

namespace MonitorAction

def kind : MonitorAction → MonitorActionKind
  | .down _ => .down
  | .reminder _ => .reminder
  | .recovered .. => .recovered
  | .watcherDown .. => .watcherDown
  | .watcherRecovered .. => .watcherRecovered

/-- The outage a message is about: the start of the silence. -/
def since : MonitorAction → ℤ
  | .down report => report.since
  | .reminder report => report.since
  | .recovered since .. => since
  | .watcherDown lastWatcherRunAt _ => lastWatcherRunAt
  | .watcherRecovered since .. => since

end MonitorAction

/-- **Result of one evaluation**: the message that is due, and the state to store if it is
delivered and if it is not. -/
structure MonitorDecision (σ : Type) where
  action : Option MonitorAction
  onSent : σ
  onNotSent : σ
  deriving DecidableEq

namespace MonitorDecision

variable {σ : Type}

/-- Nothing to send. -/
def none (next : σ) : MonitorDecision σ := ⟨Option.none, next, next⟩

/-- The state to store. -/
def after (decision : MonitorDecision σ) (sent : Bool) : σ :=
  if sent then decision.onSent else decision.onNotSent

@[simp] theorem after_true (decision : MonitorDecision σ) : decision.after true = decision.onSent :=
  rfl

@[simp] theorem after_false (decision : MonitorDecision σ) :
    decision.after false = decision.onNotSent := rfl

@[simp] theorem after_none (next : σ) (sent : Bool) : (none next).after sent = next := by
  cases sent <;> rfl

@[simp] theorem action_none (next : σ) : (none next).action = Option.none := rfl

end MonitorDecision

/-! ### The run log -/

def isHealthyRun (run : LoggedRun) : Prop := run.outcome.getD .healthy = .healthy

instance (run : LoggedRun) : Decidable (isHealthyRun run) :=
  inferInstanceAs (Decidable (_ = _))

/-- **Newest healthy run start**, in any order of the runs. -/
def latestHealthyAt (runs : List LoggedRun) : Option ℤ :=
  runs.foldl (fun latest run =>
    match run.startedAt with
    | none => latest
    | some t => if isHealthyRun run ∧ ∀ l ∈ latest, l < t then some t else latest) none

/-- **Oldest healthy run start after a moment**, in any order of the runs. -/
def firstHealthyAfter (runs : List LoggedRun) (since : ℤ) : Option ℤ :=
  runs.foldl (fun first run =>
    match run.startedAt with
    | none => first
    | some t =>
      if isHealthyRun run ∧ since < t ∧ ∀ f ∈ first, t < f then some t else first) none

/-- One more run of an outcome. -/
def OutageSignal.count (signal : OutageSignal) : RunOutcome → OutageSignal
  | .healthy => signal
  | .noPrice => { signal with noPrice := signal.noPrice + 1 }
  | .failed => { signal with failed := signal.failed + 1 }
  | .skipped => { signal with skipped := signal.skipped + 1 }

/-- **What was seen after a moment**: the non-healthy runs by outcome, and the rejected
calls. -/
def classifySignal (runs : List LoggedRun) (since : ℤ) (rejectedCount : ℕ) : OutageSignal :=
  let signal := runs.foldl (fun (signal : OutageSignal) run =>
    if isHealthyRun run ∨ ¬∃ t ∈ run.startedAt, since < t then signal
    else signal.count (run.outcome.getD .healthy)) {}
  if 0 < rejectedCount then { signal with rejected := rejectedCount } else signal

/-- The later of two moments, if there is one. -/
def later : Option ℤ → Option ℤ → Option ℤ
  | none, b => b
  | some a, none => some a
  | some a, some b => if b ≤ a then some a else some b

/-! ### The watcher -/

/-- The newest healthy run a watcher run knows of. -/
def heardAt (state : Option MonitorState) (recentRuns : List LoggedRun) : Option ℤ :=
  later (state.bind MonitorState.lastHealthyAt) (latestHealthyAt recentRuns)

/-- The watcher's start: this run, if there was none before. -/
def startedAt (state : Option MonitorState) (now : ℤ) : ℤ :=
  (state.map MonitorState.watcherStartedAt).getD now

def baseState (state : Option MonitorState) (recentRuns : List LoggedRun) (now : ℤ) :
    MonitorState where
  watcherStartedAt := startedAt state now
  lastWatcherRunAt := now
  lastHealthyAt := heardAt state recentRuns
  outage := state.bind MonitorState.outage

/-- Silence is measured from the later of the last healthy run and the watcher's own
start. -/
def silentSince (state : Option MonitorState) (recentRuns : List LoggedRun) (now : ℤ) : ℤ :=
  (later (heardAt state recentRuns) (some (startedAt state now))).getD now

/-- The second half of a watcher run: no healthy run was seen since the outage, if there
is one. -/
def evaluateSilence (state : Option MonitorState) (recentRuns : List LoggedRun) (now : ℤ)
    (rejectedSince : ℤ → ℕ) : MonitorDecision MonitorState :=
  let base := baseState state recentRuns now
  let since := silentSince state recentRuns now
  if now - since < outageThresholdMs then .none { base with outage := none }
  else
    let current := base.outage.getD ⟨since, none⟩
    let unsent := { base with outage := some current }
    let sent := { base with outage := some { current with notifiedAt := some now } }
    let report : OutageReport :=
      { lastHealthyAt := base.lastHealthyAt
        since := current.since
        downForMs := now - current.since
        signal := classifySignal recentRuns current.since (rejectedSince current.since) }
    match current.notifiedAt with
    | none => ⟨some (.down report), sent, unsent⟩
    | some n =>
      if outageReminderMs ≤ now - n then ⟨some (.reminder report), sent, unsent⟩
      else .none unsent

/-- **One watcher run.** An outage ended at the first healthy run after it; if that one is
no longer in the window, the newest one stands in. -/
def evaluateMonitor (state : Option MonitorState) (recentRuns : List LoggedRun) (now : ℤ)
    (rejectedSince : ℤ → ℕ) : MonitorDecision MonitorState :=
  let base := baseState state recentRuns now
  match base.outage, base.lastHealthyAt with
  | some outage, some healthyAt =>
    if outage.since < healthyAt then
      let cleared := { base with outage := none }
      match outage.notifiedAt with
      | none => .none cleared
      | some _ =>
        let recoveredAt := (firstHealthyAfter recentRuns outage.since).getD healthyAt
        -- Kept if not delivered, so that the next watcher run retries the message.
        ⟨some (.recovered outage.since recoveredAt (recoveredAt - outage.since)), cleared, base⟩
    else evaluateSilence state recentRuns now rejectedSince
  | _, _ => evaluateSilence state recentRuns now rejectedSince

/-! ### The watchdog -/

/-- The second half of the watch over the watcher: no heartbeat was seen since the
silence, if there is one. -/
def evaluateWatcherSilence (outage : Option OutageState) (heartbeat now : ℤ) :
    MonitorDecision WatchdogState :=
  let silentForMs := now - heartbeat
  if silentForMs < watcherSilenceMs then .none ⟨none⟩
  else
    let current := outage.getD ⟨heartbeat, none⟩
    if ∀ n ∈ current.notifiedAt, outageReminderMs ≤ now - n then
      ⟨some (.watcherDown heartbeat silentForMs), ⟨some { current with notifiedAt := some now }⟩,
        ⟨some current⟩⟩
    else .none ⟨some current⟩

/-- **The check's watch over the watcher.** A watcher that never ran is not an outage. -/
def evaluateWatchdog (state : Option WatchdogState) (lastWatcherRunAt : Option ℤ) (now : ℤ) :
    MonitorDecision WatchdogState :=
  match state.bind WatchdogState.outage, lastWatcherRunAt with
  | _, none => .none ⟨none⟩
  | none, some heartbeat => evaluateWatcherSilence none heartbeat now
  | some outage, some heartbeat =>
    if outage.since < heartbeat then
      match outage.notifiedAt with
      | none => .none ⟨none⟩
      | some _ =>
        ⟨some (.watcherRecovered outage.since heartbeat (heartbeat - outage.since)), ⟨none⟩,
          ⟨some outage⟩⟩
    else evaluateWatcherSilence (some outage) heartbeat now

/-! ### What the watcher has heard of -/

section Heard

/-- A healthy run of the list started at that moment. -/
def HealthyAt (runs : List LoggedRun) (t : ℤ) : Prop :=
  ∃ run ∈ runs, isHealthyRun run ∧ run.startedAt = some t

theorem HealthyAt.mono {runs runs' : List LoggedRun} {t : ℤ} (h : HealthyAt runs t)
    (hsub : ∀ run ∈ runs, run ∈ runs') : HealthyAt runs' t := by
  obtain ⟨run, hmem, hrun⟩ := h
  exact ⟨run, hsub run hmem, hrun⟩

theorem latestHealthyAt_concat (runs : List LoggedRun) (run : LoggedRun) :
    latestHealthyAt (runs ++ [run]) =
      match run.startedAt with
      | none => latestHealthyAt runs
      | some t =>
        if isHealthyRun run ∧ ∀ l ∈ latestHealthyAt runs, l < t then some t
        else latestHealthyAt runs := by
  rw [latestHealthyAt, List.foldl_append]
  rfl

theorem healthyAt_of_latestHealthyAt {runs : List LoggedRun} {t : ℤ}
    (h : t ∈ latestHealthyAt runs) : HealthyAt runs t := by
  induction runs using List.reverseRecOn with
  | nil => simp [latestHealthyAt] at h
  | append_singleton runs run ih =>
    have hkeep (h : t ∈ latestHealthyAt runs) : HealthyAt (runs ++ [run]) t :=
      (ih h).mono fun _ => List.mem_append_left _
    rw [latestHealthyAt_concat] at h
    cases hstart : run.startedAt with
    | none =>
      rw [hstart] at h
      exact hkeep h
    | some u =>
      rw [hstart] at h
      dsimp only at h
      split_ifs at h with hnew
      · obtain rfl := Option.some.inj h
        exact ⟨run, by simp, hnew.1, hstart⟩
      · exact hkeep h

theorem exists_latestHealthyAt_ge {runs : List LoggedRun} {t : ℤ} (h : HealthyAt runs t) :
    ∃ l ∈ latestHealthyAt runs, t ≤ l := by
  induction runs using List.reverseRecOn with
  | nil => simp [HealthyAt] at h
  | append_singleton runs run ih =>
    rw [latestHealthyAt_concat]
    obtain ⟨run', hmem, hhealthy, hstart'⟩ := h
    rcases List.mem_append.mp hmem with hmem | hmem
    · obtain ⟨l, hl, hle⟩ := ih ⟨run', hmem, hhealthy, hstart'⟩
      cases run.startedAt with
      | none => exact ⟨l, hl, hle⟩
      | some u =>
        dsimp only
        split_ifs with hnew
        · exact ⟨u, rfl, hle.trans (hnew.2 l hl).le⟩
        · exact ⟨l, hl, hle⟩
    · obtain rfl := List.mem_singleton.mp hmem
      rw [hstart']
      dsimp only
      split_ifs with hnew
      · exact ⟨t, rfl, le_rfl⟩
      · rw [not_and] at hnew
        push Not at hnew
        exact hnew hhealthy

theorem later_eq (a b : Option ℤ) : later a b = a ∨ later a b = b := by
  rcases a with - | a <;> rcases b with - | b
  · exact .inl rfl
  · exact .inr rfl
  · exact .inl rfl
  · rw [later]
    split_ifs
    · exact .inl rfl
    · exact .inr rfl

theorem exists_later_ge_left {a b : Option ℤ} {x : ℤ} (h : x ∈ a) : ∃ y ∈ later a b, x ≤ y := by
  obtain rfl := Option.mem_def.mp h
  rcases b with - | b
  · exact ⟨x, rfl, le_rfl⟩
  · rw [later]
    split_ifs with hle
    · exact ⟨x, rfl, le_rfl⟩
    · exact ⟨b, rfl, by omega⟩

theorem exists_later_ge_right {a b : Option ℤ} {x : ℤ} (h : x ∈ b) : ∃ y ∈ later a b, x ≤ y := by
  obtain rfl := Option.mem_def.mp h
  rcases a with - | a
  · exact ⟨x, rfl, le_rfl⟩
  · rw [later]
    split_ifs with hle
    · exact ⟨a, rfl, hle⟩
    · exact ⟨x, rfl, le_rfl⟩

variable {state : Option MonitorState} {recentRuns : List LoggedRun} {now t : ℤ}

theorem mem_heardAt (h : t ∈ heardAt state recentRuns) :
    t ∈ state.bind MonitorState.lastHealthyAt ∨ HealthyAt recentRuns t := by
  rw [heardAt] at h
  rcases later_eq (state.bind MonitorState.lastHealthyAt) (latestHealthyAt recentRuns) with he | he
  · exact .inl (he ▸ h)
  · exact .inr (healthyAt_of_latestHealthyAt (he ▸ h))

/-- What was heard of is not forgotten. -/
theorem exists_heardAt_of_stored (recentRuns : List LoggedRun)
    (h : t ∈ state.bind MonitorState.lastHealthyAt) :
    ∃ l ∈ heardAt state recentRuns, t ≤ l :=
  exists_later_ge_left h

theorem exists_heardAt_of_healthyAt (h : HealthyAt recentRuns t) :
    ∃ l ∈ heardAt state recentRuns, t ≤ l := by
  obtain ⟨u, hu, hle⟩ := exists_latestHealthyAt_ge h
  obtain ⟨l, hl, hle'⟩ := exists_later_ge_right hu
  exact ⟨l, hl, hle.trans hle'⟩

theorem silentSince_eq_later :
    some (silentSince state recentRuns now) =
      later (heardAt state recentRuns) (some (startedAt state now)) := by
  obtain ⟨y, hy, -⟩ := exists_later_ge_right (a := heardAt state recentRuns)
    (Option.mem_some_self (startedAt state now))
  rw [silentSince, Option.mem_def.mp hy]
  rfl

theorem startedAt_le_silentSince : startedAt state now ≤ silentSince state recentRuns now := by
  obtain ⟨y, hy, hle⟩ := exists_later_ge_right (a := heardAt state recentRuns)
    (Option.mem_some_self (startedAt state now))
  rw [← silentSince_eq_later] at hy
  rwa [Option.some.inj hy]

theorem le_silentSince (h : t ∈ heardAt state recentRuns) :
    t ≤ silentSince state recentRuns now := by
  obtain ⟨y, hy, hle⟩ := exists_later_ge_left (b := some (startedAt state now)) h
  rw [← silentSince_eq_later] at hy
  rwa [Option.some.inj hy]

/-- The silence starts at the watcher's start or at a healthy run. -/
theorem silentSince_eq (state : Option MonitorState) (recentRuns : List LoggedRun) (now : ℤ) :
    silentSince state recentRuns now = startedAt state now ∨
      silentSince state recentRuns now ∈ heardAt state recentRuns := by
  rcases later_eq (heardAt state recentRuns) (some (startedAt state now)) with he | he
  · rw [← silentSince_eq_later] at he
    exact .inr he.symm
  · rw [← silentSince_eq_later] at he
    exact .inl (Option.some.inj he)

theorem silentSince_le {s : ℤ} (hstart : startedAt state now ≤ s)
    (hheard : ∀ l ∈ heardAt state recentRuns, l ≤ s) : silentSince state recentRuns now ≤ s := by
  rcases silentSince_eq state recentRuns now with h | h
  · exact h.trans_le hstart
  · exact hheard _ h

end Heard

/-! ### The decisions, read backwards -/

/-- **What a watcher run can decide**, and on what grounds. -/
inductive MonitorStep (state : Option MonitorState) (recentRuns : List LoggedRun) (now : ℤ) :
    MonitorDecision MonitorState → Prop
  /-- An outage the owner never heard about ends silently. -/
  | cleared {since healthyAt : ℤ} (outage : state.bind MonitorState.outage = some ⟨since, none⟩)
      (heard : healthyAt ∈ heardAt state recentRuns) (after : since < healthyAt) :
      MonitorStep state recentRuns now
        (.none { baseState state recentRuns now with outage := none })
  | recovered {since n healthyAt : ℤ} (recoveredAt : ℤ)
      (outage : state.bind MonitorState.outage = some ⟨since, some n⟩)
      (heard : healthyAt ∈ heardAt state recentRuns) (after : since < healthyAt) :
      MonitorStep state recentRuns now
        ⟨some (.recovered since recoveredAt (recoveredAt - since)),
          { baseState state recentRuns now with outage := none }, baseState state recentRuns now⟩
  | quiet
      (lasting : ∀ o ∈ state.bind MonitorState.outage, ∀ l ∈ heardAt state recentRuns, l ≤ o.since)
      (recent : now < silentSince state recentRuns now + outageThresholdMs) :
      MonitorStep state recentRuns now
        (.none { baseState state recentRuns now with outage := none })
  | down {since : ℤ} (report : OutageReport)
      (current : state.bind MonitorState.outage = some ⟨since, none⟩ ∨
        state.bind MonitorState.outage = none ∧ since = silentSince state recentRuns now)
      (lasting : ∀ l ∈ heardAt state recentRuns, l ≤ since)
      (silent : silentSince state recentRuns now + outageThresholdMs ≤ now)
      (about : report.since = since) :
      MonitorStep state recentRuns now
        ⟨some (.down report),
          { baseState state recentRuns now with outage := some ⟨since, some now⟩ },
          { baseState state recentRuns now with outage := some ⟨since, none⟩ }⟩
  | reminder {since n : ℤ} (report : OutageReport)
      (outage : state.bind MonitorState.outage = some ⟨since, some n⟩)
      (lasting : ∀ l ∈ heardAt state recentRuns, l ≤ since)
      (silent : silentSince state recentRuns now + outageThresholdMs ≤ now)
      (due : n + outageReminderMs ≤ now) (about : report.since = since) :
      MonitorStep state recentRuns now
        ⟨some (.reminder report),
          { baseState state recentRuns now with outage := some ⟨since, some now⟩ },
          baseState state recentRuns now⟩
  | held {since n : ℤ} (outage : state.bind MonitorState.outage = some ⟨since, some n⟩)
      (lasting : ∀ l ∈ heardAt state recentRuns, l ≤ since)
      (silent : silentSince state recentRuns now + outageThresholdMs ≤ now)
      (notDue : now < n + outageReminderMs) :
      MonitorStep state recentRuns now (.none (baseState state recentRuns now))

section Step

variable (state : Option MonitorState) (recentRuns : List LoggedRun) (now : ℤ)
  (rejectedSince : ℤ → ℕ)

theorem evaluateSilence_step
    (lasting : ∀ o ∈ state.bind MonitorState.outage, ∀ l ∈ heardAt state recentRuns, l ≤ o.since) :
    MonitorStep state recentRuns now (evaluateSilence state recentRuns now rejectedSince) := by
  rw [evaluateSilence]
  dsimp only
  split_ifs with hrecent
  · exact .quiet lasting (by omega)
  · have hsilent : silentSince state recentRuns now + outageThresholdMs ≤ now := by omega
    rw [show (baseState state recentRuns now).outage = state.bind MonitorState.outage from rfl]
    rcases ho : state.bind MonitorState.outage with - | ⟨since, - | n⟩
    · exact .down _ (.inr ⟨ho, rfl⟩) (fun l hl => le_silentSince hl) hsilent rfl
    · exact .down _ (.inl ho) (lasting _ ho) hsilent rfl
    · dsimp only [Option.getD_some]
      rw [show some ⟨since, some n⟩ = (baseState state recentRuns now).outage from ho.symm]
      split_ifs with hdue
      · exact .reminder _ ho (lasting _ ho) hsilent (by omega) rfl
      · exact .held ho (lasting _ ho) hsilent (by omega)

theorem evaluateMonitor_step :
    MonitorStep state recentRuns now (evaluateMonitor state recentRuns now rejectedSince) := by
  rw [evaluateMonitor]
  dsimp only
  rw [show (baseState state recentRuns now).outage = state.bind MonitorState.outage from rfl,
    show (baseState state recentRuns now).lastHealthyAt = heardAt state recentRuns from rfl]
  split
  next o healthyAt ho hheard =>
    split_ifs with hended
    · rcases o with ⟨since, - | n⟩
      · exact .cleared ho hheard hended
      · exact .recovered _ ho hheard hended
    · refine evaluateSilence_step state recentRuns now rejectedSince fun o' ho' l hl => ?_
      obtain rfl := Option.some.inj (ho.symm.trans ho')
      obtain rfl := Option.some.inj (hheard.symm.trans hl)
      exact not_lt.mp hended
  next hnone =>
    refine evaluateSilence_step state recentRuns now rejectedSince fun o ho l hl => ?_
    exact absurd hl (hnone o l ho)

end Step

/-- Whatever was decided, only the outage is in question. -/
theorem MonitorStep.after_eq {state : Option MonitorState} {recentRuns : List LoggedRun} {now : ℤ}
    {decision : MonitorDecision MonitorState} (h : MonitorStep state recentRuns now decision)
    (sent : Bool) :
    decision.after sent =
      { baseState state recentRuns now with outage := (decision.after sent).outage } := by
  cases sent <;> cases h <;> rfl

section MonitorStep

variable {state : Option MonitorState} {recentRuns : List LoggedRun} {now : ℤ}
  {decision : MonitorDecision MonitorState}

/-- **An outage is remembered or new.** -/
theorem MonitorStep.since_after (h : MonitorStep state recentRuns now decision) {sent : Bool}
    {o : OutageState} (ho : (decision.after sent).outage = some o) :
    (∃ o' ∈ state.bind MonitorState.outage, o'.since = o.since) ∨
      state.bind MonitorState.outage = none ∧ o.since = silentSince state recentRuns now ∧
        o.since + outageThresholdMs ≤ now := by
  cases h with
  | cleared => simp at ho
  | quiet => simp at ho
  | held =>
    rw [MonitorDecision.after_none] at ho
    exact .inl ⟨o, ho, rfl⟩
  | recovered =>
    cases sent with
    | true => simp at ho
    | false => exact .inl ⟨o, ho, rfl⟩
  | down report current lasting silent =>
    obtain ⟨-, rfl⟩ | ⟨-, rfl⟩ :
        sent = true ∧ ⟨_, some now⟩ = o ∨ sent = false ∧ ⟨_, none⟩ = o := by
      cases sent <;> simpa using ho
    all_goals
      rcases current with hcur | ⟨hnone, hcur⟩
      · exact .inl ⟨_, hcur, rfl⟩
      · exact .inr ⟨hnone, hcur, hcur ▸ silent⟩
  | reminder report outage =>
    cases sent with
    | true =>
      obtain rfl := Option.some.inj ho
      exact .inl ⟨_, outage, rfl⟩
    | false => exact .inl ⟨o, ho, rfl⟩

/-- What is sent is about an outage that is remembered or new. -/
theorem MonitorStep.since_action (h : MonitorStep state recentRuns now decision)
    {action : MonitorAction} (ha : decision.action = some action) :
    (∃ o ∈ state.bind MonitorState.outage, o.since = action.since) ∨
      state.bind MonitorState.outage = none ∧ action.since = silentSince state recentRuns now ∧
        action.since + outageThresholdMs ≤ now := by
  cases h with
  | cleared => simp at ha
  | quiet => simp at ha
  | held => simp at ha
  | recovered _ outage =>
    obtain rfl := Option.some.inj ha
    exact .inl ⟨_, outage, rfl⟩
  | down report current _ silent about =>
    obtain rfl := Option.some.inj ha
    rcases current with hcur | ⟨hnone, hcur⟩
    · exact .inl ⟨_, hcur, about.symm⟩
    · have hsince : (MonitorAction.down report).since = silentSince state recentRuns now :=
        about.trans hcur
      exact .inr ⟨hnone, hsince, hsince.symm ▸ silent⟩
  | reminder report outage _ _ _ about =>
    obtain rfl := Option.some.inj ha
    exact .inl ⟨_, outage, about.symm⟩

theorem MonitorStep.kind_action (h : MonitorStep state recentRuns now decision)
    {action : MonitorAction} (ha : decision.action = some action) :
    action.kind = .down ∨ action.kind = .reminder ∨ action.kind = .recovered := by
  cases h with
  | cleared => simp at ha
  | quiet => simp at ha
  | held => simp at ha
  | recovered => exact .inr (.inr (by rw [← Option.some.inj ha]; rfl))
  | down => exact .inl (by rw [← Option.some.inj ha]; rfl)
  | reminder => exact .inr (.inl (by rw [← Option.some.inj ha]; rfl))

end MonitorStep

/-- **What the watchdog can decide**, and on what grounds. -/
inductive WatchdogStep (outage : Option OutageState) (lastWatcherRunAt : Option ℤ) (now : ℤ) :
    MonitorDecision WatchdogState → Prop
  | neverRan (never : lastWatcherRunAt = none) :
      WatchdogStep outage lastWatcherRunAt now (.none ⟨none⟩)
  /-- A silence the owner never heard about ends silently. -/
  | cleared {since heartbeat : ℤ} (heard : lastWatcherRunAt = some heartbeat)
      (stored : outage = some ⟨since, none⟩) (after : since < heartbeat) :
      WatchdogStep outage lastWatcherRunAt now (.none ⟨none⟩)
  | recovered {since n heartbeat : ℤ} (heard : lastWatcherRunAt = some heartbeat)
      (stored : outage = some ⟨since, some n⟩) (after : since < heartbeat) :
      WatchdogStep outage lastWatcherRunAt now
        ⟨some (.watcherRecovered since heartbeat (heartbeat - since)), ⟨none⟩,
          ⟨some ⟨since, some n⟩⟩⟩
  | quiet {heartbeat : ℤ} (heard : lastWatcherRunAt = some heartbeat)
      (lasting : ∀ o ∈ outage, heartbeat ≤ o.since) (recent : now < heartbeat + watcherSilenceMs) :
      WatchdogStep outage lastWatcherRunAt now (.none ⟨none⟩)
  | down {heartbeat : ℤ} (current : OutageState) (heard : lastWatcherRunAt = some heartbeat)
      (stored : outage = some current ∨ outage = none ∧ current = ⟨heartbeat, none⟩)
      (lasting : heartbeat ≤ current.since) (silent : heartbeat + watcherSilenceMs ≤ now)
      (due : ∀ n ∈ current.notifiedAt, n + outageReminderMs ≤ now) :
      WatchdogStep outage lastWatcherRunAt now
        ⟨some (.watcherDown heartbeat (now - heartbeat)),
          ⟨some { current with notifiedAt := some now }⟩, ⟨some current⟩⟩
  | held {since n heartbeat : ℤ} (heard : lastWatcherRunAt = some heartbeat)
      (stored : outage = some ⟨since, some n⟩) (lasting : heartbeat ≤ since)
      (silent : heartbeat + watcherSilenceMs ≤ now) (notDue : now < n + outageReminderMs) :
      WatchdogStep outage lastWatcherRunAt now (.none ⟨some ⟨since, some n⟩⟩)

theorem evaluateWatcherSilence_step (outage : Option OutageState) (heartbeat now : ℤ)
    (lasting : ∀ o ∈ outage, heartbeat ≤ o.since) :
    WatchdogStep outage (some heartbeat) now (evaluateWatcherSilence outage heartbeat now) := by
  rw [evaluateWatcherSilence]
  dsimp only
  split_ifs with hrecent hdue
  · exact .quiet rfl lasting (by omega)
  · have hsilent : heartbeat + watcherSilenceMs ≤ now := by omega
    refine .down _ rfl ?_ ?_ hsilent fun n hn => ?_
    · cases outage with
      | none => exact .inr ⟨rfl, rfl⟩
      | some o => exact .inl rfl
    · cases outage with
      | none => exact le_rfl
      | some o => exact lasting o rfl
    · have := hdue n hn
      omega
  · rcases outage with - | ⟨since, - | n⟩
    · simp at hdue
    · simp at hdue
    · refine .held rfl rfl (lasting _ rfl) (by omega) ?_
      simp only [Option.getD_some, Option.mem_def, Option.some.injEq, forall_eq', not_le] at hdue
      omega

theorem evaluateWatchdog_step (state : Option WatchdogState) (lastWatcherRunAt : Option ℤ)
    (now : ℤ) :
    WatchdogStep (state.bind WatchdogState.outage) lastWatcherRunAt now
      (evaluateWatchdog state lastWatcherRunAt now) := by
  unfold evaluateWatchdog
  cases state.bind WatchdogState.outage with
  | none =>
    cases lastWatcherRunAt with
    | none => exact .neverRan rfl
    | some heartbeat => exact evaluateWatcherSilence_step none heartbeat now (by simp)
  | some o =>
    cases lastWatcherRunAt with
    | none => exact .neverRan rfl
    | some heartbeat =>
      dsimp only
      split_ifs with hended
      · rcases o with ⟨since, - | n⟩
        · exact .cleared rfl rfl hended
        · exact .recovered rfl rfl hended
      · refine evaluateWatcherSilence_step (some o) heartbeat now fun o' ho' => ?_
        obtain rfl := Option.some.inj ho'
        exact not_lt.mp hended

theorem WatchdogStep.kind_action {outage : Option OutageState} {lastWatcherRunAt : Option ℤ}
    {now : ℤ} {decision : MonitorDecision WatchdogState}
    (h : WatchdogStep outage lastWatcherRunAt now decision) {action : MonitorAction}
    (ha : decision.action = some action) :
    action.kind = .watcherDown ∨ action.kind = .watcherRecovered := by
  cases h with
  | neverRan => simp at ha
  | cleared => simp at ha
  | quiet => simp at ha
  | held => simp at ha
  | recovered => exact .inr (by rw [← Option.some.inj ha]; rfl)
  | down => exact .inl (by rw [← Option.some.inj ha]; rfl)

end Monitor

end CryptoZaloBot
