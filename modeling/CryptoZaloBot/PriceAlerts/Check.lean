import Mathlib.Data.List.Sort
import Mathlib.Logic.Function.Basic
import CryptoZaloBot.Base.InsertionMap
import CryptoZaloBot.Base.System
import CryptoZaloBot.PriceAlerts.Evaluator

/-!
# Check runs

`PriceAlertsController.runCheck`: once a minute all alerts are loaded and, one after the
other, evaluated at the current prices, notified if due, and written back. Runs do not
overlap and their writes succeed here; everything else about them is arbitrary – which
prices could be looked up, which sends are accepted, how long they take.

An alert cannot disturb another one, whatever the loop carries along
(`CryptoZaloBot.PriceAlerts.runCheck_spec`), so that what a sequence of runs does to an
alert can be told alert by alert. The promise to a chat is
`CryptoZaloBot.PriceAlerts.alert_deliveries`: its messages about one alert are at least
15 minutes apart, with the price back past the threshold in between, and each is sent at
a price that meets the condition.

Back past the threshold by half a percent, that is, as doubles have it: the exact half percent
can be missed by a last bit
(`CryptoZaloBot.PriceAlerts.deliveries_not_always_half_percent_apart`), and by no more
(`CryptoZaloBot.PriceAlerts.rearmLevel_near`).
-/

namespace CryptoZaloBot

namespace PriceAlerts

/-! ### One alert -/

/-- One attempted alert notification. -/
structure AlertDelivery where
  alertId : ℕ
  chatId : String
  symbol : String
  direction : AlertDirection
  threshold : ℚ
  priceUsd : ℚ
  delivered : Bool
  attemptedAt : ℤ
  deriving DecidableEq

/-- What became of a send. -/
inductive SendOutcome where
  | delivered
  | refused
  /-- The send, or the text it needs, threw. -/
  | threw
  deriving DecidableEq

inductive RunOutcome where
  | healthy
  | noPrice
  | failed
  | skipped
  deriving DecidableEq

/-- Per-run metrics. -/
structure AlertRunSummary where
  outcome : RunOutcome
  evaluated : ℕ := 0
  fired : ℕ := 0
  failed : ℕ := 0
  rearmed : ℕ := 0
  deferred : ℕ := 0
  deriving DecidableEq

/-- What happens while one alert is processed. -/
structure AlertEnv where
  /-- The time since the run's send phase started. -/
  elapsedMs : ℤ
  send : SendOutcome
  /-- The delivery could be logged. -/
  recorded : Bool
  deriving DecidableEq

/-- What processing an alert leads to: the alert written back, if it is, the
notification that was answered, if one was, and the summary. -/
structure Processed where
  written : Option PriceAlert
  attempt : Option AlertDelivery
  summary : AlertRunSummary
  deriving DecidableEq

/-- The alert after a notification that was answered. -/
def afterSend (alert : PriceAlert) (now : ℤ) (delivered : Bool) : PriceAlert :=
  if delivered then
    { alert with
      state := .fired
      lastFiredAt := some now
      lastFailedAt := none
      consecutiveFailures := some 0 }
  else
    { alert with
      lastFailedAt := some now
      consecutiveFailures := some (alert.consecutiveFailures.getD 0 + 1) }

/-- The log entry of a notification. -/
def deliveryOf (alert : PriceAlert) (priceUsd : ℚ) (now : ℤ) (delivered : Bool) :
    AlertDelivery where
  alertId := alert.id
  chatId := alert.chatId
  symbol := alert.symbol
  direction := alert.direction
  threshold := alert.threshold
  priceUsd := priceUsd
  delivered := delivered
  attemptedAt := now

/-- **`processAlert`.** The outcome of a send is stored before it is logged. -/
def processAlert (alert : PriceAlert) (priceUsd : ℚ) (now : ℤ) (env : AlertEnv)
    (summary : AlertRunSummary) : Processed :=
  match evaluateAlert alert priceUsd now with
  | .rearm =>
    { written := some { alert with state := .armed }
      attempt := none
      summary := { summary with rearmed := summary.rearmed + 1 } }
  | .none => { written := none, attempt := none, summary }
  | .fire =>
    if runSendBudgetMs < env.elapsedMs then
      { written := none
        attempt := none
        summary := { summary with deferred := summary.deferred + 1 } }
    else
      match env.send with
      | .threw =>
        -- Nothing is written; the loop catches the error and counts it.
        { written := none
          attempt := none
          summary := { summary with failed := summary.failed + 1 } }
      | .delivered =>
        { written := some (afterSend alert now true)
          attempt := some (deliveryOf alert priceUsd now true)
          summary :=
            if env.recorded then { summary with fired := summary.fired + 1 }
            else { summary with failed := summary.failed + 1 } }
      | .refused =>
        { written := some (afterSend alert now false)
          attempt := some (deliveryOf alert priceUsd now false)
          summary := { summary with failed := summary.failed + 1 } }

/-! ### The run -/

/-- **The stored alerts**, each under its own id. -/
structure AlertStore where
  alerts : ℕ → Option PriceAlert
  keyed : ∀ id a, alerts id = some a → a.id = id

theorem AlertStore.keyed_update (store : AlertStore) (alert : PriceAlert) (id : ℕ)
    (a : PriceAlert) (h : Function.update store.alerts alert.id (some alert) id = some a) :
    a.id = id := by
  rcases eq_or_ne id alert.id with rfl | hne
  · rw [Function.update_self] at h
    rw [← Option.some.inj h]
  · rw [Function.update_of_ne hne] at h
    exact store.keyed id a h

/-- `SET … XX`: an alert is only written over itself. -/
def AlertStore.updateState (store : AlertStore) (alert : PriceAlert) : AlertStore :=
  if (store.alerts alert.id).isSome then
    { alerts := Function.update store.alerts alert.id (some alert)
      keyed := store.keyed_update alert }
  else store

theorem AlertStore.alerts_updateState {store : AlertStore} {alert : PriceAlert}
    (h : (store.alerts alert.id).isSome) :
    (store.updateState alert).alerts = Function.update store.alerts alert.id (some alert) := by
  rw [AlertStore.updateState, if_pos h]

/-- One run: when it starts, which ids the set of all alerts lists, and in which order,
and what its surroundings answer. -/
structure CheckRun where
  startedAt : ℤ
  ids : List ℕ
  prices : InsertionMap String ℚ
  env : ℕ → AlertEnv

/-- `listAll`: the alerts found under the listed ids, oldest first. -/
def AlertStore.listAll (store : AlertStore) (ids : List ℕ) : List PriceAlert :=
  (ids.filterMap store.alerts).insertionSort fun a b => a.id ≤ b.id

/-- What the loop carries along. -/
structure CheckState where
  store : AlertStore
  attempts : List AlertDelivery
  summary : AlertRunSummary

/-- One turn of the loop. -/
def checkAlert (run : CheckRun) (s : CheckState) (alert : PriceAlert) : CheckState :=
  match run.prices.get? alert.symbol with
  | none => s
  | some priceUsd =>
    let summary := { s.summary with evaluated := s.summary.evaluated + 1 }
    let result := processAlert alert priceUsd run.startedAt (run.env alert.id) summary
    { store := (result.written.map s.store.updateState).getD s.store
      attempts := s.attempts ++ result.attempt.toList
      summary := result.summary }

/-- **`runCheck`.** A run that watches alerts but priced none of them is not healthy. -/
def runCheck (run : CheckRun) (store : AlertStore) : CheckState :=
  let alerts := store.listAll run.ids
  let outcome :=
    if alerts ≠ [] ∧ run.prices.entries = [] then RunOutcome.noPrice else RunOutcome.healthy
  alerts.foldl (checkAlert run) { store, attempts := [], summary := { outcome } }

/-! ### What a run does to one alert -/

/-- **What can happen to an alert in one run**: the alert after it, and the notification
that was answered. -/
inductive AlertStep (run : CheckRun) (alert : PriceAlert) :
    PriceAlert → Option AlertDelivery → Prop
  /-- No price, nothing due, no send budget left, or a send that threw. -/
  | same : AlertStep run alert alert none
  | rearmed {priceUsd : ℚ} (price : run.prices.get? alert.symbol = some priceUsd)
      (state : alert.state = .fired)
      (back : isBackPast alert.direction alert.threshold priceUsd) :
      AlertStep run alert { alert with state := .armed } none
  | answered {priceUsd : ℚ} (delivered : Bool)
      (price : run.prices.get? alert.symbol = some priceUsd) (state : alert.state = .armed)
      (met : isConditionMet alert.direction alert.threshold priceUsd)
      (cooled : ∀ t ∈ alert.lastFiredAt, t + alertCooldownMs ≤ run.startedAt) :
      AlertStep run alert (afterSend alert run.startedAt delivered)
        (some (deliveryOf alert priceUsd run.startedAt delivered))

theorem AlertStep.id_eq {run : CheckRun} {alert alert' : PriceAlert} {d : Option AlertDelivery}
    (h : AlertStep run alert alert' d) : alert'.id = alert.id := by
  cases h with
  | same => rfl
  | rearmed => rfl
  | answered delivered => cases delivered <;> rfl

theorem AlertStep.alertId_eq {run : CheckRun} {alert alert' : PriceAlert} {d : AlertDelivery}
    (h : AlertStep run alert alert' (some d)) : d.alertId = alert.id := by
  cases h
  rfl

theorem alertStep_processAlert (run : CheckRun) {alert : PriceAlert} {priceUsd : ℚ}
    (price : run.prices.get? alert.symbol = some priceUsd) (summary : AlertRunSummary) :
    AlertStep run alert
      ((processAlert alert priceUsd run.startedAt (run.env alert.id) summary).written.getD alert)
      (processAlert alert priceUsd run.startedAt (run.env alert.id) summary).attempt := by
  rw [processAlert]
  cases he : evaluateAlert alert priceUsd run.startedAt with
  | none => exact .same
  | rearm =>
    obtain ⟨state, back⟩ := evaluateAlert_eq_rearm he
    exact .rearmed price state back
  | fire =>
    obtain ⟨state, met, cooled⟩ := evaluateAlert_eq_fire he
    dsimp only
    by_cases hbudget : runSendBudgetMs < (run.env alert.id).elapsedMs
    · rw [if_pos hbudget]
      exact .same
    · rw [if_neg hbudget]
      cases (run.env alert.id).send with
      | threw => exact .same
      | delivered => exact .answered true price state met cooled
      | refused => exact .answered false price state met cooled

/-- **One turn of the loop** changes one alert. -/
theorem checkAlert_spec (run : CheckRun) {s : CheckState} {alert : PriceAlert}
    (hstored : s.store.alerts alert.id = some alert) :
    ∃ alert' d, AlertStep run alert alert' d ∧
      (checkAlert run s alert).store.alerts =
        Function.update s.store.alerts alert.id (some alert') ∧
      (checkAlert run s alert).attempts = s.attempts ++ d.toList := by
  rw [checkAlert]
  cases price : run.prices.get? alert.symbol with
  | none =>
    refine ⟨alert, none, .same, ?_, by simp⟩
    rw [← hstored, Function.update_eq_self]
  | some priceUsd =>
    have hstep := alertStep_processAlert run price
      { s.summary with evaluated := s.summary.evaluated + 1 }
    refine ⟨_, _, hstep, ?_, rfl⟩
    have hid := hstep.id_eq
    revert hid
    dsimp only
    generalize (processAlert alert priceUsd run.startedAt (run.env alert.id)
      { s.summary with evaluated := s.summary.evaluated + 1 }).written = written
    cases written with
    | none =>
      intro _
      simp [← hstored]
    | some alert' =>
      intro hid
      have hsome : (s.store.alerts alert'.id).isSome := by
        rw [Option.getD_some] at hid
        rw [hid, hstored]
        rfl
      change (s.store.updateState alert').alerts = _
      rw [AlertStore.alerts_updateState hsome]
      exact congrArg (Function.update s.store.alerts · (some alert')) hid

/-- Notifications about other alerts do not count. -/
theorem AlertStep.filter_attempt {run : CheckRun} {alert alert' : PriceAlert}
    {d : Option AlertDelivery} (h : AlertStep run alert alert' d) (id : ℕ) :
    d.toList.filter (·.alertId = id) = if alert.id = id then d.toList else [] := by
  cases d with
  | none => simp
  | some d =>
    have hid := h.alertId_eq
    by_cases halert : alert.id = id
    · simp [hid, halert]
    · simp [hid, halert]

section Loop

variable (run : CheckRun) {id : ℕ}

/-- The rest of the alerts is still stored as it was loaded. -/
theorem stored_checkAlert {s : CheckState} {a : PriceAlert} {alerts : List PriceAlert}
    (hnd : ((a :: alerts).map PriceAlert.id).Nodup)
    (hstored : ∀ b ∈ a :: alerts, s.store.alerts b.id = some b) :
    ∀ b ∈ alerts, (checkAlert run s a).store.alerts b.id = some b := by
  intro b hb
  obtain ⟨a', d, -, halerts, -⟩ := checkAlert_spec run (hstored a List.mem_cons_self)
  have hne : b.id ≠ a.id := by
    intro heq
    rw [List.map_cons, List.nodup_cons] at hnd
    exact hnd.1 (heq ▸ List.mem_map_of_mem hb)
  rw [halerts, Function.update_of_ne hne]
  exact hstored b (List.mem_cons_of_mem a hb)

/-- **The loop leaves the other alerts alone.** -/
theorem foldl_checkAlert_of_notMem {alerts : List PriceAlert} {s : CheckState}
    (hnd : (alerts.map PriceAlert.id).Nodup)
    (hstored : ∀ a ∈ alerts, s.store.alerts a.id = some a) (hid : id ∉ alerts.map PriceAlert.id) :
    (alerts.foldl (checkAlert run) s).store.alerts id = s.store.alerts id ∧
      (alerts.foldl (checkAlert run) s).attempts.filter (·.alertId = id) =
        s.attempts.filter (·.alertId = id) := by
  induction alerts generalizing s with
  | nil => exact ⟨rfl, rfl⟩
  | cons a alerts ih =>
    rw [List.map_cons, List.mem_cons, not_or] at hid
    have hrest := ih (List.nodup_cons.mp hnd).2 (stored_checkAlert run hnd hstored) hid.2
    obtain ⟨a', d, hstep, halerts, hattempts⟩ :=
      checkAlert_spec run (hstored a List.mem_cons_self)
    refine ⟨hrest.1.trans ?_, hrest.2.trans ?_⟩
    · rw [halerts, Function.update_of_ne hid.1]
    · rw [hattempts, List.filter_append, hstep.filter_attempt, if_neg (Ne.symm hid.1),
        List.append_nil]

/-- **The loop processes each of its alerts once.** -/
theorem foldl_checkAlert_of_mem {alerts : List PriceAlert} {s : CheckState}
    (hnd : (alerts.map PriceAlert.id).Nodup)
    (hstored : ∀ a ∈ alerts, s.store.alerts a.id = some a) {a : PriceAlert} (ha : a ∈ alerts) :
    ∃ a' d, AlertStep run a a' d ∧
      (alerts.foldl (checkAlert run) s).store.alerts a.id = some a' ∧
      (alerts.foldl (checkAlert run) s).attempts.filter (·.alertId = a.id) =
        s.attempts.filter (·.alertId = a.id) ++ d.toList := by
  induction alerts generalizing s with
  | nil => simp at ha
  | cons b alerts ih =>
    have hnd' := List.nodup_cons.mp hnd
    have hstored' := stored_checkAlert run hnd hstored
    obtain ⟨b', d, hstep, halerts, hattempts⟩ :=
      checkAlert_spec run (hstored b List.mem_cons_self)
    rcases List.mem_cons.mp ha with rfl | ha
    · obtain ⟨hsame, hsame'⟩ := foldl_checkAlert_of_notMem run hnd'.2 hstored' hnd'.1
      refine ⟨b', d, hstep, hsame.trans ?_, hsame'.trans ?_⟩
      · rw [halerts, Function.update_self]
      · rw [hattempts, List.filter_append, hstep.filter_attempt, if_pos rfl]
    · obtain ⟨a', d', hstep', halerts', hattempts'⟩ := ih hnd'.2 hstored' ha
      have hne : b.id ≠ a.id := fun heq => hnd'.1 (heq ▸ List.mem_map_of_mem ha)
      refine ⟨a', d', hstep', halerts', hattempts'.trans ?_⟩
      rw [hattempts, List.filter_append, hstep.filter_attempt, if_neg hne, List.append_nil]

end Loop

/-! ### The loaded alerts -/

theorem mem_listAll {store : AlertStore} {ids : List ℕ} {a : PriceAlert} :
    a ∈ store.listAll ids ↔ a.id ∈ ids ∧ store.alerts a.id = some a := by
  rw [AlertStore.listAll, (List.perm_insertionSort _ _).mem_iff, List.mem_filterMap]
  constructor
  · rintro ⟨id, hid, hstored⟩
    obtain rfl := store.keyed id a hstored
    exact ⟨hid, hstored⟩
  · rintro ⟨hid, hstored⟩
    exact ⟨a.id, hid, hstored⟩

theorem nodup_listAll (store : AlertStore) {ids : List ℕ} (h : ids.Nodup) :
    ((store.listAll ids).map PriceAlert.id).Nodup := by
  have hlist : (store.listAll ids).Nodup := by
    refine (List.perm_insertionSort _ _).nodup_iff.mpr (h.filterMap fun id id' a ha ha' => ?_)
    rw [← store.keyed id a ha, ← store.keyed id' a ha']
  refine hlist.map_on fun a ha b hb heq => ?_
  have hstored := (mem_listAll.mp ha).2
  rw [heq, (mem_listAll.mp hb).2] at hstored
  exact (Option.some.inj hstored).symm

/-- **What a run does to an alert**: one step, told or not, and nothing about it comes
from anywhere else. -/
theorem runCheck_spec (run : CheckRun) (store : AlertStore) (hids : run.ids.Nodup) {id : ℕ}
    {a : PriceAlert} (ha : store.alerts id = some a) :
    ∃ a' d, AlertStep run a a' d ∧ (runCheck run store).store.alerts id = some a' ∧
      (runCheck run store).attempts.filter (·.alertId = id) = d.toList := by
  have hnd := nodup_listAll store hids
  have hstored : ∀ a ∈ store.listAll run.ids, store.alerts a.id = some a :=
    fun a ha => (mem_listAll.mp ha).2
  obtain rfl := store.keyed id a ha
  by_cases hmem : a ∈ store.listAll run.ids
  · exact foldl_checkAlert_of_mem run hnd hstored hmem
  · have hnot : a.id ∉ (store.listAll run.ids).map PriceAlert.id := by
      intro hin
      obtain ⟨b, hb, heq⟩ := List.mem_map.mp hin
      have hstored' := (mem_listAll.mp hb).2
      rw [heq, ha] at hstored'
      exact hmem (Option.some.inj hstored' ▸ hb)
    obtain ⟨hsame, hsame'⟩ :=
      foldl_checkAlert_of_notMem run (s := ⟨store, [], _⟩) hnd hstored hnot
    exact ⟨a, none, .same, hsame.trans ha, hsame'⟩

/-- A run that finds no alert says nothing about it. -/
theorem runCheck_of_none (run : CheckRun) (store : AlertStore) (hids : run.ids.Nodup) {id : ℕ}
    (ha : store.alerts id = none) :
    (runCheck run store).store.alerts id = none ∧
      (runCheck run store).attempts.filter (·.alertId = id) = [] := by
  have hnot : id ∉ (store.listAll run.ids).map PriceAlert.id := by
    intro hin
    obtain ⟨b, hb, rfl⟩ := List.mem_map.mp hin
    rw [(mem_listAll.mp hb).2] at ha
    exact Option.some_ne_none b ha
  obtain ⟨hsame, hsame'⟩ := foldl_checkAlert_of_notMem run (s := ⟨store, [], _⟩)
    (nodup_listAll store hids) (fun a ha => (mem_listAll.mp ha).2) hnot
  exact ⟨hsame.trans ha, hsame'⟩

/-! ### One run after the other -/

/-- The stored alerts, and when the latest run started. -/
structure CheckerState where
  store : AlertStore
  lastStart : ℤ

/-- **Runs that do not overlap**, started one after the other. They output the
notifications that were answered. -/
def checks : System CheckerState CheckRun AlertDelivery where
  legal s run := run.ids.Nodup ∧ s.lastStart ≤ run.startedAt
  next s run := ⟨(runCheck run s.store).store, run.startedAt⟩
  out s run := (runCheck run s.store).attempts

instance (s : CheckerState) (run : CheckRun) : Decidable (checks.legal s run) :=
  inferInstanceAs (Decidable (run.ids.Nodup ∧ s.lastStart ≤ run.startedAt))

/-- The run delivers a message about an alert. -/
def Delivers (s : CheckerState) (run : CheckRun) (id : ℕ) : Prop :=
  ∃ d ∈ checks.out s run, d.alertId = id ∧ d.delivered = true

instance (s : CheckerState) (run : CheckRun) (id : ℕ) : Decidable (Delivers s run id) :=
  inferInstanceAs (Decidable (∃ d ∈ checks.out s run, d.alertId = id ∧ d.delivered = true))

/-- The run sees the price of an alert back past its threshold. -/
def SeesBack (run : CheckRun) (alert : PriceAlert) : Prop :=
  ∃ priceUsd, run.prices.get? alert.symbol = some priceUsd ∧
    isBackPast alert.direction alert.threshold priceUsd

/-- What never changes about an alert. -/
def SameTerms (a b : PriceAlert) : Prop :=
  a.symbol = b.symbol ∧ a.direction = b.direction ∧ a.threshold = b.threshold

theorem AlertStep.sameTerms {run : CheckRun} {a a' : PriceAlert} {d : Option AlertDelivery}
    (h : AlertStep run a a' d) : SameTerms a' a := by
  cases h with
  | same => exact ⟨rfl, rfl, rfl⟩
  | rearmed => exact ⟨rfl, rfl, rfl⟩
  | answered delivered => cases delivered <;> exact ⟨rfl, rfl, rfl⟩

/-- **A notification, read off the stored alert**: it was armed, its condition was met,
and what is stored afterwards is what the answer makes of it. -/
theorem mem_out {s : CheckerState} {run : CheckRun} {d : AlertDelivery}
    (hleg : checks.legal s run) (hd : d ∈ checks.out s run) :
    ∃ a priceUsd, s.store.alerts d.alertId = some a ∧ a.state = .armed ∧
      run.prices.get? a.symbol = some priceUsd ∧
      isConditionMet a.direction a.threshold priceUsd ∧
      (∀ t ∈ a.lastFiredAt, t + alertCooldownMs ≤ run.startedAt) ∧
      d = deliveryOf a priceUsd run.startedAt d.delivered ∧
      (checks.next s run).store.alerts d.alertId =
        some (afterSend a run.startedAt d.delivered) := by
  have hmem : d ∈ (runCheck run s.store).attempts.filter (·.alertId = d.alertId) :=
    List.mem_filter.mpr ⟨hd, decide_eq_true rfl⟩
  cases ha : s.store.alerts d.alertId with
  | none =>
    rw [(runCheck_of_none run s.store hleg.1 ha).2] at hmem
    simp at hmem
  | some a =>
    obtain ⟨a', d', hstep, hafter, hattempts⟩ := runCheck_spec run s.store hleg.1 ha
    rw [hattempts] at hmem
    obtain rfl := Option.mem_toList.mp hmem
    cases hstep with
    | answered delivered price state met cooled =>
      exact ⟨a, _, rfl, state, price, met, cooled, rfl, hafter⟩

/-- What one run does to the alert under an id. -/
theorem checks_step {s : CheckerState} {run : CheckRun} (hleg : checks.legal s run) {id : ℕ}
    {a : PriceAlert} (ha : s.store.alerts id = some a) :
    ∃ a' d, AlertStep run a a' d ∧ (checks.next s run).store.alerts id = some a' ∧
      (checks.out s run).filter (·.alertId = id) = d.toList :=
  runCheck_spec run s.store hleg.1 ha

/-! ### Messages about one alert -/

/-- A delivered message's mark on the state: the alert fired no earlier. -/
def FiredSince (id : ℕ) (d : AlertDelivery) (s : CheckerState) : Prop :=
  d.alertId = id ∧ d.delivered = true → d.attemptedAt ≤ s.lastStart ∧
    ∀ a, s.store.alerts id = some a → ∃ t ∈ a.lastFiredAt, d.attemptedAt ≤ t

theorem firedSince_of_mem_out {s : CheckerState} {run : CheckRun} {d : AlertDelivery} (id : ℕ)
    (hleg : checks.legal s run) (hd : d ∈ checks.out s run) :
    FiredSince id d (checks.next s run) := by
  rintro ⟨rfl, hdel⟩
  obtain ⟨a, priceUsd, -, -, -, -, -, heq, hafter⟩ := mem_out hleg hd
  have hat : d.attemptedAt = run.startedAt := by
    rw [heq]
    rfl
  refine ⟨hat.le, fun a' ha' => ⟨run.startedAt, ?_, hat.le⟩⟩
  rw [hafter, hdel] at ha'
  rw [← Option.some.inj ha']
  rfl

/-- **The mark stays.** -/
theorem FiredSince.next {s : CheckerState} {run : CheckRun} {d : AlertDelivery} {id : ℕ}
    (h : FiredSince id d s) (hleg : checks.legal s run) : FiredSince id d (checks.next s run) := by
  intro hd
  obtain ⟨hclock, hmark⟩ := h hd
  have hnow : d.attemptedAt ≤ run.startedAt := hclock.trans hleg.2
  refine ⟨hnow, fun a' ha' => ?_⟩
  cases ha : s.store.alerts id with
  | none =>
    have hnone := (runCheck_of_none run s.store hleg.1 ha).1
    exact absurd (ha'.symm.trans hnone) (Option.some_ne_none a')
  | some a =>
    obtain ⟨a'', e, hstep, hafter, -⟩ := checks_step hleg ha
    obtain rfl : a' = a'' := Option.some.inj (ha'.symm.trans hafter)
    obtain ⟨t, ht, hle⟩ := hmark a ha
    cases hstep with
    | same => exact ⟨t, ht, hle⟩
    | rearmed => exact ⟨t, ht, hle⟩
    | answered delivered =>
      cases delivered with
      | true => exact ⟨run.startedAt, rfl, hnow⟩
      | false => exact ⟨t, ht, hle⟩

/-- **Messages about one alert are a cooldown apart.** -/
theorem deliveries_apart {s : CheckerState} {runs : List CheckRun} (hr : checks.Run s runs)
    (id : ℕ) :
    ((checks.outputs s runs).filter fun d => d.alertId = id ∧ d.delivered = true).Pairwise
      fun d d' => d.attemptedAt + alertCooldownMs ≤ d'.attemptedAt := by
  have hpair : (checks.outputs s runs).Pairwise fun d d' =>
      d.alertId = id ∧ d.delivered = true → d'.alertId = id ∧ d'.delivered = true →
        d.attemptedAt + alertCooldownMs ≤ d'.attemptedAt := by
    refine System.Run.outputs_pairwise (I := fun _ => True) (A := FiredSince id)
      (fun _ _ _ _ => trivial) (fun s run _ hleg => ?_)
      (fun s run _ hleg d hd => firedSince_of_mem_out id hleg hd)
      (fun d s run _ hmark hleg => hmark.next hleg) (fun d s run _ hmark hleg d' hd' => ?_)
      trivial hr
    · -- One run answers at most one notification about an alert.
      have hone : ((checks.out s run).filter (·.alertId = id)).Pairwise fun d d' =>
          d.attemptedAt + alertCooldownMs ≤ d'.attemptedAt := by
        cases ha : s.store.alerts id with
        | none =>
          rw [show (checks.out s run).filter (·.alertId = id) = [] from
            (runCheck_of_none run s.store hleg.1 ha).2]
          exact List.Pairwise.nil
        | some a =>
          obtain ⟨a', e, -, -, hout⟩ := checks_step hleg ha
          rw [hout]
          cases e with
          | none => exact List.Pairwise.nil
          | some e => exact List.pairwise_singleton _ e
      refine (List.pairwise_filter.mp hone).imp fun {d d'} h hd hd' => ?_
      exact h (decide_eq_true hd.1) (decide_eq_true hd'.1)
    · rintro hd ⟨rfl, -⟩
      obtain ⟨a, priceUsd, ha, -, -, -, hcooled, heq, -⟩ := mem_out hleg hd'
      obtain ⟨t, ht, hle⟩ := (hmark hd).2 a ha
      -- The earlier delivery left the time it fired, and the run waited for the cooldown.
      have hat : d'.attemptedAt = run.startedAt := by
        rw [heq]
        rfl
      have := hcooled t ht
      omega
  refine List.pairwise_filter.mpr (hpair.imp fun {d d'} h hd hd' => ?_)
  exact h (of_decide_eq_true hd) (of_decide_eq_true hd')

/-- **Between two messages the price came back**: the first one leaves the alert fired,
the second one finds it armed, and only a price past the buffer re-arms it. -/
theorem exists_seesBack {s : CheckerState} {mid : List CheckRun} {id : ℕ} {a b : PriceAlert}
    (hr : checks.Run s mid) (ha : s.store.alerts id = some a) (hfired : a.state = .fired)
    (hb : (checks.final s mid).store.alerts id = some b) (harmed : b.state = .armed) :
    ∃ run ∈ mid, SeesBack run a := by
  let P : CheckerState → Prop := fun s =>
    ∃ c, s.store.alerts id = some c ∧ c.state = .fired ∧ SameTerms c a
  have hstart : P s := ⟨a, ha, hfired, rfl, rfl, rfl⟩
  -- An alert that is fired stays so until a run re-arms it: that run is the crossing.
  have hend : ¬P (checks.final s mid) := by
    rintro ⟨c, hc, hstate, -⟩
    rw [hb] at hc
    rw [← Option.some.inj hc, harmed] at hstate
    exact absurd hstate (by decide)
  obtain ⟨pre, run, post, rfl, -, hleg, ⟨c, hc, hstate, hsym, hdir, hthr⟩, hnot⟩ :=
    System.Run.exists_crossing hr hstart hend
  refine ⟨run, by simp, ?_⟩
  obtain ⟨c', d, hstep, hafter, -⟩ := checks_step hleg hc
  have hterms := hstep.sameTerms
  cases hstep with
  | same => exact absurd ⟨c, hafter, hstate, hsym, hdir, hthr⟩ hnot
  | rearmed price _ back => exact ⟨_, hsym ▸ price, hdir ▸ hthr ▸ back⟩
  | answered delivered price harmed' =>
    rw [hstate] at harmed'
    exact absurd harmed' (by decide)

/-- **Only a delivered message moves an alert to `fired`.** -/
theorem delivers_of_fired {s : CheckerState} {run : CheckRun} (hleg : checks.legal s run) {id : ℕ}
    {a a' : PriceAlert} (ha : s.store.alerts id = some a)
    (ha' : (checks.next s run).store.alerts id = some a') (harmed : a.state = .armed)
    (hfired : a'.state = .fired) : Delivers s run id := by
  obtain ⟨a'', d, hstep, hafter, hout⟩ := checks_step hleg ha
  obtain rfl : a' = a'' := Option.some.inj (ha'.symm.trans hafter)
  cases hstep with
  | same =>
    rw [harmed] at hfired
    exact absurd hfired (by decide)
  | rearmed => exact absurd hfired (by simp)
  | @answered priceUsd delivered =>
    cases delivered with
    | false =>
      rw [show (afterSend a run.startedAt false).state = a.state from rfl, harmed] at hfired
      exact absurd hfired (by decide)
    | true =>
      have hmem : deliveryOf a priceUsd run.startedAt true ∈
          (checks.out s run).filter (·.alertId = id) := by
        rw [hout]
        exact List.mem_singleton_self _
      obtain ⟨hd, hid⟩ := List.mem_filter.mp hmem
      exact ⟨_, hd, of_decide_eq_true hid, rfl⟩

/-- **The promise to a chat about one alert**, over any sequence of runs. Its delivered
messages come from runs at least 15 minutes apart, and between two of them a run saw the
price back past the threshold by the buffer, as doubles compute it, which is half a percent up to
a part in `2 ^ 52` of the threshold; each is sent at a price that meets the condition; and nothing
but a delivered message moves the alert to `fired`. -/
theorem alert_deliveries {s : CheckerState} {runs : List CheckRun} (hr : checks.Run s runs)
    (id : ℕ) :
    (((checks.outputs s runs).filter fun d => d.alertId = id ∧ d.delivered = true).Pairwise
      fun d d' => d.attemptedAt + alertCooldownMs ≤ d'.attemptedAt) ∧
    (∀ pre first mid second post, runs = pre ++ first :: mid ++ second :: post →
      Delivers (checks.final s pre) first id →
      Delivers (checks.final s (pre ++ first :: mid)) second id →
      ∃ a, (checks.final s pre).store.alerts id = some a ∧ (∃ run ∈ mid, SeesBack run a) ∧
        (2 ^ (-1020 : ℤ) ≤ a.threshold →
          |rearmLevel a.direction a.threshold - a.threshold * exactFactor a.direction| ≤
            a.threshold / 2 ^ 52)) ∧
    (∀ pre run post, runs = pre ++ run :: post →
      (∀ d ∈ checks.out (checks.final s pre) run, d.alertId = id → d.delivered = true →
        d.attemptedAt = run.startedAt ∧ run.prices.get? d.symbol = some d.priceUsd ∧
          isConditionMet d.direction d.threshold d.priceUsd) ∧
      ∀ a a', (checks.final s pre).store.alerts id = some a →
        (checks.final s (pre ++ [run])).store.alerts id = some a' →
        a.state = .armed → a'.state = .fired → Delivers (checks.final s pre) run id) := by
  refine ⟨deliveries_apart hr id, ?_, ?_⟩
  · rintro pre first mid second post rfl ⟨d, hd, rfl, hdel⟩ ⟨d', hd', hid, -⟩
    rw [System.run_append, System.run_append] at hr
    obtain ⟨⟨-, hleg, hmid⟩, hleg', -⟩ := hr
    obtain ⟨a, priceUsd, ha, -, -, -, -, -, hafter⟩ := mem_out hleg hd
    obtain ⟨b, priceUsd', hb, harmed, -⟩ := mem_out hleg' hd'
    rw [hdel] at hafter
    rw [hid, System.final_append, System.final_cons] at hb
    obtain ⟨run, hrun, hback⟩ := exists_seesBack hmid hafter rfl hb harmed
    exact ⟨a, ha, ⟨run, hrun, hback⟩, rearmLevel_near a.direction⟩
  · rintro pre run post rfl
    rw [System.run_append] at hr
    obtain ⟨-, hleg, -⟩ := hr
    refine ⟨fun d hd _ _ => ?_, fun a a' ha ha' harmed hfired => ?_⟩
    · obtain ⟨a, priceUsd, -, -, price, met, -, heq, -⟩ := mem_out hleg hd
      rw [heq]
      exact ⟨rfl, price, met⟩
    · rw [System.final_append] at ha'
      exact delivers_of_fired hleg ha ha' harmed hfired

/-! An alert that is told twice, with the price back in between. -/

/-- One armed alert about bitcoin. -/
def alertOn (direction : AlertDirection) (threshold : ℚ) : AlertStore where
  alerts id :=
    if id = 1 then some ⟨1, "c", "btc", direction, threshold, .armed, none, none, none, 0⟩
    else none
  keyed id a h := by
    split_ifs at h with hid
    rw [← Option.some.inj h, hid]

/-- One armed alert: bitcoin above 100 dollars. -/
def oneAlert : AlertStore := alertOn .above 100

/-- A run at some minute, and the price it sees. -/
def runAt (minute : ℤ) (priceUsd : ℚ) : CheckRun where
  startedAt := minutes minute
  ids := [1]
  prices := InsertionMap.ofList [("btc", priceUsd)]
  env _ := ⟨0, .delivered, true⟩

theorem alert_deliveries_twice :
    let runs := [runAt 0 100, runAt 1 99, runAt 14 101, runAt 15 101]
    let messages := (checks.outputs ⟨oneAlert, 0⟩ runs).filter fun d =>
      d.alertId = 1 ∧ d.delivered = true
    messages.length = 2 ∧
      messages.Pairwise fun d d' => d.attemptedAt + alertCooldownMs ≤ d'.attemptedAt :=
  ⟨by decide +kernel, (alert_deliveries (by decide +kernel) 1).1⟩

/-! ### A last bit -/

/-- The run sees the price of an alert back past its threshold by half a percent, exactly. -/
def SeesHalfPercent (run : CheckRun) (alert : PriceAlert) : Prop :=
  ∃ priceUsd, run.prices.get? alert.symbol = some priceUsd ∧
    match alert.direction with
    | .above => priceUsd ≤ alert.threshold * exactFactor .above
    | .below => alert.threshold * exactFactor .below ≤ priceUsd

/-- An alert below 200 is told at 200, and told again 15 minutes later. In between the price was
`200.99999999999997`, the double below 201. -/
def lastBitRuns : List CheckRun := [runAt 0 200, runAt 1 (201 - 1 / 2 ^ 45), runAt 15 199]

theorem deliveries_not_always_half_percent_apart :
    ¬∀ (s : CheckerState) (runs : List CheckRun) (id : ℕ), checks.Run s runs →
      ∀ pre first mid second post, runs = pre ++ first :: mid ++ second :: post →
        Delivers (checks.final s pre) first id →
        Delivers (checks.final s (pre ++ first :: mid)) second id →
        ∀ a, (checks.final s pre).store.alerts id = some a → 0 < a.threshold →
          ∃ run ∈ mid, SeesHalfPercent run a := by
  intro h
  obtain ⟨run, hrun, priceUsd, hprice, hback⟩ :=
    h ⟨alertOn .below 200, 0⟩ lastBitRuns 1 (by decide +kernel) [] (runAt 0 200)
      [runAt 1 (201 - 1 / 2 ^ 45)] (runAt 15 199) [] rfl (by decide +kernel) (by decide +kernel)
      _ rfl (by norm_num)
  obtain rfl := List.mem_singleton.mp hrun
  obtain rfl := Option.some.inj hprice
  revert hback
  decide +kernel

end PriceAlerts

end CryptoZaloBot
