import CryptoZaloBot.PriceAlerts.Check

/-!
# Retries and the backoff

A send that fails leaves the alert armed, so the next run tries again; after three
failures in a row the alert waits five minutes between its attempts. Both are decided by
two fields of the stored record, `consecutiveFailures` and `lastFailedAt`, which share it
with the cooldown and with the re-arming.

`CryptoZaloBot.PriceAlerts.attempts_iff` says when a run attempts a send, and
`CryptoZaloBot.PriceAlerts.exists_stored_streak` that the stored counter is the streak one
reads off the attempts themselves, whatever happened in the runs without one.
`CryptoZaloBot.PriceAlerts.alert_backoff` is what follows for a sequence of runs.
-/

namespace CryptoZaloBot

namespace PriceAlerts

/-! ### When a run attempts a send -/

/-- The run attempts a send about an alert. -/
def Attempts (s : CheckerState) (run : CheckRun) (id : ℕ) : Prop :=
  ∃ d ∈ checks.out s run, d.alertId = id

instance (s : CheckerState) (run : CheckRun) (id : ℕ) : Decidable (Attempts s run id) :=
  inferInstanceAs (Decidable (∃ d ∈ checks.out s run, d.alertId = id))

/-- **A send about the alert is due**: it is armed, its condition holds at a price the run
looked up, and its cooldown is over. -/
def Due (run : CheckRun) (alert : PriceAlert) : Prop :=
  alert.state = .armed ∧
    (∃ priceUsd, run.prices.get? alert.symbol = some priceUsd ∧
      isConditionMet alert.direction alert.threshold priceUsd) ∧
    ∀ t ∈ alert.lastFiredAt, t + alertCooldownMs ≤ run.startedAt

/-- The alert is not waiting out a backoff. -/
def NotBackingOff (run : CheckRun) (alert : PriceAlert) : Prop :=
  alertFailuresBeforeBackoff ≤ alert.consecutiveFailures.getD 0 →
    ∀ t ∈ alert.lastFailedAt, t + alertRetryBackoffMs ≤ run.startedAt

/-- The send budget is not spent, and the send is answered: `ZaloService.sendTextMessage`
turns every error into `false`. -/
def CanSend (run : CheckRun) (id : ℕ) : Prop :=
  (run.env id).elapsedMs ≤ runSendBudgetMs ∧ (run.env id).send ≠ .threw

theorem isSome_attempt_processAlert {alert : PriceAlert} {priceUsd : ℚ} {now : ℤ}
    {env : AlertEnv} {summary : AlertRunSummary} :
    (processAlert alert priceUsd now env summary).attempt.isSome ↔
      evaluateAlert alert priceUsd now = .fire ∧ env.elapsedMs ≤ runSendBudgetMs ∧
        env.send ≠ .threw := by
  rw [processAlert]
  cases evaluateAlert alert priceUsd now with
  | none => simp
  | rearm => simp
  | fire =>
    dsimp only
    by_cases hbudget : runSendBudgetMs < env.elapsedMs
    · rw [if_pos hbudget]
      simp [not_le.mpr hbudget]
    · rw [if_neg hbudget]
      cases env.send with
      | threw => simp
      | delivered => simp [not_lt.mp hbudget]
      | refused => simp [not_lt.mp hbudget]

/-- What one turn of the loop attempts does not depend on what the loop carries along. -/
theorem attempts_checkAlert (run : CheckRun) (s : CheckState) (alert : PriceAlert) :
    ∃ d : Option AlertDelivery, (checkAlert run s alert).attempts = s.attempts ++ d.toList ∧
      (∀ e ∈ d, e.alertId = alert.id) ∧
      (d.isSome ↔ Due run alert ∧ NotBackingOff run alert ∧ CanSend run alert.id) := by
  rw [checkAlert]
  cases price : run.prices.get? alert.symbol with
  | none => exact ⟨none, by simp, by simp, by simp [Due, price]⟩
  | some priceUsd =>
    refine ⟨_, rfl, fun e he => ?_, ?_⟩
    · have hstep := alertStep_processAlert run price
        { s.summary with evaluated := s.summary.evaluated + 1 }
      rw [Option.mem_def] at he
      rw [he] at hstep
      exact hstep.alertId_eq
    · rw [isSome_attempt_processAlert, evaluateAlert_eq_fire_iff, Due, price]
      constructor
      · rintro ⟨⟨state, met, cooled, backoff⟩, hsend⟩
        exact ⟨⟨state, ⟨priceUsd, rfl, met⟩, cooled⟩, backoff, hsend⟩
      · rintro ⟨⟨state, ⟨priceUsd', heq, met⟩, cooled⟩, backoff, hsend⟩
        obtain rfl := Option.some.inj heq
        exact ⟨⟨state, met, cooled, backoff⟩, hsend⟩

theorem mem_attempts_foldl (run : CheckRun) {alerts : List PriceAlert} {s : CheckState} {id : ℕ} :
    (∃ d ∈ (alerts.foldl (checkAlert run) s).attempts, d.alertId = id) ↔
      (∃ d ∈ s.attempts, d.alertId = id) ∨
        ∃ a ∈ alerts, a.id = id ∧ Due run a ∧ NotBackingOff run a ∧ CanSend run a.id := by
  induction alerts generalizing s with
  | nil => simp
  | cons a alerts ih =>
    obtain ⟨d, hattempts, hid, hsome⟩ := attempts_checkAlert run s a
    -- The first alert adds its own attempt to those the loop started with.
    have hfirst : (∃ e ∈ (checkAlert run s a).attempts, e.alertId = id) ↔
        (∃ e ∈ s.attempts, e.alertId = id) ∨
          (a.id = id ∧ Due run a ∧ NotBackingOff run a ∧ CanSend run a.id) := by
      rw [hattempts, ← hsome]
      cases d with
      | none => simp
      | some d => simp [hid d rfl, or_and_right, exists_or]
    rw [List.foldl_cons, ih, hfirst, or_assoc]
    simp

/-- **When a run attempts a send about an alert**: it lists it, a send is due, no backoff
holds it up, and there is send budget left. -/
theorem attempts_iff {s : CheckerState} {run : CheckRun} {id : ℕ} {a : PriceAlert}
    (ha : s.store.alerts id = some a) :
    Attempts s run id ↔ id ∈ run.ids ∧ Due run a ∧ NotBackingOff run a ∧ CanSend run id := by
  obtain rfl := s.store.keyed id a ha
  refine (mem_attempts_foldl run).trans ?_
  constructor
  · rintro (⟨d, hd, -⟩ | ⟨b, hb, hid, hdue⟩)
    · simp at hd
    · obtain ⟨hmem, hstored⟩ := mem_listAll.mp hb
      obtain rfl : b = a := by
        rw [hid, ha] at hstored
        exact (Option.some.inj hstored).symm
      exact ⟨hmem, hdue⟩
  · rintro ⟨hmem, hdue⟩
    exact Or.inr ⟨a, mem_listAll.mpr ⟨hmem, ha⟩, rfl, hdue⟩

/-! ### The streak -/

/-- **The failures in a row** after some attempts, started from a count. -/
def failuresInARow (start : ℕ) (attempts : List AlertDelivery) : ℕ :=
  attempts.foldl (fun n d => if d.delivered then 0 else n + 1) start

/-- The attempts of a run about one alert. -/
def attemptsAbout (id : ℕ) (s : CheckerState) (runs : List CheckRun) : List AlertDelivery :=
  (checks.outputs s runs).filter (·.alertId = id)

theorem failuresInARow_append (start : ℕ) (attempts attempts' : List AlertDelivery) :
    failuresInARow start (attempts ++ attempts') =
      failuresInARow (failuresInARow start attempts) attempts' :=
  List.foldl_append

/-- One step counts its own attempt. -/
theorem AlertStep.failures_eq {run : CheckRun} {a a' : PriceAlert} {d : Option AlertDelivery}
    (h : AlertStep run a a' d) :
    a'.consecutiveFailures.getD 0 =
      failuresInARow (a.consecutiveFailures.getD 0) d.toList := by
  cases h with
  | same => rfl
  | rearmed => rfl
  | answered delivered => cases delivered <;> rfl

/-- A step adds at most one failure. -/
theorem AlertStep.failures_le {run : CheckRun} {a a' : PriceAlert} {d : Option AlertDelivery}
    (h : AlertStep run a a' d) :
    a'.consecutiveFailures.getD 0 ≤ a.consecutiveFailures.getD 0 + 1 := by
  cases h with
  | same => exact Nat.le_succ _
  | rearmed => exact Nat.le_succ _
  | answered delivered =>
    cases delivered with
    | true => exact Nat.zero_le _
    | false => exact le_refl _

/-- **The stored counter is the streak of the attempts**, re-armings, missing prices and
deferrals or not. -/
theorem exists_stored_streak {s : CheckerState} {runs : List CheckRun} (hr : checks.Run s runs)
    {id : ℕ} {a : PriceAlert} (ha : s.store.alerts id = some a) :
    ∃ b, (checks.final s runs).store.alerts id = some b ∧
      b.consecutiveFailures.getD 0 =
        failuresInARow (a.consecutiveFailures.getD 0) (attemptsAbout id s runs) := by
  refine System.Run.history (h := [])
    (J := fun s (h : List AlertDelivery) => ∃ b, s.store.alerts id = some b ∧
      b.consecutiveFailures.getD 0 =
        failuresInARow (a.consecutiveFailures.getD 0) (h.filter (·.alertId = id)))
    ?_ ⟨a, ha, rfl⟩ hr
  rintro s h run ⟨b, hb, hcount⟩ hleg
  obtain ⟨b', d, hstep, hafter, hout⟩ := checks_step hleg hb
  refine ⟨b', hafter, ?_⟩
  rw [List.filter_append, hout, failuresInARow_append, ← hcount]
  exact hstep.failures_eq

/-! ### Between two attempts -/

/-- Two records agree on when the alert last fired and on its failures. -/
def SameCounters (a b : PriceAlert) : Prop :=
  a.lastFiredAt = b.lastFiredAt ∧ a.lastFailedAt = b.lastFailedAt ∧
    a.consecutiveFailures = b.consecutiveFailures

theorem AlertStep.sameCounters {run : CheckRun} {a a' : PriceAlert}
    (h : AlertStep run a a' none) : SameCounters a' a := by
  cases h with
  | same => exact ⟨rfl, rfl, rfl⟩
  | rearmed => exact ⟨rfl, rfl, rfl⟩

/-- **Runs without an attempt leave the counters alone.** -/
theorem exists_stored_sameCounters {s : CheckerState} {runs : List CheckRun}
    (hr : checks.Run s runs) {id : ℕ} {a : PriceAlert} (ha : s.store.alerts id = some a)
    (hnone : attemptsAbout id s runs = []) :
    ∃ b, (checks.final s runs).store.alerts id = some b ∧ SameCounters b a := by
  refine System.Run.history (h := [])
    (J := fun s (h : List AlertDelivery) => h.filter (·.alertId = id) = [] →
      ∃ b, s.store.alerts id = some b ∧ SameCounters b a)
    ?_ (fun _ => ⟨a, ha, rfl, rfl, rfl⟩) hr hnone
  intro s h run hstored hleg hquiet
  rw [List.filter_append, List.append_eq_nil_iff] at hquiet
  obtain ⟨b, hb, hfired, hfailed, hcount⟩ := hstored hquiet.1
  obtain ⟨b', d, hstep, hafter, hout⟩ := checks_step hleg hb
  obtain rfl : d = none := Option.toList_eq_nil_iff.mp (hout.symm.trans hquiet.2)
  obtain ⟨hfired', hfailed', hcount'⟩ := hstep.sameCounters
  exact ⟨b', hafter, hfired'.trans hfired, hfailed'.trans hfailed, hcount'.trans hcount⟩

/-- **What an attempt leaves behind**: the time it was made, as that of a message, or as
that of one more failure. -/
theorem exists_stored_of_attempts {s : CheckerState} {run : CheckRun} {id : ℕ} {a : PriceAlert}
    (hleg : checks.legal s run) (ha : s.store.alerts id = some a) (h : Attempts s run id) :
    ∃ b, (checks.next s run).store.alerts id = some b ∧
      (b.lastFiredAt = some run.startedAt ∨
        b.lastFailedAt = some run.startedAt ∧
          b.consecutiveFailures.getD 0 = a.consecutiveFailures.getD 0 + 1) := by
  obtain ⟨d, hd, rfl⟩ := h
  obtain ⟨a', priceUsd, ha', -, -, -, -, -, hafter⟩ := mem_out hleg hd
  obtain rfl : a' = a := Option.some.inj (ha'.symm.trans ha)
  refine ⟨_, hafter, ?_⟩
  cases d.delivered with
  | true => exact Or.inl rfl
  | false => exact Or.inr ⟨rfl, rfl⟩

/-- **From the third failure on, two attempts in a row are a backoff apart.** Had the first
one been delivered, they would even be a cooldown apart. -/
theorem attempts_apart {s : CheckerState} {first second : CheckRun} {mid : List CheckRun}
    {id : ℕ} {a : PriceAlert} (hleg : checks.legal s first)
    (hmid : checks.Run (checks.next s first) mid) (ha : s.store.alerts id = some a)
    (hfirst : Attempts s first id) (hquiet : attemptsAbout id (checks.next s first) mid = [])
    (hsecond : Attempts (checks.final (checks.next s first) mid) second id)
    (hstreak : alertFailuresBeforeBackoff ≤ a.consecutiveFailures.getD 0 + 1) :
    first.startedAt + alertRetryBackoffMs ≤ second.startedAt := by
  obtain ⟨b, hb, hleft⟩ := exists_stored_of_attempts hleg ha hfirst
  obtain ⟨c, hc, hfired, hfailed, hcount⟩ := exists_stored_sameCounters hmid hb hquiet
  obtain ⟨-, ⟨-, -, hcooled⟩, hbackoff, -⟩ := (attempts_iff hc).mp hsecond
  rcases hleft with hat | ⟨hat, hfailures⟩
  · have hcooldown := hcooled first.startedAt (hfired.trans hat)
    have hle : alertRetryBackoffMs ≤ alertCooldownMs := by decide
    omega
  · refine hbackoff ?_ first.startedAt (hfailed.trans hat)
    rw [hcount, hfailures]
    exact hstreak

/-- **The streak ends with a message**, and with nothing else. -/
theorem failures_eq_zero_iff {s : CheckerState} {run : CheckRun} {id : ℕ} {a a' : PriceAlert}
    (hleg : checks.legal s run) (ha : s.store.alerts id = some a)
    (ha' : (checks.next s run).store.alerts id = some a') :
    a'.consecutiveFailures.getD 0 = 0 ↔
      Delivers s run id ∨ a.consecutiveFailures.getD 0 = 0 ∧ ¬Attempts s run id := by
  obtain ⟨a'', d, hstep, hafter, hout⟩ := checks_step hleg ha
  obtain rfl : a' = a'' := Option.some.inj (ha'.symm.trans hafter)
  have hmem : ∀ e, e ∈ checks.out s run ∧ e.alertId = id ↔ e ∈ d := by
    intro e
    have hlist : e ∈ d ↔ e ∈ d.toList := Option.mem_toList.symm
    rw [hlist, ← hout, List.mem_filter, decide_eq_true_iff]
  have hdelivers : Delivers s run id ↔ ∃ e ∈ d, e.delivered = true := by
    simp only [Delivers, ← hmem, and_assoc]
  have hattempts : Attempts s run id ↔ ∃ e, e ∈ d := by
    simp only [Attempts, ← hmem]
  rw [hdelivers, hattempts, hstep.failures_eq]
  cases d with
  | none => simp [failuresInARow]
  | some d =>
    cases hd : d.delivered with
    | true => simp [failuresInARow, hd]
    | false => simp [failuresInARow, hd]

/-! ### Sequences of runs -/

section Runs

variable {s : CheckerState} {id : ℕ} {alert : PriceAlert}

/-- The failures in a row about an alert after some runs. -/
def streakAfter (id : ℕ) (s : CheckerState) (alert : PriceAlert) (runs : List CheckRun) : ℕ :=
  failuresInARow (alert.consecutiveFailures.getD 0) (attemptsAbout id s runs)

/-- **A due send is attempted** while fewer than three have failed. -/
theorem attempts_of_streak_lt {pre post : List CheckRun} {run : CheckRun} {a : PriceAlert}
    (hr : checks.Run s (pre ++ run :: post)) (halert : s.store.alerts id = some alert)
    (ha : (checks.final s pre).store.alerts id = some a)
    (hfew : streakAfter id s alert pre < alertFailuresBeforeBackoff) (hid : id ∈ run.ids)
    (hdue : Due run a) (hsend : CanSend run id) : Attempts (checks.final s pre) run id := by
  rw [System.run_append] at hr
  obtain ⟨b, hb, hcount⟩ := exists_stored_streak hr.1 halert
  obtain rfl : b = a := Option.some.inj (hb.symm.trans ha)
  refine (attempts_iff ha).mpr ⟨hid, hdue, fun hmany => ?_, hsend⟩
  rw [hcount] at hmany
  exact absurd hmany (not_le.mpr hfew)

/-- **What the record counts**, before a run and after it. -/
theorem exists_stored_around {pre post : List CheckRun} {run : CheckRun}
    (hr : checks.Run s (pre ++ run :: post)) (halert : s.store.alerts id = some alert) :
    ∃ a a', (checks.final s pre).store.alerts id = some a ∧
      (checks.final s (pre ++ [run])).store.alerts id = some a' ∧
      a.consecutiveFailures.getD 0 = streakAfter id s alert pre ∧
      a'.consecutiveFailures.getD 0 = streakAfter id s alert (pre ++ [run]) := by
  obtain ⟨hpre, hleg, -⟩ := (System.run_append _ _ _ _).mp hr
  have hone : checks.Run s (pre ++ [run]) :=
    (System.run_append _ _ _ _).mpr ⟨hpre, hleg, trivial⟩
  obtain ⟨a, ha, hcount⟩ := exists_stored_streak hpre halert
  obtain ⟨a', ha', hcount'⟩ := exists_stored_streak hone halert
  exact ⟨a, a', ha, ha', hcount, hcount'⟩

/-- **Two attempts in a row**, once three have failed, are a backoff apart. -/
theorem attempts_apart_of_streak {pre mid post : List CheckRun} {first second : CheckRun}
    (hr : checks.Run s (pre ++ first :: (mid ++ second :: post)))
    (halert : s.store.alerts id = some alert) (hfirst : Attempts (checks.final s pre) first id)
    (hquiet : attemptsAbout id (checks.final s (pre ++ [first])) mid = [])
    (hsecond : Attempts (checks.final s (pre ++ first :: mid)) second id)
    (hmany : alertFailuresBeforeBackoff ≤ streakAfter id s alert pre ∨
      alertFailuresBeforeBackoff ≤ streakAfter id s alert (pre ++ [first])) :
    first.startedAt + alertRetryBackoffMs ≤ second.startedAt := by
  obtain ⟨a, a', ha, ha', hcount, hcount'⟩ := exists_stored_around hr halert
  obtain ⟨-, hleg, hrest⟩ := (System.run_append _ _ _ _).mp hr
  rw [System.run_append] at hrest
  rw [System.final_append] at hquiet hsecond ha'
  refine attempts_apart hleg hrest.1 ha hfirst hquiet hsecond ?_
  rcases hmany with hbefore | hafter
  · rw [hcount]
    exact hbefore.trans (Nat.le_succ _)
  · obtain ⟨b, d, hstep, hstored, -⟩ := checks_step hleg ha
    obtain rfl : a' = b := Option.some.inj (ha'.symm.trans hstored)
    exact hafter.trans (hcount'.ge.trans hstep.failures_le)

end Runs

/-- **Retries and the backoff of one alert**, over any sequence of runs. While fewer than
three sends in a row have failed, every run in which a send is due and the budget is not
spent attempts it. Once three in a row have failed, two attempts with none in between come
from runs at least five minutes apart. The streak, which is what the record counts, is over
exactly when a message is delivered. -/
theorem alert_backoff {s : CheckerState} {runs : List CheckRun} (hr : checks.Run s runs)
    {id : ℕ} {alert : PriceAlert} (halert : s.store.alerts id = some alert) :
    let streak := streakAfter id s alert
    (∀ pre run post a, runs = pre ++ run :: post →
      (checks.final s pre).store.alerts id = some a → streak pre < alertFailuresBeforeBackoff →
      id ∈ run.ids → Due run a → CanSend run id → Attempts (checks.final s pre) run id) ∧
    (∀ pre first mid second post, runs = pre ++ first :: (mid ++ second :: post) →
      Attempts (checks.final s pre) first id →
      attemptsAbout id (checks.final s (pre ++ [first])) mid = [] →
      Attempts (checks.final s (pre ++ first :: mid)) second id →
      (alertFailuresBeforeBackoff ≤ streak pre ∨
        alertFailuresBeforeBackoff ≤ streak (pre ++ [first])) →
      first.startedAt + alertRetryBackoffMs ≤ second.startedAt) ∧
    (∀ pre run post, runs = pre ++ run :: post →
      ∃ a a', (checks.final s pre).store.alerts id = some a ∧
        (checks.final s (pre ++ [run])).store.alerts id = some a' ∧
        a.consecutiveFailures.getD 0 = streak pre ∧
        a'.consecutiveFailures.getD 0 = streak (pre ++ [run]) ∧
        (Delivers (checks.final s pre) run id → streak (pre ++ [run]) = 0) ∧
        (streak pre ≠ 0 → streak (pre ++ [run]) = 0 → Delivers (checks.final s pre) run id)) := by
  refine ⟨?_, ?_, ?_⟩
  · rintro pre run post a rfl ha hfew hid hdue hsend
    exact attempts_of_streak_lt hr halert ha hfew hid hdue hsend
  · rintro pre first mid second post rfl hfirst hquiet hsecond hmany
    exact attempts_apart_of_streak hr halert hfirst hquiet hsecond hmany
  · rintro pre run post rfl
    obtain ⟨a, a', ha, ha', hcount, hcount'⟩ := exists_stored_around hr halert
    obtain ⟨-, hleg, -⟩ := (System.run_append _ _ _ _).mp hr
    have hnext : (checks.next (checks.final s pre) run).store.alerts id = some a' := by
      rw [System.final_append] at ha'
      exact ha'
    have hiff := failures_eq_zero_iff hleg ha hnext
    rw [hcount, hcount'] at hiff
    refine ⟨a, a', ha, ha', hcount, hcount', fun hdel => hiff.mpr (Or.inl hdel), ?_⟩
    intro hne hzero
    exact (hiff.mp hzero).resolve_right fun h => hne h.1

/-- A run at some minute that sees the alert's price met, and whose send is refused. -/
def refusedAt (minute : ℤ) : CheckRun where
  startedAt := minutes minute
  ids := [1]
  prices := InsertionMap.ofList [("btc", 100)]
  env _ := ⟨0, .refused, true⟩

/-- Three refused sends, a minute apart; the fourth is made when the backoff is over. -/
theorem alert_backoff_refused :
    let runs := [refusedAt 0, refusedAt 1, refusedAt 2, refusedAt 3, refusedAt 6, refusedAt 7]
    (attemptsAbout 1 ⟨oneAlert, 0⟩ runs).map (·.attemptedAt) = [0, 60000, 120000, 420000] ∧
      (refusedAt 2).startedAt + alertRetryBackoffMs ≤ (refusedAt 7).startedAt := by
  refine ⟨by decide +kernel, ?_⟩
  have hr : checks.Run ⟨oneAlert, 0⟩
      [refusedAt 0, refusedAt 1, refusedAt 2, refusedAt 3, refusedAt 6, refusedAt 7] := by
    decide +kernel
  have halert : oneAlert.alerts 1 =
      some ⟨1, "c", "btc", .above, 100, .armed, none, none, none, 0⟩ := rfl
  exact (alert_backoff hr halert).2.1 [refusedAt 0, refusedAt 1] (refusedAt 2)
    [refusedAt 3, refusedAt 6] (refusedAt 7) [] rfl (by decide +kernel) (by decide +kernel)
    (by decide +kernel) (Or.inr (by decide +kernel))

end PriceAlerts

end CryptoZaloBot
