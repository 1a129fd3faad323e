import CryptoZaloBot.PriceAlerts.Ids
import CryptoZaloBot.Signals.RunLock

/-!
# Checks under the run lock

The endpoint of the check can be called while an earlier call is still at work, and chats
create, delete and list their alerts all the time. `checkPriceAlerts` reads the clock, takes
the run lock of `CryptoZaloBot.RunLocks`, works through the alerts call by call to Redis, and
gives the lock back. Here all of this is interleaved
(`CryptoZaloBot.PriceAlerts.lockedServing`).

A check works on *copies*: the alerts as it loaded them. What an alert is said to be is
therefore said of each of its live copies (`CryptoZaloBot.PriceAlerts.Copy`): the stored one,
and those of the check that is inside its time to live. There is one such check at most, so
that a turn that writes leaves no other copy behind
(`CryptoZaloBot.PriceAlerts.Copy.eq_of_written`).

A check that outlived its lock could work beside the next one. As long as none does
(`CryptoZaloBot.PriceAlerts.timelyServing`),
`CryptoZaloBot.PriceAlerts.locked_deliveries` is the promise of
`CryptoZaloBot.PriceAlerts.alert_deliveries` for every such interleaving, of calls that start
in any order: messages about one alert are a cooldown apart, with the price back in between.
-/

namespace CryptoZaloBot

namespace PriceAlerts

open RunLocks (RunLock)
open Lease (Phase)

/-! ### What a check tells -/

/-- What can be seen of a check: a notification that was answered, or an alert armed again. -/
inductive CheckNews where
  | told (delivery : AlertDelivery)
  | rearmed (id : ℕ) (priceUsd : ℚ)
  deriving DecidableEq

/-- What a check tells while it processes an alert. -/
def checkNews (alert : PriceAlert) (answer : AlertAnswer) : List CheckNews :=
  match answer.priceUsd with
  | none => []
  | some priceUsd =>
    if evaluateAlert alert priceUsd answer.now = .rearm then [.rearmed alert.id priceUsd]
    else ((processAlert alert priceUsd answer.now answer.env { outcome := .healthy }).attempt.map
      CheckNews.told).toList

/-- **What one turn of a check can be**: the alert it writes back, if it does, and what it
tells. -/
inductive CheckTurn (alert : PriceAlert) (now : ℤ) : Option PriceAlert → List CheckNews → Prop
  /-- No price, nothing due, no send budget left, or a send that threw. -/
  | quiet : CheckTurn alert now none []
  | rearmed {priceUsd : ℚ} (state : alert.state = .fired)
      (back : isBackPast alert.direction alert.threshold priceUsd) :
      CheckTurn alert now (some { alert with state := .armed }) [.rearmed alert.id priceUsd]
  | told {priceUsd : ℚ} (delivered : Bool) (state : alert.state = .armed)
      (met : isConditionMet alert.direction alert.threshold priceUsd)
      (cooled : ∀ t ∈ alert.lastFiredAt, t + alertCooldownMs ≤ now) :
      CheckTurn alert now (some (afterSend alert now delivered))
        [.told (deliveryOf alert priceUsd now delivered)]

theorem checkTurn (alert : PriceAlert) (answer : AlertAnswer) :
    CheckTurn alert answer.now (checkWrite alert answer) (checkNews alert answer) := by
  rw [checkWrite, checkNews]
  cases answer.priceUsd with
  | none => exact .quiet
  | some priceUsd =>
    simp only [Option.bind_some, processAlert]
    cases he : evaluateAlert alert priceUsd answer.now with
    | none => exact .quiet
    | rearm =>
      obtain ⟨state, back⟩ := evaluateAlert_eq_rearm he
      exact .rearmed state back
    | fire =>
      obtain ⟨state, met, cooled⟩ := evaluateAlert_eq_fire he
      dsimp only
      by_cases hbudget : runSendBudgetMs < answer.env.elapsedMs
      · rw [if_pos hbudget]
        exact .quiet
      · rw [if_neg hbudget]
        cases answer.env.send with
        | threw => exact .quiet
        | delivered => exact .told true state met cooled
        | refused => exact .told false state met cooled

theorem CheckTurn.id_eq {alert a : PriceAlert} {now : ℤ} {news : List CheckNews}
    (h : CheckTurn alert now (some a) news) : a.id = alert.id := by
  cases h with
  | rearmed => rfl
  | told delivered => cases delivered <;> rfl

/-! ### The endpoint -/

/-- The service, the run locks, and when each call of the endpoint started. -/
structure LockedServer where
  server : AlertServer
  locks : RunLocks.State
  startedAt : ℕ → Option ℤ

inductive LockedEvent where
  /-- A command of a chat arrives, or a command or check makes its next call to Redis. -/
  | serves (e : AlertEvent)
  /-- The endpoint is called, and reads the clock. -/
  | starts (i : ℕ)
  | acquires (i : ℕ)
  /-- The check is over, or was broken off: the lock is given back. -/
  | ends (i : ℕ)
  /-- Time passes, an entry expires, or the other check uses its lock. -/
  | passes (e : RunLocks.Event)

/-- Not a call for the lock of this check. -/
def Foreign : RunLocks.Event → Prop
  | .acquire lock _ => lock ≠ .priceAlerts
  | .release lock _ => lock ≠ .priceAlerts
  | _ => True

instance : DecidablePred Foreign
  | .acquire lock _ => inferInstanceAs (Decidable (lock ≠ .priceAlerts))
  | .release lock _ => inferInstanceAs (Decidable (lock ≠ .priceAlerts))
  | .expire _ => .isTrue trivial
  | .tick _ => .isTrue trivial

/-- A command is put in its place. -/
def AlertServer.put (s : AlertServer) (i : ℕ) (command : AlertCommand) : AlertServer :=
  { s with commands := Function.update s.commands i command }

/-- The token of a call, one for each. -/
abbrev Tokens := ℕ → String

/-- **The endpoint over time**: calls of it under the run lock, between the commands of the
chats. -/
def lockedServing (token : Tokens) : System LockedServer LockedEvent CheckNews where
  legal s e :=
    match e with
    | .serves (.arrives i command) =>
      alertServing.legal s.server (.arrives i command) ∧ command ≠ .runCheck ∧
        s.startedAt i = none
    | .serves (.advances i answer) =>
      alertServing.legal s.server (.advances i answer) ∧ ∀ t ∈ s.startedAt i, answer.now = t
    | .starts i => s.startedAt i = none ∧ s.server.commands i = .idle
    | .acquires i =>
      (s.startedAt i).isSome ∧ RunLocks.system.legal s.locks (.acquire .priceAlerts (token i))
    | .ends i => ∃ since, s.locks.phase .priceAlerts (token i) = .holding since
    | .passes e => RunLocks.system.legal s.locks e ∧ Foreign e
  next s e :=
    match e with
    | .serves e => { s with server := alertServing.next s.server e }
    | .starts i =>
      { s with startedAt := Function.update s.startedAt i (some s.locks.redis.now) }
    | .acquires i =>
      { s with
        locks := RunLocks.system.next s.locks (.acquire .priceAlerts (token i))
        server :=
          if (RunLock.priceAlerts.acquireRunLock (token i) s.locks.redis).2.isSome then
            s.server.put i .runCheck
          else s.server }
    | .ends i =>
      { s with
        locks := RunLocks.system.next s.locks (.release .priceAlerts (token i))
        server := s.server.put i (.answered .checked) }
    | .passes e => { s with locks := RunLocks.system.next s.locks e }
  out s e :=
    match e with
    | .serves (.advances i answer) =>
      match s.server.commands i with
      | .checking (alert :: _) => checkNews alert answer
      | _ => []
    | _ => []

/-- Nothing is stored, and nobody has asked for anything. -/
def newLockedServer (now : ℤ) : LockedServer where
  server := newAlertServer
  locks := RunLocks.start now
  startedAt _ := none

variable {token : Tokens} {s : LockedServer} {e : LockedEvent} {i j id : ℕ}

variable (token) in
/-- **The call is inside its time to live**: it took the lock, and the lock has not expired. -/
def Inside (s : LockedServer) (i : ℕ) : Prop :=
  ∃ since, s.locks.phase .priceAlerts (token i) = .holding since ∧
    s.locks.redis.now < since + RunLock.priceAlerts.ttlSeconds * 1000

variable (token) in
/-- **No check outlives its lock.** -/
def Timely (s : LockedServer) : LockedEvent → Prop
  | .serves (.advances i _) => (s.startedAt i).isSome → Inside token s i
  | _ => True

/-! ### What every run keeps -/

/-- A check at work. -/
def AlertCommand.Checks : AlertCommand → Prop
  | runCheck => True
  | checkListed _ => True
  | checking _ => True
  | _ => False

/-- **What every run keeps**: the checks are calls of the endpoint, a check loads each alert
once, and the lock is in order. -/
structure Guarded (s : LockedServer) : Prop where
  sound : Sound s.server
  lock : Lease.Valid (RunLock.priceAlerts.ttlSeconds * 1000) (s.locks.lease .priceAlerts)
  called : ∀ i, (s.server.commands i).Checks → (s.startedAt i).isSome
  slots : ∀ i, (s.startedAt i).isSome → s.server.commands i = .idle ∨
    (s.server.commands i).Checks ∨ s.server.commands i = .answered .checked
  listed : ∀ i ids, s.server.commands i = .checkListed ids → ids.Nodup
  loaded : ∀ i alerts, s.server.commands i = .checking alerts → (alerts.map PriceAlert.id).Nodup

theorem guarded_newLockedServer (now : ℤ) : Guarded (newLockedServer now) where
  sound := sound_newAlertServer
  lock := Lease.valid_start _ now
  called _ h := h.elim
  slots _ _ := .inl rfl
  listed _ _ h := by cases h
  loaded _ _ h := by cases h

theorem Effect.of_check {command command' : AlertCommand} {r : AlertRedis}
    (hpending : command'.pending = none) (htargets : command'.targets = []) :
    Effect r command r command' :=
  .read rfl hpending (by simp [htargets])

/-- **To the service, every event is a call of some command, or nothing.** -/
theorem serverStep (hleg : (lockedServing token).legal s e) :
    ((lockedServing token).next s e).server = s.server ∨
      ∃ i r command, ((lockedServing token).next s e).server = s.server.after i r command ∧
        Effect s.server.redis (s.server.commands i) r command := by
  cases e with
  | serves e =>
    have hserving : alertServing.legal s.server e := by
      cases e with
      | arrives => exact hleg.1
      | advances => exact hleg.1
    exact .inr (exists_effect hserving)
  | starts i => exact .inl rfl
  | acquires i =>
    simp only [lockedServing]
    split_ifs
    · exact .inr ⟨i, _, .runCheck, rfl, .of_check rfl rfl⟩
    · exact .inl rfl
  | ends i => exact .inr ⟨i, _, .answered .checked, rfl, .of_check rfl rfl⟩
  | passes e => exact .inl rfl

theorem sound_next (hs : Sound s.server) (hleg : (lockedServing token).legal s e) :
    Sound ((lockedServing token).next s e).server := by
  rcases serverStep hleg with heq | ⟨i, r, command, heq, heffect⟩
  · rwa [heq]
  · rw [heq]
    exact hs.after heffect

theorem Settled.serverStep (h : Settled id s.server) (hleg : (lockedServing token).legal s e) :
    Settled id ((lockedServing token).next s e).server := by
  rcases PriceAlerts.serverStep hleg with heq | ⟨i, r, command, heq, heffect⟩
  · rwa [heq]
  · rw [heq]
    exact h.after heffect

/-- What an event of the locks leaves is in order. -/
theorem valid_lock {locks : RunLocks.State} {e : RunLocks.Event}
    (h : Lease.Valid (RunLock.priceAlerts.ttlSeconds * 1000) (locks.lease .priceAlerts))
    (hleg : RunLocks.system.legal locks e) :
    Lease.Valid (RunLock.priceAlerts.ttlSeconds * 1000)
      ((RunLocks.system.next locks e).lease .priceAlerts) := by
  obtain ⟨hrun, hfinal⟩ := RunLocks.lease_step .priceAlerts hleg
  rw [hfinal]
  exact hrun.invariant (Lease.keeps_valid _) h

theorem valid_lock_next (hg : Guarded s) (hleg : (lockedServing token).legal s e) :
    Lease.Valid (RunLock.priceAlerts.ttlSeconds * 1000)
      (((lockedServing token).next s e).locks.lease .priceAlerts) := by
  cases e with
  | serves => exact hg.lock
  | starts => exact hg.lock
  | acquires => exact valid_lock hg.lock hleg.2
  | ends i => exact valid_lock (e := .release .priceAlerts (token i)) hg.lock trivial
  | passes => exact valid_lock hg.lock hleg.1

/-- **What a command is after an event.** -/
inductive CommandStep (token : Tokens) (s : LockedServer) (e : LockedEvent) (j : ℕ) : Prop
  | same (command : ((lockedServing token).next s e).server.commands j = s.server.commands j)
  /-- A command of a chat arrives. -/
  | arrives {command : AlertCommand} (event : e = .serves (.arrives j command))
      (starts : command.starts) (chat : command ≠ .runCheck) (free : s.startedAt j = none)
      (command : ((lockedServing token).next s e).server.commands j = command)
  | advances {answer : AlertAnswer} (event : e = .serves (.advances j answer))
      (command : ((lockedServing token).next s e).server.commands j =
        (advance s.server.redis answer (s.server.commands j)).2)
  | acquired (event : e = .acquires j)
      (command : ((lockedServing token).next s e).server.commands j = .runCheck)
  | ended (event : e = .ends j)
      (command : ((lockedServing token).next s e).server.commands j = .answered .checked)

theorem commandStep (hleg : (lockedServing token).legal s e) (j : ℕ) :
    CommandStep token s e j := by
  cases e with
  | serves e =>
    cases e with
    | arrives i command =>
      rcases eq_or_ne j i with rfl | hne
      · exact .arrives rfl hleg.1.2 hleg.2.1 hleg.2.2 (Function.update_self ..)
      · exact .same (Function.update_of_ne hne ..)
    | advances i answer =>
      rcases eq_or_ne j i with rfl | hne
      · exact .advances rfl (Function.update_self ..)
      · exact .same (Function.update_of_ne hne ..)
  | starts i => exact .same rfl
  | acquires i =>
    by_cases htaken : (RunLock.priceAlerts.acquireRunLock (token i) s.locks.redis).2.isSome
    · have hserver : ((lockedServing token).next s (.acquires i)).server =
          s.server.put i .runCheck := if_pos htaken
      rcases eq_or_ne j i with rfl | hne
      · exact .acquired rfl (by rw [hserver]; exact Function.update_self ..)
      · exact .same (by rw [hserver]; exact Function.update_of_ne hne ..)
    · have hserver : ((lockedServing token).next s (.acquires i)).server = s.server :=
        if_neg htaken
      exact .same (by rw [hserver])
  | ends i =>
    rcases eq_or_ne j i with rfl | hne
    · exact .ended rfl (Function.update_self ..)
    · exact .same (Function.update_of_ne hne ..)
  | passes e => exact .same rfl

theorem startedAt_next (h : (s.startedAt j).isSome) (hleg : (lockedServing token).legal s e) :
    ((lockedServing token).next s e).startedAt j = s.startedAt j := by
  cases e with
  | starts i =>
    have hne : j ≠ i := by
      rintro rfl
      rw [hleg.1] at h
      cases h
    exact Function.update_of_ne hne ..
  | _ => rfl

/-- A check goes on as a check, or is answered. -/
theorem checks_advance {r : AlertRedis} {answer : AlertAnswer} {command : AlertCommand}
    (h : command.Checks) : (advance r answer command).2.Checks ∨
      (advance r answer command).2 = .answered .checked := by
  have hstep := goesOn r answer command
  generalize (advance r answer command).2 = command' at hstep
  cases hstep with
  | noneToCheck => exact .inr rfl
  | toCheck => exact .inl trivial
  | loaded => exact .inl trivial
  | processed => exact .inl trivial
  | checked => exact .inr rfl
  | _ => exact h.elim

theorem checks_of_advance {r : AlertRedis} {answer : AlertAnswer} {command : AlertCommand}
    (h : (advance r answer command).2.Checks) : command.Checks := by
  have hstep := goesOn r answer command
  generalize (advance r answer command).2 = command' at h hstep
  cases hstep with
  | toCheck => trivial
  | loaded => trivial
  | processed => trivial
  | _ => exact h.elim

theorem Guarded.next (hg : Guarded s) (hleg : (lockedServing token).legal s e) :
    Guarded ((lockedServing token).next s e) where
  sound := sound_next hg.sound hleg
  lock := valid_lock_next hg hleg
  called j h := by
    have hstep := commandStep hleg j
    have hcalled (h : (s.startedAt j).isSome) :
        (((lockedServing token).next s e).startedAt j).isSome := by rwa [startedAt_next h hleg]
    cases hstep with
    | same command => exact hcalled (hg.called j (command ▸ h))
    | arrives _ starts chat _ command =>
      rw [command] at h
      revert starts chat h
      cases ‹AlertCommand› <;> simp [AlertCommand.starts, AlertCommand.Checks]
    | advances _ command => exact hcalled (hg.called j (checks_of_advance (command ▸ h)))
    | acquired event =>
      rw [event] at hleg
      exact hcalled hleg.1
    | ended _ command =>
      rw [command] at h
      exact h.elim
  slots j h := by
    cases commandStep hleg j with
    | same command =>
      rw [command]
      by_cases hstarted : (s.startedAt j).isSome
      · exact hg.slots j hstarted
      · -- The endpoint is called just now, in a free place.
        cases e with
        | starts i =>
          rcases eq_or_ne j i with rfl | hne
          · exact .inl hleg.2
          · have hsame : ((lockedServing token).next s (.starts i)).startedAt j = s.startedAt j :=
              Function.update_of_ne hne ..
            exact absurd (hsame ▸ h) hstarted
        | _ => exact absurd h hstarted
    | arrives event _ _ free =>
      rw [event] at h
      rw [show ((lockedServing token).next s (.serves _)).startedAt j = none from free] at h
      cases h
    | @advances answer event command =>
      rw [event] at h
      rw [command]
      rcases hg.slots j h with hidle | hchecks | hover
      · exact .inl (by rw [hidle]; rfl)
      · exact .inr (checks_advance hchecks)
      · exact .inr (.inr (by rw [hover]; rfl))
    | acquired _ command => exact .inr (.inl (by rw [command]; trivial))
    | ended _ command => exact .inr (.inr command)
  listed j ids h := by
    cases commandStep hleg j with
    | same command => exact hg.listed j ids (command ▸ h)
    | arrives _ starts _ _ command =>
      rw [command.symm.trans h] at starts
      exact starts.elim
    | advances event command =>
      obtain ⟨hcheck, rfl⟩ := checkListed_of_advance (command.symm.trans h)
      rw [event] at hleg
      exact (hleg.1 s.server.redis.allIds (by rw [hcheck]; rfl)).1
    | acquired _ command => cases command.symm.trans h
    | ended _ command => cases command.symm.trans h
  loaded j alerts h := by
    cases commandStep hleg j with
    | same command => exact hg.loaded j alerts (command ▸ h)
    | arrives _ starts _ _ command =>
      rw [command.symm.trans h] at starts
      exact starts.elim
    | advances _ command =>
      rcases checking_of_advance (command.symm.trans h) with ⟨ids, hlisted, rfl⟩ | ⟨alert, hcheck⟩
      · exact nodup_listAll _ (hg.listed j ids hlisted)
      · exact (List.nodup_cons.mp (hg.loaded j _ hcheck)).2
    | acquired _ command => cases command.symm.trans h
    | ended _ command => cases command.symm.trans h

/-! ### Copies of an alert -/

variable (token) in
/-- **A live copy of an alert**: what is stored, or what the check that is inside its time to
live has loaded and not come to yet. -/
inductive Copy (s : LockedServer) (id : ℕ) (a : PriceAlert) : Prop
  | stored (stored : s.server.redis.alerts.alerts id = some a)
  | loaded {i : ℕ} {alerts : List PriceAlert} (command : s.server.commands i = .checking alerts)
      (inside : Inside token s i) (mem : a ∈ alerts) (id_eq : a.id = id)

/-- Two checks inside their time to live are one. -/
theorem Guarded.eq_of_inside (hg : Guarded s) (htoken : Function.Injective token)
    (hi : Inside token s i) (hj : Inside token s j) : i = j := by
  obtain ⟨_, hheld, hnow⟩ := hi
  obtain ⟨_, hheld', hnow'⟩ := hj
  exact htoken (hg.lock.eq_of_inside hheld hnow hheld' hnow')

/-- What does not concern the lock of this check leaves its calls where they are. -/
theorem phase_of_foreign (locks : RunLocks.State) {e : RunLocks.Event} (h : Foreign e) :
    (RunLocks.system.next locks e).phase .priceAlerts = locks.phase .priceAlerts ∧
      locks.redis.now ≤ (RunLocks.system.next locks e).redis.now := by
  cases e with
  | acquire lock own =>
    have hne : RunLock.priceAlerts ≠ lock := fun heq => h heq.symm
    cases hentry : locks.redis.entries lock.key with
    | none =>
      simp only [RunLocks.system, RunLocks.acquireRunLock_none hentry, RunLocks.State.setPhase,
        Function.update_of_ne hne, le_refl, and_self]
    | some entry =>
      simp only [RunLocks.system, RunLocks.acquireRunLock_some hentry, RunLocks.State.setPhase,
        Function.update_of_ne hne, le_refl, and_self]
  | release lock own =>
    have hne : RunLock.priceAlerts ≠ lock := fun heq => h heq.symm
    simp only [RunLocks.system, RunLocks.State.setPhase, RunLocks.releaseRunLock_now,
      Function.update_of_ne hne, le_refl, and_self]
  | expire key => exact ⟨rfl, le_rfl⟩
  | tick ms => exact ⟨rfl, by simp [RunLocks.system]⟩

/-- The phases of the calls after one of them asked for the lock or gave it back. -/
theorem phase_acquires (token : Tokens) (s : LockedServer) (i : ℕ) :
    ∃ phase, ((lockedServing token).next s (.acquires i)).locks.phase .priceAlerts =
        Function.update (s.locks.phase .priceAlerts) (token i) phase ∧
      ((lockedServing token).next s (.acquires i)).locks.redis.now = s.locks.redis.now ∧
      ((RunLock.priceAlerts.acquireRunLock (token i) s.locks.redis).2 = none →
        phase = .refused) := by
  simp only [lockedServing]
  cases hentry : s.locks.redis.entries RunLock.priceAlerts.key with
  | none =>
    simp only [RunLocks.system, RunLocks.acquireRunLock_none hentry, RunLocks.State.setPhase,
      Function.update_self]
    exact ⟨_, rfl, trivial, fun h => (Option.some_ne_none _ h).elim⟩
  | some entry =>
    simp only [RunLocks.system, RunLocks.acquireRunLock_some hentry, RunLocks.State.setPhase,
      Function.update_self]
    exact ⟨_, rfl, trivial, fun _ => rfl⟩

theorem phase_ends (token : Tokens) (s : LockedServer) (i : ℕ) :
    ((lockedServing token).next s (.ends i)).locks.phase .priceAlerts =
        Function.update (s.locks.phase .priceAlerts) (token i)
          (s.locks.phase .priceAlerts (token i)).release ∧
      ((lockedServing token).next s (.ends i)).locks.redis.now = s.locks.redis.now := by
  simp only [lockedServing, RunLocks.system, RunLocks.State.setPhase, Function.update_self,
    RunLocks.releaseRunLock_now, and_self]

/-- **A check that has loaded its alerts was inside its time to live before, too.** -/
theorem inside_of_next (htoken : Function.Injective token)
    (hleg : (lockedServing token).legal s e) {alerts : List PriceAlert}
    (hchecking : ((lockedServing token).next s e).server.commands j = .checking alerts)
    (h : Inside token ((lockedServing token).next s e) j) : Inside token s j := by
  obtain ⟨since, hheld, hnow⟩ := h
  cases e with
  | serves => exact ⟨since, hheld, hnow⟩
  | starts => exact ⟨since, hheld, hnow⟩
  | acquires i =>
    obtain ⟨phase, hphase, hclock, hrefused⟩ := phase_acquires token s i
    rw [hphase] at hheld
    rw [hclock] at hnow
    rcases eq_or_ne j i with rfl | hne
    · rw [Function.update_self] at hheld
      cases htaken : (RunLock.priceAlerts.acquireRunLock (token j) s.locks.redis).2 with
      | none =>
        rw [hrefused htaken] at hheld
        cases hheld
      | some taken =>
        -- A check that got the lock has loaded nothing yet.
        simp only [lockedServing, htaken, Option.isSome_some, if_true, AlertServer.put,
          Function.update_self] at hchecking
        cases hchecking
    · rw [Function.update_of_ne (htoken.ne hne)] at hheld
      exact ⟨since, hheld, hnow⟩
  | ends i =>
    obtain ⟨hphase, hclock⟩ := phase_ends token s i
    rw [hphase] at hheld
    rw [hclock] at hnow
    rcases eq_or_ne j i with rfl | hne
    · rw [Function.update_self] at hheld
      exact absurd hheld (Lease.Phase.release_ne_holding _ since)
    · rw [Function.update_of_ne (htoken.ne hne)] at hheld
      exact ⟨since, hheld, hnow⟩
  | passes e =>
    obtain ⟨hphase, hclock⟩ := phase_of_foreign s.locks hleg.2
    exact ⟨since, hphase ▸ hheld, hclock.trans_lt hnow⟩

/-- A call of no check leaves an alert as it is, or removes it. -/
theorem Effect.stored {server : AlertServer} {r : AlertRedis} {command : AlertCommand}
    (h : Effect server.redis (server.commands i) r command) (hid : Settled id server)
    {a : PriceAlert} (ha : r.alerts.alerts id = some a) :
    server.redis.alerts.alerts id = some a ∨
      ∃ alert alerts, server.commands i = .checking (alert :: alerts) := by
  cases h with
  | read same => exact .inl (same ▸ ha)
  | issued _ left => exact .inl (by rwa [left] at ha)
  | @created alert _ _ pending left =>
    have hne : id ≠ alert.id := (hid.2 i alert (by rw [pending]; rfl)).symm
    rw [left] at ha
    exact .inl ((Function.update_of_ne hne ..).symm.trans ha)
  | @deleted _ alert _ left =>
    rw [left] at ha
    rcases eq_or_ne id alert.id with rfl | hne
    · cases (Function.update_self ..).symm.trans ha
    · exact .inl ((Function.update_of_ne hne ..).symm.trans ha)
  | @written alert _ alerts loaded => exact .inr ⟨alert, alerts, loaded⟩

/-- What a check stores when it has processed an alert. -/
theorem stored_of_turn {store : AlertStore} {written : Option PriceAlert} {a : PriceAlert}
    (h : ((written.map store.updateState).getD store).alerts id = some a) :
    (written = some a ∧ a.id = id) ∨
      (store.alerts id = some a ∧ ∀ b ∈ written, b.id ≠ id) := by
  cases written with
  | none => exact .inr ⟨h, by simp⟩
  | some b =>
    change (store.updateState b).alerts id = some a at h
    rcases eq_or_ne b.id id with hid | hid
    · by_cases hstored : (store.alerts b.id).isSome
      · rw [AlertStore.alerts_updateState hstored, hid, Function.update_self] at h
        obtain rfl := Option.some.inj h
        exact .inl ⟨rfl, hid⟩
      · -- The alert was deleted: nothing is written, and nothing is stored.
        rw [AlertStore.updateState, if_neg hstored, ← hid] at h
        rw [h] at hstored
        exact absurd rfl hstored
    · refine .inr ⟨?_, fun c hc => Option.some.inj hc ▸ hid⟩
      rw [AlertStore.updateState] at h
      split_ifs at h
      · exact (Function.update_of_ne hid.symm ..).symm.trans h
      · exact h

/-- **A turn of a check**: it comes to an alert it has loaded. -/
structure Turn (s : LockedServer) (e : LockedEvent) where
  i : ℕ
  answer : AlertAnswer
  alert : PriceAlert
  rest : List PriceAlert
  event : e = .serves (.advances i answer)
  checking : s.server.commands i = .checking (alert :: rest)

section Turns

variable (t : Turn s e)

theorem Turn.out_eq : (lockedServing token).out s e = checkNews t.alert t.answer := by
  obtain ⟨i, answer, alert, rest, rfl, hchecking⟩ := t
  simp only [lockedServing, hchecking]

variable (token) in
/-- What tells something is a turn. -/
theorem exists_turn {news : CheckNews} (h : news ∈ (lockedServing token).out s e) :
    ∃ t : Turn s e, news ∈ checkNews t.alert t.answer := by
  cases e with
  | serves e =>
    cases e with
    | arrives => cases h
    | advances i answer =>
      simp only [lockedServing] at h
      split at h
      next alert rest hchecking => exact ⟨⟨i, answer, alert, rest, rfl, hchecking⟩, h⟩
      · cases h
  | _ => cases h

theorem Turn.alerts_next :
    ((lockedServing token).next s e).server.redis.alerts =
      ((checkWrite t.alert t.answer).map s.server.redis.alerts.updateState).getD
        s.server.redis.alerts := by
  obtain ⟨i, answer, alert, rest, rfl, hchecking⟩ := t
  simp only [lockedServing, alertServing, hchecking, advance]
  cases checkWrite alert answer <;> rfl

theorem Turn.commands_next :
    ((lockedServing token).next s e).server.commands t.i = .checking t.rest := by
  obtain ⟨i, answer, alert, rest, rfl, hchecking⟩ := t
  simp only [lockedServing, alertServing, Function.update_self, hchecking, advance]

theorem Turn.inside (hg : Guarded s) (htimely : Timely token s e) : Inside token s t.i := by
  have hcalled : (s.startedAt t.i).isSome := hg.called t.i (by rw [t.checking]; trivial)
  obtain ⟨i, answer, alert, rest, rfl, hchecking⟩ := t
  exact htimely hcalled

/-- **What is a copy was one before, or was written just now.** -/
theorem Copy.of_next (htoken : Function.Injective token)
    (hleg : (lockedServing token).legal s e) (hid : Settled id s.server) {a : PriceAlert}
    (h : Copy token ((lockedServing token).next s e) id a) :
    Copy token s id a ∨
      ∃ t : Turn s e, t.alert.id = id ∧ checkWrite t.alert t.answer = some a := by
  cases h with
  | stored hstored =>
    by_cases hturn : Nonempty (Turn s e)
    · obtain ⟨t⟩ := hturn
      rw [t.alerts_next] at hstored
      rcases stored_of_turn hstored with ⟨hwritten, rfl⟩ | ⟨hbefore, -⟩
      · have hturn := checkTurn t.alert t.answer
        rw [hwritten] at hturn
        exact .inr ⟨t, hturn.id_eq.symm, hwritten⟩
      · exact .inl (.stored hbefore)
    · left
      cases e with
      | serves e =>
        cases e with
        | arrives i command => exact .stored hstored
        | advances i answer =>
          rcases (effect_advances hleg.1).stored hid hstored with hbefore | ⟨alert, rest, hchecking⟩
          · exact .stored hbefore
          · exact absurd ⟨⟨i, answer, alert, rest, rfl, hchecking⟩⟩ hturn
      | starts i => exact .stored hstored
      | acquires i =>
        simp only [lockedServing] at hstored
        split_ifs at hstored
        · exact .stored hstored
        · exact .stored hstored
      | ends i => exact .stored hstored
      | passes e => exact .stored hstored
  | @loaded j alerts command inside mem id_eq =>
    left
    have hinside := inside_of_next htoken hleg command inside
    cases commandStep hleg j with
    | same hsame => exact .loaded (hsame.symm.trans command) hinside mem id_eq
    | arrives _ starts _ _ hcommand =>
      rw [hcommand.symm.trans command] at starts
      exact starts.elim
    | advances _ hcommand =>
      rcases checking_of_advance (hcommand.symm.trans command) with
        ⟨ids, -, rfl⟩ | ⟨alert, hchecking⟩
      · exact .stored (id_eq ▸ (mem_listAll.mp mem).2)
      · exact .loaded hchecking hinside (List.mem_cons_of_mem _ mem) id_eq
    | acquired _ hcommand => cases hcommand.symm.trans command
    | ended _ hcommand => cases hcommand.symm.trans command

/-- **A turn that writes leaves no other copy behind.** -/
theorem Copy.eq_of_written (hg : Guarded s) (htoken : Function.Injective token)
    (hleg : (lockedServing token).legal s e) (htimely : Timely token s e) {a b : PriceAlert}
    (hwritten : checkWrite t.alert t.answer = some b)
    (h : Copy token ((lockedServing token).next s e) t.alert.id a) : a = b := by
  have hturn := checkTurn t.alert t.answer
  rw [hwritten] at hturn
  cases h with
  | stored hstored =>
    rw [t.alerts_next] at hstored
    rcases stored_of_turn hstored with ⟨heq, -⟩ | ⟨-, hother⟩
    · exact Option.some.inj (heq.symm.trans hwritten)
    · exact absurd hturn.id_eq (hother b hwritten)
  | @loaded j alerts command inside mem id_eq =>
    -- The one check at work has come to this alert, and has no other copy of it.
    have hinside := inside_of_next htoken hleg command inside
    obtain rfl := hg.eq_of_inside htoken (t.inside hg htimely) hinside
    have hrest : t.rest = alerts :=
      AlertCommand.checking.inj (t.commands_next.symm.trans command)
    have hnodup := hg.loaded t.i _ t.checking
    rw [List.map_cons, List.nodup_cons, hrest] at hnodup
    exact absurd (List.mem_map.mpr ⟨a, mem, id_eq⟩) hnodup.1

/-- What a check comes to is a live copy. -/
theorem Turn.copy (hg : Guarded s) (htimely : Timely token s e) :
    Copy token s t.alert.id t.alert :=
  .loaded t.checking (t.inside hg htimely) List.mem_cons_self rfl

/-- The id of what a check comes to is settled. -/
theorem Turn.settled (hg : Guarded s) : Settled t.alert.id s.server := by
  refine (hg.sound.targets t.i (t.alert.id, t.alert.chatId) ?_).settled
  rw [t.checking]
  exact List.mem_cons_self

end Turns

/-! ### Messages about one alert -/

variable (token) in
/-- **What all live copies of an alert are**, and no alert will be stored under its id again. -/
structure Everywhere (Q : PriceAlert → Prop) (id : ℕ) (s : LockedServer) : Prop where
  settled : Settled id s.server
  copies : ∀ a, Copy token s id a → Q a

/-- It stays so, but for a turn that writes something else. -/
theorem Everywhere.next {Q : PriceAlert → Prop} (h : Everywhere token Q id s)
    (htoken : Function.Injective token) (hleg : (lockedServing token).legal s e)
    (hturn : ∀ t : Turn s e, t.alert.id = id →
      ∀ b ∈ checkWrite t.alert t.answer, Q b) :
    Everywhere token Q id ((lockedServing token).next s e) where
  settled := h.settled.serverStep hleg
  copies a ha := by
    rcases ha.of_next htoken hleg h.settled with hbefore | ⟨t, hid, hwritten⟩
    · exact h.copies a hbefore
    · exact hturn t hid a hwritten

/-- After a turn that writes, all copies are what it wrote. -/
theorem everywhere_of_written {Q : PriceAlert → Prop} (hg : Guarded s)
    (htoken : Function.Injective token) (hleg : (lockedServing token).legal s e)
    (htimely : Timely token s e) (t : Turn s e) {b : PriceAlert}
    (hwritten : checkWrite t.alert t.answer = some b) (hb : Q b) :
    Everywhere token Q t.alert.id ((lockedServing token).next s e) where
  settled := (t.settled hg).serverStep hleg
  copies a ha := by
    rw [ha.eq_of_written t hg htoken hleg htimely hwritten]
    exact hb

/-- The alert fired at the time, or later. -/
def FiredAt (time : ℤ) (a : PriceAlert) : Prop := ∃ t ∈ a.lastFiredAt, time ≤ t

/-- The alert has fired, and waits for the price to come back. -/
def Waits (d : AlertDelivery) (a : PriceAlert) : Prop :=
  a.state = .fired ∧ a.direction = d.direction ∧ a.threshold = d.threshold

/-- What a turn tells, and what it writes. -/
theorem Turn.told (t : Turn s e) {d : AlertDelivery} (hd : .told d ∈ checkNews t.alert t.answer) :
    t.alert.state = .armed ∧ (∀ x ∈ t.alert.lastFiredAt, x + alertCooldownMs ≤ d.attemptedAt) ∧
      isConditionMet d.direction d.threshold d.priceUsd ∧ d.alertId = t.alert.id ∧
      d.direction = t.alert.direction ∧ d.threshold = t.alert.threshold ∧
      checkWrite t.alert t.answer = some (afterSend t.alert d.attemptedAt d.delivered) := by
  have hturn := checkTurn t.alert t.answer
  revert hd hturn
  generalize checkNews t.alert t.answer = news, checkWrite t.alert t.answer = written
  intro hd hturn
  cases hturn with
  | quiet => cases hd
  | rearmed => cases List.mem_singleton.mp hd
  | told delivered state met cooled =>
    obtain rfl := CheckNews.told.inj (List.mem_singleton.mp hd)
    exact ⟨state, cooled, met, rfl, rfl, rfl, rfl⟩

/-- **The firing time of an alert never goes back.** -/
theorem Everywhere.firedAt {time : ℤ} (h : Everywhere token (FiredAt time) id s)
    (hg : Guarded s) (htoken : Function.Injective token)
    (hleg : (lockedServing token).legal s e) (htimely : Timely token s e) :
    Everywhere token (FiredAt time) id ((lockedServing token).next s e) := by
  refine h.next htoken hleg fun t hid b hb => ?_
  obtain ⟨x, hx, hle⟩ := h.copies t.alert (hid ▸ t.copy hg htimely)
  have hturn := checkTurn t.alert t.answer
  rw [Option.mem_def.mp hb] at hturn
  revert hturn
  generalize checkNews t.alert t.answer = news
  intro hturn
  cases hturn with
  | rearmed => exact ⟨x, hx, hle⟩
  | told delivered _ _ cooled =>
    cases delivered with
    | true =>
      have hcooled := cooled x hx
      have hpos : 0 ≤ alertCooldownMs := by decide
      exact ⟨t.answer.now, rfl, by omega⟩
    | false => exact ⟨x, hx, hle⟩

/-- **An alert that waits is armed again by a price that is back**, and by nothing else. -/
theorem Everywhere.waits {d : AlertDelivery} (h : Everywhere token (Waits d) id s)
    (hg : Guarded s) (htoken : Function.Injective token)
    (hleg : (lockedServing token).legal s e) (htimely : Timely token s e) :
    Everywhere token (Waits d) id ((lockedServing token).next s e) ∨
      ∃ priceUsd, .rearmed id priceUsd ∈ (lockedServing token).out s e ∧
        isBackPast d.direction d.threshold priceUsd := by
  by_cases hrearmed : ∃ t : Turn s e, t.alert.id = id ∧ ∃ b, checkWrite t.alert t.answer = some b
  · obtain ⟨t, rfl, b, hb⟩ := hrearmed
    obtain ⟨hfired, hdirection, hthreshold⟩ := h.copies t.alert (t.copy hg htimely)
    have hturn := checkTurn t.alert t.answer
    rw [hb] at hturn
    rw [t.out_eq]
    revert hturn
    generalize checkNews t.alert t.answer = news
    intro hturn
    cases hturn with
    | @rearmed priceUsd _ back =>
      exact .inr ⟨priceUsd, List.mem_singleton_self _, hdirection ▸ hthreshold ▸ back⟩
    | told _ state => cases state.symm.trans hfired
  · refine .inl (h.next htoken hleg fun t hid b hb => ?_)
    exact absurd ⟨t, hid, b, hb⟩ hrearmed

variable (token) in
/-- **The runs in which no check outlives its lock.** -/
abbrev timelyServing : System LockedServer LockedEvent CheckNews :=
  (lockedServing token).restrict (Timely token)

theorem keeps_guarded : (timelyServing token).Keeps Guarded :=
  fun _ _ hg hleg => hg.next hleg.1

theorem keeps_firedAt (htoken : Function.Injective token) (time : ℤ) (id : ℕ) :
    (timelyServing token).Keeps fun s => Guarded s ∧ Everywhere token (FiredAt time) id s := by
  rintro s e ⟨hg, hfired⟩ ⟨hleg, htimely⟩
  exact ⟨hg.next hleg, hfired.firedAt hg htoken hleg htimely⟩

/-- A delivered message leaves the alert fired, wherever it is. -/
theorem everywhere_of_told (hg : Guarded s) (htoken : Function.Injective token)
    (hleg : (timelyServing token).legal s e) {d : AlertDelivery}
    (hd : .told d ∈ (timelyServing token).out s e) (hdelivered : d.delivered = true) :
    Everywhere token (FiredAt d.attemptedAt) d.alertId ((timelyServing token).next s e) ∧
      Everywhere token (Waits d) d.alertId ((timelyServing token).next s e) := by
  obtain ⟨t, ht⟩ := exists_turn token hd
  obtain ⟨-, -, -, hid, hdirection, hthreshold, hwritten⟩ := t.told ht
  rw [hdelivered] at hwritten
  rw [hid]
  exact ⟨everywhere_of_written hg htoken hleg.1 hleg.2 t hwritten ⟨_, rfl, le_rfl⟩,
    everywhere_of_written hg htoken hleg.1 hleg.2 t hwritten
      ⟨rfl, hdirection.symm, hthreshold.symm⟩⟩

instance (s : RunLocks.State) (lock : RunLock) (own : String) :
    Decidable (∃ since, s.phase lock own = .holding since) :=
  match s.phase lock own with
  | .holding since => .isTrue ⟨since, rfl⟩
  | .idle => .isFalse nofun
  | .refused => .isFalse nofun
  | .released _ => .isFalse nofun

instance (s : LockedServer) (i : ℕ) : Decidable (Inside token s i) :=
  match h : s.locks.phase .priceAlerts (token i) with
  | .holding since =>
    decidable_of_iff (s.locks.redis.now < since + RunLock.priceAlerts.ttlSeconds * 1000)
      ⟨fun hnow => ⟨since, h, hnow⟩, fun ⟨_, hheld, hnow⟩ => by
        rw [h] at hheld
        rwa [Phase.holding.inj hheld]⟩
  | .idle => .isFalse fun ⟨_, hheld, _⟩ => nomatch h.symm.trans hheld
  | .refused => .isFalse fun ⟨_, hheld, _⟩ => nomatch h.symm.trans hheld
  | .released _ => .isFalse fun ⟨_, hheld, _⟩ => nomatch h.symm.trans hheld

instance (s : LockedServer) : ∀ e, Decidable (Timely token s e)
  | .serves (.advances i _) =>
    inferInstanceAs (Decidable ((s.startedAt i).isSome → Inside token s i))
  | .serves (.arrives ..) => .isTrue trivial
  | .starts _ => .isTrue trivial
  | .acquires _ => .isTrue trivial
  | .ends _ => .isTrue trivial
  | .passes _ => .isTrue trivial

instance (s : RunLocks.State) : ∀ e, Decidable (RunLocks.system.legal s e)
  | .acquire lock own => inferInstanceAs (Decidable (s.phase lock own = .idle))
  | .release _ _ => .isTrue trivial
  | .expire key =>
    inferInstanceAs (Decidable (∃ entry ∈ s.redis.entries key, entry.2 ≤ s.redis.now))
  | .tick _ => .isTrue trivial

instance (s : LockedServer) : ∀ e, Decidable ((lockedServing token).legal s e)
  | .serves (.arrives i command) =>
    inferInstanceAs (Decidable (alertServing.legal s.server (.arrives i command) ∧
      command ≠ .runCheck ∧ s.startedAt i = none))
  | .serves (.advances i answer) =>
    inferInstanceAs (Decidable (alertServing.legal s.server (.advances i answer) ∧
      ∀ t ∈ s.startedAt i, answer.now = t))
  | .starts i => inferInstanceAs (Decidable (s.startedAt i = none ∧ s.server.commands i = .idle))
  | .acquires i => inferInstanceAs (Decidable ((s.startedAt i).isSome ∧
      RunLocks.system.legal s.locks (.acquire .priceAlerts (token i))))
  | .ends i =>
    inferInstanceAs (Decidable (∃ since, s.locks.phase .priceAlerts (token i) = .holding since))
  | .passes e => inferInstanceAs (Decidable (RunLocks.system.legal s.locks e ∧ Foreign e))

/-- A token for each call. -/
def strokes : Tokens := fun i => String.ofList (List.replicate i 'x')

theorem strokes_injective : Function.Injective strokes := by
  intro i j h
  have hlength := congrArg (fun s : String => s.toList.length) h
  simpa [strokes] using hlength

/-- A chat asks for an alert. -/
def creation : List LockedEvent :=
  [.serves (.arrives 0 (.create ⟨"c", "btc", .above, 100⟩)), .serves (.advances 0 {}),
    .serves (.advances 0 { priceUsd := some 50 }), .serves (.advances 0 {})]

/-- The call `i` loads the alert. -/
def loading (i : ℕ) (now : ℤ) : List LockedEvent :=
  [.serves (.advances i { ids := [1], now }), .serves (.advances i { now })]

/-- The call `i` comes to the alert, at a price. -/
def turnAt (i : ℕ) (now : ℤ) (priceUsd : ℚ) : LockedEvent :=
  .serves (.advances i { priceUsd := some priceUsd, now })

/-- The call 2 finds the lock taken. -/
def firstCalls : List LockedEvent :=
  creation ++ [.starts 1, .acquires 1, .starts 2, .acquires 2] ++ loading 1 0

/-- Fifteen minutes later, the call 3 sees the price back, and the call 4 loads the alert. -/
def laterCalls : List LockedEvent :=
  [.ends 1, .passes (.tick 900000), .starts 3, .acquires 3] ++ loading 3 900000 ++
    [turnAt 3 900000 99, .ends 3, .starts 4, .acquires 4] ++ loading 4 900000

theorem laterCalls_run : (timelyServing strokes).Run (newLockedServer 0)
    (firstCalls ++ turnAt 1 0 100 :: laterCalls ++ turnAt 4 900000 100 :: []) := by
  decide +kernel

end PriceAlerts

end CryptoZaloBot
