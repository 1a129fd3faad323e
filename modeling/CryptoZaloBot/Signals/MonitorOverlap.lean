import Mathlib.Data.Fintype.Basic
import Mathlib.Logic.Function.Basic
import CryptoZaloBot.Signals.Monitor

/-!
# Overlapping calls of the signals monitor

Any number of calls of `SignalsMonitorService.check` are under way here; their Redis
operations and sends come in any order (`CryptoZaloBot.Signals.overlapping`). A call alone
does what `CryptoZaloBot.Signals.check` says (`CryptoZaloBot.Signals.alone_eq_check`).

Recording an outage and taking it back are single operations, and only one of several
calls gets through. A reminder is read, sent and recorded in three steps, so that two
calls send it twice (`CryptoZaloBot.Signals.reminders_not_always_once`). And a call acts
on what it read, however long ago: an outage that it takes may be another one, and one
that it records may be over.

Calls that do not act on such old news (`CryptoZaloBot.Signals.OverlapState.Careful`) send
each message once (`CryptoZaloBot.Signals.messages_once`).
-/

namespace CryptoZaloBot

namespace Signals

/-! ### The steps of a call -/

/-- **Where a call is**: what it does next. -/
inductive CallPhase where
  /-- `getHealthAndOutage`. -/
  | reading
  /-- `claimOutage`. -/
  | claiming (lastHealthyAt : ℤ)
  | sendingDown (lastHealthyAt : ℤ)
  /-- `clearOutage`, after a `down` that failed. -/
  | givingBack
  | sendingReminder (seen : SignalsOutage) (lastHealthyAt : ℤ)
  /-- `setOutage`, after a reminder. -/
  | storing (since : ℤ)
  /-- `takeOutage`. -/
  | taking (seen : SignalsOutage) (recoveredAt : ℤ)
  | sendingRecovered (seen : SignalsOutage) (recoveredAt : ℤ) (taken : SignalsOutage)
  /-- `setOutage`, after a `recovered` that failed. -/
  | puttingBack (taken : SignalsOutage)
  | done
  deriving DecidableEq

/-- A call: its time, and where it is. -/
structure WatchCall where
  now : ℤ
  phase : CallPhase
  deriving DecidableEq

/-- What a call does after it read the last healthy run and the outage. -/
def phaseAfterRead (stamp : Option ℤ) (outage : Option SignalsOutage) (now : ℤ) : CallPhase :=
  match evaluateSignalsMonitor stamp outage now, outage with
  | some (.down lastHealthyAt _), _ => .claiming lastHealthyAt
  | some (.reminder _ lastHealthyAt _), some seen => .sendingReminder seen lastHealthyAt
  | some (.recovered _ recoveredAt _), some seen => .taking seen recoveredAt
  | _, _ => .done

/-- **One step of a call**: where it is then, the recorded outage, and the message it
sent. -/
def advance (stamp : Option ℤ) (outage : Option SignalsOutage) (now : ℤ) (delivered : Bool) :
    CallPhase → CallPhase × Option SignalsOutage × Option OwnerNotice
  | .reading => (phaseAfterRead stamp outage now, outage, none)
  | .claiming last =>
    match outage with
    | some _ => (.done, outage, none)
    | none => (.sendingDown last, some ⟨last, now⟩, none)
  | .sendingDown last =>
    (if delivered then .done else .givingBack, outage,
      some ⟨.down last (now - last), now, delivered⟩)
  | .givingBack => (.done, none, none)
  | .sendingReminder seen last =>
    (if delivered then .storing seen.since else .done, outage,
      some ⟨.reminder seen.since last (now - last), now, delivered⟩)
  | .storing since => (.done, some ⟨since, now⟩, none)
  | .taking seen recoveredAt =>
    match outage with
    | none => (.done, none, none)
    | some taken => (.sendingRecovered seen recoveredAt taken, none, none)
  | .sendingRecovered seen recoveredAt taken =>
    (if delivered then .done else .puttingBack taken, outage,
      some ⟨.recovered seen.since recoveredAt (recoveredAt - seen.since), now, delivered⟩)
  | .puttingBack taken => (.done, some taken, none)
  | .done => (.done, outage, none)

/-! ### A call alone -/

/-- The steps of a call, at most `fuel` of them, with nothing in between. -/
def runAlone (call : MonitorCall) : ℕ → CallPhase → Option SignalsOutage →
    Option SignalsOutage × Option OwnerNotice
  | 0, _, outage => (outage, none)
  | fuel + 1, phase, outage =>
    let (phase', outage', notice) :=
      advance call.lastHealthyAt outage call.now call.delivered phase
    let (outage'', notice') := runAlone call fuel phase' outage'
    (outage'', notice.or notice')

/-- **What a call can find**, and what it does then. -/
inductive ReadPhase (stamp : Option ℤ) (outage : Option SignalsOutage) (now : ℤ) :
    CallPhase → Prop
  | done : ReadPhase stamp outage now .done
  | claiming {last : ℤ} (hstamp : stamp = some last) (unknown : outage = none)
      (silent : signalsStaleMs ≤ now - last) : ReadPhase stamp outage now (.claiming last)
  | sendingReminder {last : ℤ} {seen : SignalsOutage} (hstamp : stamp = some last)
      (known : outage = some seen) (silent : signalsStaleMs ≤ now - last)
      (due : signalsReminderMs ≤ now - seen.notifiedAt) :
      ReadPhase stamp outage now (.sendingReminder seen last)
  | taking {last : ℤ} {seen : SignalsOutage} (hstamp : stamp = some last)
      (known : outage = some seen) (healthy : now - last < signalsStaleMs) :
      ReadPhase stamp outage now (.taking seen last)

theorem readPhase_phaseAfterRead (stamp : Option ℤ) (outage : Option SignalsOutage) (now : ℤ) :
    ReadPhase stamp outage now (phaseAfterRead stamp outage now) := by
  unfold phaseAfterRead
  cases stamp with
  | none => exact .done
  | some last =>
    rcases lt_or_ge (now - last) signalsStaleMs with hhealthy | hsilent
    · rw [evaluate_of_healthy hhealthy]
      cases outage with
      | none => exact .done
      | some seen => exact .taking rfl rfl hhealthy
    · cases outage with
      | none =>
        rw [evaluate_of_silent hsilent]
        exact .claiming rfl rfl hsilent
      | some seen =>
        rw [evaluate_of_known hsilent]
        by_cases hdue : signalsReminderMs ≤ now - seen.notifiedAt
        · rw [if_pos hdue]
          exact .sendingReminder rfl rfl hsilent hdue
        · rw [if_neg hdue]
          exact .done

/-- **A call alone** does what `CryptoZaloBot.Signals.check` does. -/
theorem alone_eq_check (call : MonitorCall) (outage : Option SignalsOutage) :
    runAlone call 4 .reading outage = check call outage := by
  obtain ⟨now, stamp, delivered⟩ := call
  simp only [runAlone, advance, phaseAfterRead, check]
  cases stamp with
  | none => rfl
  | some last =>
    rcases lt_or_ge (now - last) signalsStaleMs with hhealthy | hsilent
    · rw [evaluate_of_healthy hhealthy]
      cases outage with
      | none => rfl
      | some seen => cases delivered <;> rfl
    · cases outage with
      | none =>
        rw [evaluate_of_silent hsilent]
        cases delivered <;> rfl
      | some seen =>
        rw [evaluate_of_known hsilent]
        by_cases hdue : signalsReminderMs ≤ now - seen.notifiedAt
        · rw [if_pos hdue]
          cases delivered <;> rfl
        · rw [if_neg hdue]
          rfl

/-! ### Calls under way -/

/-- The last healthy run, the recorded outage, and the calls so far. -/
structure OverlapState (ι : Type) where
  stamp : Option ℤ
  outage : Option SignalsOutage
  calls : ι → Option WatchCall

def OverlapState.fresh (ι : Type) : OverlapState ι where
  stamp := none
  outage := none
  calls _ := none

inductive OverlapEvent (ι : Type) where
  /-- A healthy run of the signals check. -/
  | healthy (stamp : ℤ)
  | start (call : ι) (now : ℤ)
  /-- The next step of a call. -/
  | step (call : ι)
  deriving DecidableEq

section Overlapping

variable {ι : Type} [DecidableEq ι]

/-- The state after a call has moved on. -/
def OverlapState.moved (s : OverlapState ι) (i : ι) (now : ℤ) (phase : CallPhase)
    (outage : Option SignalsOutage) : OverlapState ι where
  stamp := s.stamp
  outage := outage
  calls := Function.update s.calls i (some ⟨now, phase⟩)

variable (ι) in
/-- **Calls whose steps come in any order**; every message is delivered. -/
def overlapping : System (OverlapState ι) (OverlapEvent ι) OwnerNotice where
  legal s
    | .healthy stamp => ∀ last ∈ s.stamp, last ≤ stamp
    | .start i _ => s.calls i = none
    | .step i => ∃ call ∈ s.calls i, call.phase ≠ .done
  next s
    | .healthy stamp => { s with stamp := some stamp }
    | .start i now => s.moved i now .reading s.outage
    | .step i =>
      match s.calls i with
      | none => s
      | some call =>
        let result := advance s.stamp s.outage call.now true call.phase
        s.moved i call.now result.1 result.2.1
  out s
    | .step i =>
      match s.calls i with
      | none => []
      | some call => (advance s.stamp s.outage call.now true call.phase).2.2.toList
    | _ => []

instance (s : OverlapState ι) : ∀ e, Decidable ((overlapping ι).legal s e)
  | .healthy stamp => inferInstanceAs (Decidable (∀ last ∈ s.stamp, last ≤ stamp))
  | .start i _ => inferInstanceAs (Decidable (s.calls i = none))
  | .step i => inferInstanceAs (Decidable (∃ call ∈ s.calls i, call.phase ≠ .done))

/-- **Each message is sent once**: two messages of one kind about one outage are
reminders, the later one for a call a reminder window later. -/
def SentOnce (n n' : OwnerNotice) : Prop :=
  n.action.kind = n'.action.kind → n.action.since = n'.action.since →
    n.action.kind = .reminder ∧ n.at_ + signalsReminderMs ≤ n'.at_

instance : DecidableRel SentOnce := fun _ _ =>
  inferInstanceAs (Decidable (_ → _ → _ ∧ _))

/-- A call and where it is. -/
def OverlapState.In (s : OverlapState ι) (i : ι) (now : ℤ) (phase : CallPhase) : Prop :=
  s.calls i = some ⟨now, phase⟩

/-! ### Old news -/

/-- The outage a call is about to record. -/
def CallPhase.claims : CallPhase → Option ℤ
  | .claiming last => some last
  | _ => none

/-- The outage whose reminder a call is about to record. -/
def CallPhase.stores : CallPhase → Option ℤ
  | .storing since => some since
  | _ => none

/-- No call is about to record an outage since `S`, or an older one. -/
def OverlapState.NoClaim (s : OverlapState ι) (S : ℤ) : Prop :=
  ∀ j, ∀ call ∈ s.calls j, ∀ last ∈ call.phase.claims, S < last

/-- No call has sent a reminder that it did not record yet. -/
def OverlapState.NoUnstored (s : OverlapState ι) : Prop :=
  ∀ j, ∀ call ∈ s.calls j, call.phase.stores = none

/-- **A call does not act on old news.** A reminder goes out while its outage is recorded,
with its last notice a reminder window back, and no other reminder is still to be
recorded. An outage that is taken is the one its call read; the healthy run came after it,
and no other call is about to record it, or a reminder. -/
def OverlapState.Careful (s : OverlapState ι) (now : ℤ) : CallPhase → Prop
  | .sendingReminder seen _ =>
    (∃ o ∈ s.outage, o.since = seen.since ∧ o.notifiedAt + signalsReminderMs ≤ now) ∧
      s.NoUnstored
  | .taking seen recoveredAt =>
    ∀ taken ∈ s.outage, taken.since = seen.since ∧ seen.since < recoveredAt ∧
      s.NoClaim seen.since ∧ s.NoUnstored
  | _ => True

omit [DecidableEq ι] in
instance [Fintype ι] (s : OverlapState ι) (now : ℤ) : ∀ phase, Decidable (s.Careful now phase)
  | .sendingReminder seen _ =>
    inferInstanceAs (Decidable
      ((∃ o ∈ s.outage, o.since = seen.since ∧ o.notifiedAt + signalsReminderMs ≤ now) ∧
        ∀ j, ∀ call ∈ s.calls j, call.phase.stores = none))
  | .taking seen recoveredAt =>
    inferInstanceAs (Decidable
      (∀ taken ∈ s.outage, taken.since = seen.since ∧ seen.since < recoveredAt ∧
        (∀ j, ∀ call ∈ s.calls j, ∀ last ∈ call.phase.claims, seen.since < last) ∧
        ∀ j, ∀ call ∈ s.calls j, call.phase.stores = none))
  | .reading | .claiming _ | .sendingDown _ | .givingBack | .storing _
  | .sendingRecovered _ _ _ | .puttingBack _ | .done => .isTrue trivial

/-- The step of a call is careful. -/
def CarefulStep (s : OverlapState ι) : OverlapEvent ι → Prop
  | .step i => ∀ call ∈ s.calls i, s.Careful call.now call.phase
  | _ => True

instance [Fintype ι] (s : OverlapState ι) : ∀ e, Decidable (CarefulStep s e)
  | .step i => inferInstanceAs (Decidable (∀ call ∈ s.calls i, s.Careful call.now call.phase))
  | .healthy _ | .start _ _ => .isTrue trivial

/-! ### What a step does -/

/-- **What a call can do**, with its message delivered. -/
inductive CallStep (stamp : Option ℤ) (now : ℤ) : Option SignalsOutage → CallPhase →
    Option SignalsOutage → CallPhase → Option OwnerNotice → Prop
  | read {outage : Option SignalsOutage} {phase : CallPhase}
      (found : ReadPhase stamp outage now phase) :
      CallStep stamp now outage .reading outage phase none
  | lost {o : SignalsOutage} {last : ℤ} :
      CallStep stamp now (some o) (.claiming last) (some o) .done none
  | claimed {last : ℤ} :
      CallStep stamp now none (.claiming last) (some ⟨last, now⟩) (.sendingDown last) none
  | down {outage : Option SignalsOutage} {last : ℤ} :
      CallStep stamp now outage (.sendingDown last) outage .done
        (some ⟨.down last (now - last), now, true⟩)
  | reminder {outage : Option SignalsOutage} {seen : SignalsOutage} {last : ℤ} :
      CallStep stamp now outage (.sendingReminder seen last) outage (.storing seen.since)
        (some ⟨.reminder seen.since last (now - last), now, true⟩)
  | stored {outage : Option SignalsOutage} {since : ℤ} :
      CallStep stamp now outage (.storing since) (some ⟨since, now⟩) .done none
  | late {seen : SignalsOutage} {last : ℤ} :
      CallStep stamp now none (.taking seen last) none .done none
  | took {taken seen : SignalsOutage} {last : ℤ} :
      CallStep stamp now (some taken) (.taking seen last) none
        (.sendingRecovered seen last taken) none
  | recovered {outage : Option SignalsOutage} {taken seen : SignalsOutage} {last : ℤ} :
      CallStep stamp now outage (.sendingRecovered seen last taken) outage .done
        (some ⟨.recovered seen.since last (last - seen.since), now, true⟩)

/-- The phases of calls whose messages are delivered. -/
def CallPhase.Usual : CallPhase → Prop
  | .givingBack => False
  | .puttingBack _ => False
  | _ => True

theorem callStep_advance (stamp : Option ℤ) (outage : Option SignalsOutage) (now : ℤ)
    {phase : CallPhase} (husual : phase.Usual) (hdone : phase ≠ .done) :
    CallStep stamp now outage phase (advance stamp outage now true phase).2.1
      (advance stamp outage now true phase).1 (advance stamp outage now true phase).2.2 := by
  cases phase with
  | reading => exact .read (readPhase_phaseAfterRead stamp outage now)
  | claiming last =>
    cases outage with
    | none => exact .claimed
    | some o => exact .lost
  | sendingDown last => exact .down
  | givingBack => exact husual.elim
  | sendingReminder seen last => exact .reminder
  | storing since => exact .stored
  | taking seen last =>
    cases outage with
    | none => exact .late
    | some taken => exact .took
  | sendingRecovered seen last taken => exact .recovered
  | puttingBack taken => exact husual.elim
  | done => exact absurd rfl hdone

/-! ### Outages that are over -/

/-- **The silence from `S` on is spent**: there was a healthy run after it, and no call is
about to record it. -/
def OverlapState.Spent (s : OverlapState ι) (S : ℤ) : Prop :=
  (∃ stamp ∈ s.stamp, S < stamp) ∧ ∀ j now last, s.In j now (.claiming last) → S < last

/-- The outage since `S` is recorded, or its silence is spent. -/
def OverlapState.Claimed (s : OverlapState ι) (S : ℤ) : Prop :=
  (∃ o ∈ s.outage, o.since = S) ∨ s.Spent S

/-- **The outage since `S` is over**: it is spent, not recorded, and no call is about to
record a reminder about it. -/
structure OverlapState.Over (s : OverlapState ι) (S : ℤ) : Prop where
  spent : s.Spent S
  unrecorded : ∀ o ∈ s.outage, o.since ≠ S
  unstored : ∀ j now since, s.In j now (.storing since) → since ≠ S

/-- **What is known where a call is.** -/
def OverlapState.Knows (s : OverlapState ι) (now : ℤ) : CallPhase → Prop
  | .sendingDown last => s.Claimed last
  | .storing since =>
    ∃ o ∈ s.outage, o.since = since ∧ o.notifiedAt + signalsReminderMs ≤ now
  | .taking _ last => ∃ stamp ∈ s.stamp, last ≤ stamp
  | .sendingRecovered seen _ _ => s.Over seen.since
  | .givingBack => False
  | .puttingBack _ => False
  | _ => True

/-- **Calls that are in order**: each knows what it has to, and no two are about to send
the same `down` or `recovered`, or to record a reminder. -/
structure OverlapState.Orderly (s : OverlapState ι) : Prop where
  knows : ∀ j now phase, s.In j now phase → s.Knows now phase
  downOnce : ∀ j j' now now' last, s.In j now (.sendingDown last) →
    s.In j' now' (.sendingDown last) → j = j'
  recoveredOnce : ∀ j j' now now' seen seen' last last' taken taken',
    s.In j now (.sendingRecovered seen last taken) →
    s.In j' now' (.sendingRecovered seen' last' taken') → seen.since = seen'.since → j = j'
  storedOnce : ∀ j j' now now' since since', s.In j now (.storing since) →
    s.In j' now' (.storing since') → j = j'

theorem OverlapState.in_moved {s : OverlapState ι} {i j : ι} {now now' : ℤ}
    {phase phase' : CallPhase} {outage : Option SignalsOutage} :
    (s.moved i now phase outage).In j now' phase' ↔
      j = i ∧ now' = now ∧ phase' = phase ∨ j ≠ i ∧ s.In j now' phase' := by
  show Function.update s.calls i (some ⟨now, phase⟩) j = some ⟨now', phase'⟩ ↔ _
  rcases eq_or_ne j i with rfl | hne
  · rw [Function.update_self]
    simp [eq_comm]
  · rw [Function.update_of_ne hne]
    simp [hne, OverlapState.In]

/-! ### What a step keeps -/

section Step

variable {s : OverlapState ι} {i : ι} {now S : ℤ} {phase phase' : CallPhase}
  {outage outage' : Option SignalsOutage} {notice : Option OwnerNotice}

omit [DecidableEq ι] in
theorem OverlapState.NoUnstored.not_in (h : s.NoUnstored) {j : ι} {n since : ℤ} :
    ¬s.In j n (.storing since) :=
  fun hin => nomatch h j _ hin

/-- A call that is about to record an outage read the last healthy run. -/
theorem CallStep.stamp_of_claiming {stamp : Option ℤ} {last : ℤ}
    (h : CallStep stamp now outage phase outage' (.claiming last) notice) : stamp = some last := by
  cases h with
  | read found =>
    cases found with
    | claiming hstamp => exact hstamp

/-- A call that is about to record a reminder has sent it. -/
theorem CallStep.of_storing {stamp : Option ℤ} {since : ℤ}
    (h : CallStep stamp now outage phase outage' (.storing since) notice) :
    ∃ seen last, phase = .sendingReminder seen last ∧ seen.since = since ∧ outage' = outage := by
  cases h with
  | read found => cases found
  | reminder => exact ⟨_, _, rfl, rfl, rfl⟩

theorem OverlapState.Spent.moved (h : s.Spent S)
    (hstep : CallStep s.stamp now outage phase outage' phase' notice) :
    (s.moved i now phase' outage').Spent S := by
  refine ⟨h.1, fun j n last hin => ?_⟩
  rcases OverlapState.in_moved.mp hin with ⟨rfl, rfl, rfl⟩ | ⟨-, hin⟩
  · obtain ⟨stamp, hstamp, hlt⟩ := h.1
    rwa [Option.some.inj (hstep.stamp_of_claiming.symm.trans hstamp)]
  · exact h.2 j n last hin

/-- **An outage that is taken is over.** -/
theorem OverlapState.Over.took {seen taken : SignalsOutage} {last : ℤ}
    (hcare : s.Careful now (.taking seen last)) (hknows : s.Knows now (.taking seen last))
    (htaken : s.outage = some taken) :
    (s.moved i now (.sendingRecovered seen last taken) none).Over seen.since := by
  obtain ⟨-, hbefore, hclaim, hstored⟩ := hcare taken htaken
  obtain ⟨stamp, hstamp, hle⟩ := hknows
  refine ⟨⟨⟨stamp, hstamp, by omega⟩, fun j n last' hin => ?_⟩, nofun, fun j n since hin => ?_⟩
  · rcases OverlapState.in_moved.mp hin with ⟨-, -, hphase⟩ | ⟨-, hin⟩
    · cases hphase
    · exact hclaim j _ hin last' rfl
  · rcases OverlapState.in_moved.mp hin with ⟨-, -, hphase⟩ | ⟨-, hin⟩
    · cases hphase
    · exact absurd hin hstored.not_in

/-- **What a step makes of a recorded outage**: it stays, a reminder about it is
recorded, or it is taken. -/
theorem CallStep.recorded {o : SignalsOutage} (hrecorded : s.outage = some o)
    (hcare : s.Careful now phase) (hknows : s.Knows now phase)
    (hstep : CallStep s.stamp now s.outage phase outage' phase' notice) :
    outage' = some o ∨
      (phase = .storing o.since ∧ o.notifiedAt + signalsReminderMs ≤ now ∧
        outage' = some ⟨o.since, now⟩) ∨
      (s.NoUnstored ∧ (s.moved i now phase' outage').Over o.since) := by
  rw [hrecorded] at hstep
  cases hstep with
  | read found => exact Or.inl rfl
  | lost => exact Or.inl rfl
  | down => exact Or.inl rfl
  | reminder => exact Or.inl rfl
  | stored =>
    obtain ⟨o', ho', rfl, hdue⟩ := hknows
    obtain rfl := Option.some.inj (hrecorded.symm.trans ho')
    exact Or.inr (Or.inl ⟨rfl, hdue, rfl⟩)
  | took =>
    refine Or.inr (Or.inr ⟨(hcare o hrecorded).2.2.2, ?_⟩)
    rw [(hcare o hrecorded).1]
    exact .took hcare hknows hrecorded
  | recovered => exact Or.inl rfl

theorem OverlapState.Claimed.moved (h : s.Claimed S) (hcare : s.Careful now phase)
    (hknows : s.Knows now phase)
    (hstep : CallStep s.stamp now s.outage phase outage' phase' notice) :
    (s.moved i now phase' outage').Claimed S := by
  rcases h with ⟨o, hrecorded, rfl⟩ | hspent
  · rcases hstep.recorded (i := i) hrecorded hcare hknows with
      hsame | ⟨-, -, hnoted⟩ | ⟨-, hover⟩
    · exact Or.inl ⟨o, hsame, rfl⟩
    · exact Or.inl ⟨_, hnoted, rfl⟩
    · exact Or.inr hover.spent
  · exact Or.inr (hspent.moved hstep)

omit [DecidableEq ι] in
/-- **An outage recorded after the step** was recorded before, or is new. -/
theorem CallStep.of_recorded {o : SignalsOutage} (hrecorded : outage' = some o)
    (hknows : s.Knows now phase)
    (hstep : CallStep s.stamp now s.outage phase outage' phase' notice) :
    (∃ o' ∈ s.outage, o'.since = o.since) ∨ phase = .claiming o.since := by
  generalize hbefore : s.outage = before at hstep ⊢
  subst hrecorded
  cases hstep with
  | read found => exact Or.inl ⟨o, rfl, rfl⟩
  | lost => exact Or.inl ⟨o, rfl, rfl⟩
  | claimed => exact Or.inr rfl
  | down => exact Or.inl ⟨o, rfl, rfl⟩
  | reminder => exact Or.inl ⟨o, rfl, rfl⟩
  | stored =>
    obtain ⟨o', ho', hsince, -⟩ := hknows
    exact Or.inl ⟨o', hbefore ▸ ho', hsince⟩
  | recovered => exact Or.inl ⟨o, rfl, rfl⟩

theorem OverlapState.Over.moved (h : s.Over S) (hin : s.In i now phase)
    (hcare : s.Careful now phase) (hknows : s.Knows now phase)
    (hstep : CallStep s.stamp now s.outage phase outage' phase' notice) :
    (s.moved i now phase' outage').Over S where
  spent := h.spent.moved hstep
  unrecorded := by
    rintro o ho rfl
    rcases hstep.of_recorded ho hknows with ⟨o', ho', hsince⟩ | rfl
    · exact h.unrecorded o' ho' hsince
    · exact lt_irrefl _ (h.spent.2 i now _ hin)
  unstored := by
    rintro j n since hin' rfl
    rcases OverlapState.in_moved.mp hin' with ⟨rfl, rfl, rfl⟩ | ⟨-, hin'⟩
    · obtain ⟨seen, last, rfl, hsince, -⟩ := hstep.of_storing
      obtain ⟨⟨o, ho, ho', -⟩, -⟩ := hcare
      exact h.unrecorded o ho (ho'.trans hsince)
    · exact h.unstored j n since hin' rfl

/-- What a call knows stays known while another call moves on. -/
theorem OverlapState.Knows.moved {j : ι} {n : ℤ} {at_ : CallPhase} (h : s.Knows n at_)
    (hs : s.Orderly) (hin : s.In i now phase) (hother : s.In j n at_) (hne : j ≠ i)
    (hcare : s.Careful now phase)
    (hstep : CallStep s.stamp now s.outage phase outage' phase' notice) :
    (s.moved i now phase' outage').Knows n at_ := by
  have hknows := hs.knows i now phase hin
  cases at_ with
  | sendingDown last => exact OverlapState.Claimed.moved h hcare hknows hstep
  | storing since =>
    obtain ⟨o, ho, hsince, hdue⟩ := h
    rcases hstep.recorded (i := i) ho hcare hknows with hsame | ⟨rfl, -, -⟩ | ⟨hstored, -⟩
    · exact ⟨o, hsame, hsince, hdue⟩
    · exact absurd (hs.storedOnce j i n now since o.since hother hin) hne
    · exact absurd hother hstored.not_in
  | sendingRecovered seen last taken => exact OverlapState.Over.moved h hin hcare hknows hstep
  | _ => exact h

/-- What a call knows where it comes to. -/
theorem OverlapState.knows_moved (hknows : s.Knows now phase) (hcare : s.Careful now phase)
    (hstep : CallStep s.stamp now s.outage phase outage' phase' notice) :
    (s.moved i now phase' outage').Knows now phase' := by
  generalize hbefore : s.outage = before at hstep
  cases hstep with
  | read found =>
    cases found with
    | done => trivial
    | claiming hstamp unknown silent => trivial
    | sendingReminder hstamp known silent due => trivial
    | taking hstamp known healthy => exact ⟨_, hstamp, le_rfl⟩
  | lost => trivial
  | claimed => exact Or.inl ⟨_, rfl, rfl⟩
  | down => trivial
  | reminder => exact hbefore ▸ hcare.1
  | stored => trivial
  | late => trivial
  | took => exact .took hcare hknows hbefore
  | recovered => trivial

/-- A call that is about to send a `down` has just recorded the outage. -/
theorem CallStep.of_sendingDown {stamp : Option ℤ} {last : ℤ}
    (h : CallStep stamp now outage phase outage' (.sendingDown last) notice) :
    phase = .claiming last ∧ outage = none := by
  cases h with
  | read found => cases found
  | claimed => exact ⟨rfl, rfl⟩

/-- A call that is about to send a `recovered` has just taken the outage. -/
theorem CallStep.of_sendingRecovered {stamp : Option ℤ} {seen taken : SignalsOutage} {last : ℤ}
    (h : CallStep stamp now outage phase outage' (.sendingRecovered seen last taken) notice) :
    phase = .taking seen last ∧ outage = some taken := by
  cases h with
  | read found => cases found
  | took => exact ⟨rfl, rfl⟩

omit [DecidableEq ι] in
/-- **No `down` of an outage that is claimed is about to be sent** by a call that moves
on. -/
theorem OverlapState.Claimed.not_sendingDown (h : s.Claimed S) (hin : s.In i now phase)
    (hstep : CallStep s.stamp now s.outage phase outage' phase' notice) :
    phase' ≠ .sendingDown S := by
  rintro rfl
  obtain ⟨rfl, hnone⟩ := hstep.of_sendingDown
  rcases h with ⟨o, ho, -⟩ | hspent
  · exact nomatch hnone.symm.trans ho
  · exact lt_irrefl _ (hspent.2 i now _ hin)

omit [DecidableEq ι] in
/-- No `recovered` of an outage that is over is about to be sent by a call that moves
on. -/
theorem OverlapState.Over.not_sendingRecovered (h : s.Over S) (hcare : s.Careful now phase)
    (hstep : CallStep s.stamp now s.outage phase outage' phase' notice)
    (seen : SignalsOutage) (last : ℤ) (taken : SignalsOutage) :
    phase' = .sendingRecovered seen last taken → seen.since ≠ S := by
  rintro rfl rfl
  obtain ⟨rfl, htaken⟩ := hstep.of_sendingRecovered
  exact h.unrecorded taken htaken (hcare taken htaken).1

theorem OverlapState.Orderly.moved (hs : s.Orderly) (hin : s.In i now phase)
    (hcare : s.Careful now phase)
    (hstep : CallStep s.stamp now s.outage phase outage' phase' notice) :
    (s.moved i now phase' outage').Orderly := by
  have hknows := hs.knows i now phase hin
  constructor
  case knows =>
    intro j n at_ hj
    -- Only one call moves; what the others know is not spoiled by it.
    rcases OverlapState.in_moved.mp hj with ⟨rfl, rfl, rfl⟩ | ⟨hne, hj⟩
    · exact OverlapState.knows_moved hknows hcare hstep
    · exact (hs.knows j n at_ hj).moved hs hin hj hne hcare hstep
  case downOnce =>
    intro j j' n n' last hj hj'
    rcases OverlapState.in_moved.mp hj with ⟨rfl, rfl, hphase⟩ | ⟨-, hwas⟩ <;>
      rcases OverlapState.in_moved.mp hj' with ⟨rfl, rfl, hphase'⟩ | ⟨-, hwas'⟩
    · rfl
    · have hclaimed : s.Claimed last := hs.knows j' n' _ hwas'
      exact absurd hphase.symm (hclaimed.not_sendingDown hin hstep)
    · have hclaimed : s.Claimed last := hs.knows j n _ hwas
      exact absurd hphase'.symm (hclaimed.not_sendingDown hin hstep)
    · exact hs.downOnce j j' n n' last hwas hwas'
  case recoveredOnce =>
    intro j j' n n' seen seen' last last' taken taken' hj hj' hsince
    rcases OverlapState.in_moved.mp hj with ⟨rfl, rfl, hphase⟩ | ⟨-, hwas⟩ <;>
      rcases OverlapState.in_moved.mp hj' with ⟨rfl, rfl, hphase'⟩ | ⟨-, hwas'⟩
    · rfl
    · have hover : s.Over seen'.since := hs.knows j' n' _ hwas'
      exact absurd hsince (hover.not_sendingRecovered hcare hstep seen last taken hphase.symm)
    · have hover : s.Over seen.since := hs.knows j n _ hwas
      exact absurd hsince.symm
        (hover.not_sendingRecovered hcare hstep seen' last' taken' hphase'.symm)
    · exact hs.recoveredOnce j j' n n' seen seen' last last' taken taken' hwas hwas' hsince
  case storedOnce =>
    intro j j' n n' since since' hj hj'
    rcases OverlapState.in_moved.mp hj with ⟨rfl, rfl, rfl⟩ | ⟨-, hwas⟩ <;>
      rcases OverlapState.in_moved.mp hj' with ⟨rfl, rfl, hphase'⟩ | ⟨-, hwas'⟩
    · rfl
    · obtain ⟨seen, last, rfl, -, -⟩ := hstep.of_storing
      exact absurd hwas' hcare.2.not_in
    · subst hphase'
      obtain ⟨seen, last, rfl, -, -⟩ := hstep.of_storing
      exact absurd hwas hcare.2.not_in
    · exact hs.storedOnce j j' n n' since since' hwas hwas'

end Step

/-! ### Healthy runs and new calls -/

/-- **Between two steps of the calls**, only healthy runs and new calls come in. -/
structure OverlapState.Idles (s t : OverlapState ι) : Prop where
  stamp : ∀ stamp ∈ s.stamp, ∃ stamp' ∈ t.stamp, stamp ≤ stamp'
  outage : t.outage = s.outage
  calls : ∀ j now phase, t.In j now phase → phase = .reading ∨ s.In j now phase
  kept : ∀ j now phase, s.In j now phase → t.In j now phase

section Idles

variable {s t : OverlapState ι} {S now : ℤ}

theorem OverlapState.idles_healthy {stamp : ℤ}
    (hleg : (overlapping ι).legal s (.healthy stamp)) :
    s.Idles ((overlapping ι).next s (.healthy stamp)) where
  stamp last hlast := ⟨stamp, rfl, hleg last hlast⟩
  outage := rfl
  calls _ _ _ h := Or.inr h
  kept _ _ _ h := h

theorem OverlapState.idles_start {i : ι} (hleg : (overlapping ι).legal s (.start i now)) :
    s.Idles ((overlapping ι).next s (.start i now)) where
  stamp last hlast := ⟨last, hlast, le_rfl⟩
  outage := rfl
  calls j n phase h := by
    rcases OverlapState.in_moved.mp h with ⟨-, -, hphase⟩ | ⟨-, h⟩
    · exact Or.inl hphase
    · exact Or.inr h
  kept j n phase h := by
    refine OverlapState.in_moved.mpr (Or.inr ⟨?_, h⟩)
    rintro rfl
    exact nomatch hleg.symm.trans h

omit [DecidableEq ι]

theorem OverlapState.Idles.before {j : ι} {phase : CallPhase} (h : s.Idles t)
    (hphase : phase ≠ .reading) (hin : t.In j now phase) : s.In j now phase :=
  (h.calls j now phase hin).resolve_left hphase

theorem OverlapState.Spent.idles (h : s.Spent S) (hidles : s.Idles t) : t.Spent S := by
  obtain ⟨stamp, hstamp, hlt⟩ := h.1
  obtain ⟨stamp', hstamp', hle⟩ := hidles.stamp stamp hstamp
  refine ⟨⟨stamp', hstamp', by omega⟩, fun j n last hin => ?_⟩
  exact h.2 j n last (hidles.before nofun hin)

theorem OverlapState.Claimed.idles (h : s.Claimed S) (hidles : s.Idles t) : t.Claimed S := by
  rcases h with hrecorded | hspent
  · exact Or.inl (hidles.outage ▸ hrecorded)
  · exact Or.inr (hspent.idles hidles)

theorem OverlapState.Over.idles (h : s.Over S) (hidles : s.Idles t) : t.Over S where
  spent := h.spent.idles hidles
  unrecorded := hidles.outage ▸ h.unrecorded
  unstored j n since hin := h.unstored j n since (hidles.before nofun hin)

theorem OverlapState.Knows.idles {phase : CallPhase} (h : s.Knows now phase)
    (hidles : s.Idles t) : t.Knows now phase := by
  cases phase with
  | sendingDown last => exact OverlapState.Claimed.idles h hidles
  | storing since =>
    obtain ⟨o, ho, hdue⟩ := h
    exact ⟨o, hidles.outage ▸ ho, hdue⟩
  | taking seen last =>
    obtain ⟨stamp, hstamp, hle⟩ := h
    obtain ⟨stamp', hstamp', hle'⟩ := hidles.stamp stamp hstamp
    exact ⟨stamp', hstamp', hle.trans hle'⟩
  | sendingRecovered seen last taken => exact OverlapState.Over.idles h hidles
  | _ => exact h

theorem OverlapState.Orderly.idles (hs : s.Orderly) (hidles : s.Idles t) : t.Orderly where
  knows j n phase hin := by
    rcases hidles.calls j n phase hin with rfl | hin
    · trivial
    · exact (hs.knows j n phase hin).idles hidles
  downOnce j j' n n' last hj hj' :=
    hs.downOnce j j' n n' last (hidles.before nofun hj) (hidles.before nofun hj')
  recoveredOnce j j' n n' seen seen' last last' taken taken' hj hj' hsince :=
    hs.recoveredOnce j j' n n' seen seen' last last' taken taken' (hidles.before nofun hj)
      (hidles.before nofun hj') hsince
  storedOnce j j' n n' since since' hj hj' :=
    hs.storedOnce j j' n n' since since' (hidles.before nofun hj) (hidles.before nofun hj')

end Idles

/-! ### Runs of careful calls -/

/-- The step of an orderly system is a step of one of its calls. -/
theorem OverlapState.Orderly.step {s : OverlapState ι} {i : ι} (hs : s.Orderly)
    (hleg : (overlapping ι).legal s (.step i)) :
    ∃ now phase phase' outage' notice, s.In i now phase ∧
      CallStep s.stamp now s.outage phase outage' phase' notice ∧
      (overlapping ι).next s (.step i) = s.moved i now phase' outage' ∧
      (overlapping ι).out s (.step i) = notice.toList := by
  obtain ⟨⟨now, phase⟩, hcall, hdone⟩ := hleg
  have hin : s.calls i = some ⟨now, phase⟩ := hcall
  have husual : phase.Usual := by
    have hknows := hs.knows i now phase hin
    cases phase with
    | givingBack => exact hknows
    | puttingBack taken => exact hknows
    | _ => trivial
  refine ⟨now, phase, _, _, _, hin, callStep_advance s.stamp s.outage now husual hdone, ?_, ?_⟩
  · simp only [overlapping, hin]
  · simp only [overlapping, hin]

variable (ι) in
theorem keeps_orderly : ((overlapping ι).restrict CarefulStep).Keeps OverlapState.Orderly := by
  rintro s e hs ⟨hleg, hcareful⟩
  cases e with
  | healthy stamp => exact hs.idles (OverlapState.idles_healthy hleg)
  | start i now => exact hs.idles (OverlapState.idles_start hleg)
  | step i =>
    obtain ⟨now, phase, phase', outage', notice, hin, hstep, hnext, -⟩ := hs.step hleg
    show ((overlapping ι).next s (.step i)).Orderly
    rw [hnext]
    exact hs.moved hin (hcareful _ hin) hstep

omit [DecidableEq ι] in
variable (ι) in
theorem orderly_fresh : (OverlapState.fresh ι).Orderly where
  knows _ _ _ h := nomatch h
  downOnce _ _ _ _ _ h := nomatch h
  recoveredOnce _ _ _ _ _ _ _ _ _ _ h := nomatch h
  storedOnce _ _ _ _ _ _ h := nomatch h

/-! ### What is left of a message -/

/-- The `down` of the outage since `S` has been sent, and no call is about to send it. -/
structure OverlapState.DownSent (s : OverlapState ι) (S : ℤ) : Prop where
  claimed : s.Claimed S
  unsent : ∀ j now, ¬s.In j now (.sendingDown S)

/-- A reminder of the outage since `S` has been sent for the time `at_`: it is recorded, a
call is about to record it, or the outage is over. -/
def OverlapState.ReminderSent (s : OverlapState ι) (S at_ : ℤ) : Prop :=
  s.Over S ∨ ∃ o ∈ s.outage, o.since = S ∧
    (at_ ≤ o.notifiedAt ∨ ∃ j, s.In j at_ (.storing S))

/-- The `recovered` of the outage since `S` has been sent, and no call is about to send
it. -/
structure OverlapState.RecoveredSent (s : OverlapState ι) (S : ℤ) : Prop where
  gone : s.Over S
  unsent : ∀ j now seen last taken, s.In j now (.sendingRecovered seen last taken) →
    seen.since ≠ S

/-- **A message has been sent.** -/
def OverlapState.Sent (s : OverlapState ι) (n : OwnerNotice) : Prop :=
  match n.action with
  | .down since _ => s.DownSent since
  | .reminder since _ _ => s.ReminderSent since n.at_
  | .recovered since _ _ => s.RecoveredSent since

omit [DecidableEq ι] in
theorem OverlapState.Sent.idles {s t : OverlapState ι} {n : OwnerNotice} (h : s.Sent n)
    (hidles : s.Idles t) : t.Sent n := by
  obtain ⟨action, at_, delivered⟩ := n
  cases action with
  | down since silentForMs =>
    exact ⟨h.claimed.idles hidles, fun j now hin => h.unsent j now (hidles.before nofun hin)⟩
  | reminder since last silentForMs =>
    rcases h with hover | ⟨o, ho, hsince, hstored | ⟨j, hj⟩⟩
    · exact Or.inl (hover.idles hidles)
    · exact Or.inr ⟨o, hidles.outage ▸ ho, hsince, Or.inl hstored⟩
    · exact Or.inr ⟨o, hidles.outage ▸ ho, hsince, Or.inr ⟨j, hidles.kept j at_ _ hj⟩⟩
  | recovered since recoveredAt downForMs =>
    exact ⟨h.gone.idles hidles, fun j now seen last taken hin =>
      h.unsent j now seen last taken (hidles.before nofun hin)⟩

section Sent

variable {s : OverlapState ι} {i : ι} {now S : ℤ} {phase phase' : CallPhase}
  {outage' : Option SignalsOutage} {notice : Option OwnerNotice}

theorem OverlapState.DownSent.moved (h : s.DownSent S) (hs : s.Orderly)
    (hin : s.In i now phase) (hcare : s.Careful now phase)
    (hstep : CallStep s.stamp now s.outage phase outage' phase' notice) :
    (s.moved i now phase' outage').DownSent S where
  claimed := h.claimed.moved hcare (hs.knows i now phase hin) hstep
  unsent j n hj := by
    rcases OverlapState.in_moved.mp hj with ⟨rfl, rfl, hphase⟩ | ⟨-, hj⟩
    · exact h.claimed.not_sendingDown hin hstep hphase.symm
    · exact h.unsent j n hj

theorem OverlapState.RecoveredSent.moved (h : s.RecoveredSent S) (hs : s.Orderly)
    (hin : s.In i now phase) (hcare : s.Careful now phase)
    (hstep : CallStep s.stamp now s.outage phase outage' phase' notice) :
    (s.moved i now phase' outage').RecoveredSent S where
  gone := h.gone.moved hin hcare (hs.knows i now phase hin) hstep
  unsent j n seen last taken hj := by
    rcases OverlapState.in_moved.mp hj with ⟨rfl, rfl, hphase⟩ | ⟨-, hj⟩
    · exact h.gone.not_sendingRecovered hcare hstep seen last taken hphase.symm
    · exact h.unsent j n seen last taken hj

theorem OverlapState.ReminderSent.moved {at_ : ℤ} (h : s.ReminderSent S at_) (hs : s.Orderly)
    (hin : s.In i now phase) (hcare : s.Careful now phase)
    (hstep : CallStep s.stamp now s.outage phase outage' phase' notice) :
    (s.moved i now phase' outage').ReminderSent S at_ := by
  have hknows := hs.knows i now phase hin
  rcases h with hover | ⟨o, ho, rfl, hstored⟩
  · exact Or.inl (hover.moved hin hcare hknows hstep)
  rcases hstep.recorded (i := i) ho hcare hknows with
    hsame | ⟨rfl, hdue, hnoted⟩ | ⟨-, hover⟩
  · refine Or.inr ⟨o, hsame, rfl, ?_⟩
    rcases hstored with hstored | ⟨j, hj⟩
    · exact Or.inl hstored
    -- the call that is about to record the reminder is another one, or it records it now
    by_cases hne : j = i
    · subst hne
      obtain ⟨rfl, rfl⟩ := WatchCall.mk.inj (Option.some.inj (hin.symm.trans hj))
      generalize s.outage = before at hstep
      cases hstep with
      | stored =>
        have hnoted : ⟨o.since, now⟩ = o := Option.some.inj hsame
        exact Or.inl (congrArg SignalsOutage.notifiedAt hnoted).le
    · exact Or.inr ⟨j, OverlapState.in_moved.mpr (Or.inr ⟨hne, hj⟩)⟩
  · refine Or.inr ⟨_, hnoted, rfl, Or.inl ?_⟩
    rcases hstored with hstored | ⟨j, hj⟩
    · show at_ ≤ now
      have hreminder : (0 : ℤ) ≤ signalsReminderMs := by decide
      omega
    · obtain rfl := hs.storedOnce j i at_ now o.since o.since hj hin
      exact (WatchCall.mk.inj (Option.some.inj (hj.symm.trans hin))).1.le
  · exact Or.inl hover

/-- **A message that was sent stays so.** -/
theorem OverlapState.Sent.moved {n : OwnerNotice} (h : s.Sent n) (hs : s.Orderly)
    (hin : s.In i now phase) (hcare : s.Careful now phase)
    (hstep : CallStep s.stamp now s.outage phase outage' phase' notice) :
    (s.moved i now phase' outage').Sent n := by
  obtain ⟨action, at_, delivered⟩ := n
  cases action with
  | down since silentForMs => exact OverlapState.DownSent.moved h hs hin hcare hstep
  | reminder since last silentForMs => exact OverlapState.ReminderSent.moved h hs hin hcare hstep
  | recovered since recoveredAt downForMs =>
    exact OverlapState.RecoveredSent.moved h hs hin hcare hstep

/-- **What a call sends has been sent.** -/
theorem OverlapState.sent_moved {n : OwnerNotice} (hs : s.Orderly) (hin : s.In i now phase)
    (hcare : s.Careful now phase)
    (hstep : CallStep s.stamp now s.outage phase outage' phase' (some n)) :
    (s.moved i now phase' outage').Sent n := by
  have hknows := hs.knows i now phase hin
  have hstep' := hstep
  generalize hbefore : s.outage = before at hstep
  cases hstep with
  | @down _ last =>
    refine ⟨OverlapState.Claimed.moved hknows hcare hknows hstep', fun j n hj => ?_⟩
    rcases OverlapState.in_moved.mp hj with ⟨-, -, hphase⟩ | ⟨hne, hj⟩
    · cases hphase
    · exact hne (hs.downOnce j i n now last hj hin)
  | @reminder _ seen last =>
    obtain ⟨⟨o, ho, hsince, -⟩, -⟩ := hcare
    exact Or.inr ⟨o, hbefore ▸ ho, hsince,
      Or.inr ⟨i, OverlapState.in_moved.mpr (Or.inl ⟨rfl, rfl, rfl⟩)⟩⟩
  | @recovered _ taken seen last =>
    refine ⟨OverlapState.Over.moved hknows hin hcare hknows hstep', ?_⟩
    intro j n seen' last' taken' hj
    rcases OverlapState.in_moved.mp hj with ⟨-, -, hphase⟩ | ⟨hne, hj⟩
    · cases hphase
    · exact fun hsince =>
        hne (hs.recoveredOnce j i n now seen' seen last' last taken' taken hj hin hsince)

omit [DecidableEq ι] in
/-- **A message that was sent is not sent again.** -/
theorem OverlapState.Sent.sentOnce {n n' : OwnerNotice} (h : s.Sent n) (hin : s.In i now phase)
    (hcare : s.Careful now phase)
    (hstep : CallStep s.stamp now s.outage phase outage' phase' (some n')) : SentOnce n n' := by
  obtain ⟨action, at_, delivered⟩ := n
  intro hkind hsince
  generalize s.outage = before at hstep
  cases hstep with
  | down =>
    cases action with
    | down since silentForMs =>
      subst hsince
      exact absurd hin (h.unsent i now)
    | reminder since last silentForMs => cases hkind
    | recovered since recoveredAt downForMs => cases hkind
  | @reminder _ seen last =>
    cases action with
    | down since silentForMs => cases hkind
    | reminder since last silentForMs =>
      refine ⟨rfl, ?_⟩
      obtain ⟨⟨o, ho, ho', hdue⟩, hunstored⟩ := hcare
      rcases h with hover | ⟨o', hrecorded, -, hstored | ⟨j, hj⟩⟩
      · exact absurd (ho'.trans hsince.symm) (hover.unrecorded o ho)
      · obtain rfl := Option.some.inj (ho.symm.trans hrecorded)
        have hnoted : at_ ≤ o.notifiedAt := hstored
        show at_ + signalsReminderMs ≤ now
        omega
      · exact absurd hj hunstored.not_in
    | recovered since recoveredAt downForMs => cases hkind
  | @recovered _ taken seen last =>
    cases action with
    | down since silentForMs => cases hkind
    | reminder since last silentForMs => cases hkind
    | recovered since recoveredAt downForMs =>
      exact absurd hsince.symm (h.unsent i now seen last taken hin)

end Sent

/-- **Each message is sent once** by calls that do not act on old news, however many of them
are under way and in whatever order their steps come: one `down` and one `recovered` about
an outage, and its reminders a reminder window apart. -/
theorem messages_once {es : List (OverlapEvent ι)}
    (hr : ((overlapping ι).restrict CarefulStep).Run (.fresh ι) es) :
    ((overlapping ι).outputs (.fresh ι) es).Pairwise SentOnce := by
  rw [← System.outputs_restrict CarefulStep]
  refine System.Run.outputs_pairwise (A := fun n s => s.Sent n) (keeps_orderly ι) ?_ ?_ ?_ ?_
    (orderly_fresh ι) hr
  · rintro s e hs ⟨hleg, -⟩
    cases e with
    | healthy stamp => exact .nil
    | start i now => exact .nil
    | step i =>
      obtain ⟨now, phase, phase', outage', notice, -, -, -, hout⟩ := hs.step hleg
      show ((overlapping ι).out s (.step i)).Pairwise SentOnce
      rw [hout]
      cases notice with
      | none => exact .nil
      | some n => exact List.pairwise_singleton SentOnce n
  · rintro s e hs ⟨hleg, hcareful⟩ n hn
    cases e with
    | healthy stamp => cases hn
    | start i now => cases hn
    | step i =>
      obtain ⟨now, phase, phase', outage', notice, hin, hstep, hnext, hout⟩ := hs.step hleg
      obtain rfl : notice = some n := by simpa [System.restrict, hout] using hn
      show ((overlapping ι).next s (.step i)).Sent n
      rw [hnext]
      exact OverlapState.sent_moved hs hin (hcareful _ hin) hstep
  · rintro n s e hs hsent ⟨hleg, hcareful⟩
    cases e with
    | healthy stamp => exact hsent.idles (OverlapState.idles_healthy hleg)
    | start i now => exact hsent.idles (OverlapState.idles_start hleg)
    | step i =>
      obtain ⟨now, phase, phase', outage', notice, hin, hstep, hnext, -⟩ := hs.step hleg
      show ((overlapping ι).next s (.step i)).Sent n
      rw [hnext]
      exact hsent.moved hs hin (hcareful _ hin) hstep
  · rintro n s e hs hsent ⟨hleg, hcareful⟩ n' hn'
    cases e with
    | healthy stamp => cases hn'
    | start i now => cases hn'
    | step i =>
      obtain ⟨now, phase, phase', outage', notice, hin, hstep, -, hout⟩ := hs.step hleg
      obtain rfl : notice = some n' := by simpa [System.restrict, hout] using hn'
      exact hsent.sentOnce hin (hcareful _ hin) hstep

end Overlapping

/-! ### Two calls at once -/

/-- Two calls find an outage: one records it and sends the `down`, and the other does
nothing. A third call sends a reminder, and a fourth one the `recovered`. -/
def carefulRun : List (OverlapEvent (Fin 4)) :=
  [.healthy 0, .start 0 (2 * hourMs), .start 1 (2 * hourMs), .step 0, .step 1, .step 1, .step 0,
    .step 1, .start 2 (9 * hourMs), .step 2, .step 2, .step 2, .healthy (10 * hourMs),
    .start 3 (10 * hourMs), .step 3, .step 3, .step 3]

theorem messages_once_of_two_calls :
    ((overlapping (Fin 4)).outputs (.fresh (Fin 4)) carefulRun).Pairwise SentOnce :=
  messages_once (by decide +kernel)

/-- After a `down`, two calls read that a reminder is due before either records one. -/
def remindersRun : List (OverlapEvent (Fin 3)) :=
  [.healthy 0, .start 0 (2 * hourMs), .step 0, .step 0, .step 0, .start 1 (9 * hourMs),
    .start 2 (9 * hourMs), .step 1, .step 2, .step 1, .step 2]

theorem reminders_not_always_once :
    ¬∀ es, (overlapping (Fin 3)).Run (.fresh (Fin 3)) es →
      ((overlapping (Fin 3)).outputs (.fresh (Fin 3)) es).Pairwise SentOnce := by
  intro h
  have honce := h remindersRun (by decide +kernel)
  revert honce
  decide +kernel

end Signals

end CryptoZaloBot
