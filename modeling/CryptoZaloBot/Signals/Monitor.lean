import CryptoZaloBot.Base.System
import CryptoZaloBot.Signals.Evaluator

/-!
# Watching the signals check

`signals-monitor.ts` and `SignalsMonitorService.check`: every few minutes the watcher looks
at the last healthy run of the signals check and at the outage the owner was last told
about, and messages the owner when the check fell silent, stays silent or is back.

An outage is recorded before its `down` is sent and given back if that fails, and it is
taken before a `recovered` is sent and put back if that fails. Over calls that do not
overlap the recorded outage then always tells whether the owner knows of one
(`CryptoZaloBot.Signals.Recorded`), which is where the promises of
`CryptoZaloBot.Signals.owner_notices` come from.
-/

namespace CryptoZaloBot

namespace Signals

/-- The owner is told when no healthy run has happened for this long. -/
def signalsStaleMs : ℤ := 90 * 60000

/-- While the check stays down the owner gets at most one reminder per this window. -/
def signalsReminderMs : ℤ := 6 * hourMs

/-! ### What is due -/

/-- An outage the owner was told about. -/
structure SignalsOutage where
  /-- The last healthy run before the silence started. -/
  since : ℤ
  /-- When the owner was last messaged about it. -/
  notifiedAt : ℤ
  deriving DecidableEq

inductive SignalsMonitorAction where
  | down (lastHealthyAt silentForMs : ℤ)
  | reminder (since lastHealthyAt silentForMs : ℤ)
  | recovered (since recoveredAt downForMs : ℤ)
  deriving DecidableEq

inductive SignalsMonitorKind where
  | down
  | reminder
  | recovered
  deriving DecidableEq

def SignalsMonitorAction.kind : SignalsMonitorAction → SignalsMonitorKind
  | down _ _ => .down
  | reminder _ _ _ => .reminder
  | recovered _ _ _ => .recovered

/-- The start of the silence the message is about. -/
def SignalsMonitorAction.since : SignalsMonitorAction → ℤ
  | down lastHealthyAt _ => lastHealthyAt
  | reminder since _ _ => since
  | recovered since _ _ => since

/-- **`evaluateSignalsMonitor`.** A check that was never healthy is not down. -/
def evaluateSignalsMonitor (lastHealthyAt : Option ℤ) (outage : Option SignalsOutage)
    (now : ℤ) : Option SignalsMonitorAction :=
  match lastHealthyAt with
  | none => none
  | some last =>
    let silentForMs := now - last
    if silentForMs < signalsStaleMs then
      outage.map fun o => .recovered o.since last (last - o.since)
    else
      match outage with
      | none => some (.down last silentForMs)
      | some o =>
        if signalsReminderMs ≤ now - o.notifiedAt then
          some (.reminder o.since last silentForMs)
        else none

theorem evaluate_of_healthy {last now : ℤ} (h : now - last < signalsStaleMs)
    (outage : Option SignalsOutage) :
    evaluateSignalsMonitor (some last) outage now =
      outage.map fun o => .recovered o.since last (last - o.since) := by
  cases outage <;> exact if_pos h

theorem evaluate_of_silent {last now : ℤ} (h : signalsStaleMs ≤ now - last) :
    evaluateSignalsMonitor (some last) none now = some (.down last (now - last)) :=
  if_neg (not_lt.mpr h)

theorem evaluate_of_known {last now : ℤ} (h : signalsStaleMs ≤ now - last) (o : SignalsOutage) :
    evaluateSignalsMonitor (some last) (some o) now =
      if signalsReminderMs ≤ now - o.notifiedAt then
        some (.reminder o.since last (now - last))
      else none :=
  if_neg (not_lt.mpr h)

/-! ### One call -/

/-- A message to the owner. -/
structure OwnerNotice where
  action : SignalsMonitorAction
  /-- The time of the call. -/
  at_ : ℤ
  delivered : Bool
  deriving DecidableEq

/-- One look at the check's health, and whether a message is accepted. -/
structure MonitorCall where
  now : ℤ
  lastHealthyAt : Option ℤ
  delivered : Bool
  deriving DecidableEq

/-- The last healthy run is too long ago. -/
def MonitorCall.Silent (call : MonitorCall) : Prop :=
  ∃ last ∈ call.lastHealthyAt, signalsStaleMs ≤ call.now - last

/-- The last healthy run is recent. -/
def MonitorCall.Healthy (call : MonitorCall) : Prop :=
  ∃ last ∈ call.lastHealthyAt, call.now - last < signalsStaleMs

/-- **`check`**: the outage after the call, and the message it sent. -/
def check (call : MonitorCall) (outage : Option SignalsOutage) :
    Option SignalsOutage × Option OwnerNotice :=
  match evaluateSignalsMonitor call.lastHealthyAt outage call.now with
  | none => (outage, none)
  | some action =>
    let notice : OwnerNotice := { action, at_ := call.now, delivered := call.delivered }
    match action with
    | .down lastHealthyAt _ =>
      match outage with
      | some _ => (outage, none)
      -- The claim; a failed send gives it back.
      | none => (if call.delivered then some ⟨lastHealthyAt, call.now⟩ else none, some notice)
    | .reminder since _ _ =>
      (if call.delivered then some ⟨since, call.now⟩ else outage, some notice)
    | .recovered _ _ _ =>
      match outage with
      | none => (none, none)
      | some taken => (if call.delivered then none else some taken, some notice)

/-- **What a call can do.** -/
inductive CheckStep (call : MonitorCall) :
    Option SignalsOutage → Option SignalsOutage → Option OwnerNotice → Prop
  | quiet {outage : Option SignalsOutage} (downTold : call.Silent → outage.isSome)
      (upTold : call.Healthy → outage = none) : CheckStep call outage outage none
  | down {last : ℤ} (stamp : call.lastHealthyAt = some last)
      (silent : signalsStaleMs ≤ call.now - last) :
      CheckStep call none (if call.delivered then some ⟨last, call.now⟩ else none)
        (some ⟨.down last (call.now - last), call.now, call.delivered⟩)
  | reminder {last : ℤ} {o : SignalsOutage} (stamp : call.lastHealthyAt = some last)
      (silent : signalsStaleMs ≤ call.now - last)
      (due : signalsReminderMs ≤ call.now - o.notifiedAt) :
      CheckStep call (some o) (some (if call.delivered then ⟨o.since, call.now⟩ else o))
        (some ⟨.reminder o.since last (call.now - last), call.now, call.delivered⟩)
  | recovered {last : ℤ} {o : SignalsOutage} (stamp : call.lastHealthyAt = some last)
      (healthy : call.now - last < signalsStaleMs) :
      CheckStep call (some o) (if call.delivered then none else some o)
        (some ⟨.recovered o.since last (last - o.since), call.now, call.delivered⟩)

theorem checkStep_check (call : MonitorCall) (outage : Option SignalsOutage) :
    CheckStep call outage (check call outage).1 (check call outage).2 := by
  rw [check]
  cases hstamp : call.lastHealthyAt with
  | none =>
    refine .quiet (fun h => ?_) fun h => ?_
    all_goals
      obtain ⟨last, hlast, -⟩ := h
      rw [hstamp] at hlast
      cases hlast
  | some last =>
    rcases lt_or_ge (call.now - last) signalsStaleMs with hhealthy | hsilent
    · rw [evaluate_of_healthy hhealthy]
      cases outage with
      | none =>
        refine .quiet (fun ⟨l, hl, hsilent⟩ => ?_) fun _ => rfl
        obtain rfl := Option.some.inj (hl.symm.trans hstamp)
        exact absurd hhealthy (not_lt.mpr hsilent)
      | some o => exact .recovered hstamp hhealthy
    · cases outage with
      | none =>
        rw [evaluate_of_silent hsilent]
        exact .down hstamp hsilent
      | some o =>
        rw [evaluate_of_known hsilent]
        by_cases hdue : signalsReminderMs ≤ call.now - o.notifiedAt
        · have hstep := CheckStep.reminder hstamp hsilent hdue
          rw [if_pos hdue]
          cases hdelivered : call.delivered with
          | true => simpa [hdelivered] using hstep
          | false => simpa [hdelivered] using hstep
        · rw [if_neg hdue]
          refine .quiet (fun _ => rfl) fun ⟨l, hl, hhealthy⟩ => ?_
          obtain rfl := Option.some.inj (hl.symm.trans hstamp)
          exact absurd hhealthy (not_lt.mpr hsilent)

/-! ### The calls -/

/-- The recorded outage, and what the calls so far saw. -/
structure SignalsMonitorState where
  outage : Option SignalsOutage
  lastHealthyAt : Option ℤ
  clock : ℤ
  deriving DecidableEq

/-- No outage is recorded, and no healthy run. -/
def SignalsMonitorState.fresh (clock : ℤ) : SignalsMonitorState where
  outage := none
  lastHealthyAt := none
  clock := clock

/-- **Calls that do not overlap**: their times do not decrease, and neither does the last
healthy run. -/
def signalsMonitor : System SignalsMonitorState MonitorCall OwnerNotice where
  legal s call := s.clock ≤ call.now ∧
    ∀ last ∈ s.lastHealthyAt, ∃ last' ∈ call.lastHealthyAt, last ≤ last'
  next s call :=
    { outage := (check call s.outage).1, lastHealthyAt := call.lastHealthyAt, clock := call.now }
  out s call := (check call s.outage).2.toList

instance (s : SignalsMonitorState) (call : MonitorCall) :
    Decidable (signalsMonitor.legal s call) :=
  inferInstanceAs (Decidable (_ ∧ ∀ last ∈ s.lastHealthyAt, ∃ last' ∈ call.lastHealthyAt, _))

/-- The messages the owner got. -/
def deliveredNotices (notices : List OwnerNotice) : List OwnerNotice :=
  notices.filter fun n => n.delivered

/-- **The owner knows of an outage**: a `down` was delivered, and no `recovered` since. -/
def DownOpen (notices : List OwnerNotice) : Prop :=
  ∃ xs d ys, notices = xs ++ d :: ys ∧ d.action.kind = .down ∧
    ∀ n ∈ ys, n.action.kind ≠ .recovered

theorem not_downOpen_nil : ¬DownOpen [] := by
  rintro ⟨xs, d, ys, heq, -, -⟩
  cases xs <;> cases heq

theorem downOpen_concat {ns : List OwnerNotice} {n : OwnerNotice} :
    DownOpen (ns ++ [n]) ↔
      n.action.kind = .down ∨ DownOpen ns ∧ n.action.kind ≠ .recovered := by
  constructor
  · rintro ⟨xs, d, ys, heq, hd, hys⟩
    rcases List.eq_nil_or_concat' ys with rfl | ⟨ys', last, rfl⟩
    · obtain ⟨-, hn⟩ := List.append_inj' heq rfl
      exact Or.inl (List.singleton_inj.mp hn ▸ hd)
    · rw [← List.cons_append, ← List.append_assoc] at heq
      obtain ⟨rfl, hn⟩ := List.append_inj' heq rfl
      obtain rfl := List.singleton_inj.mp hn
      exact Or.inr ⟨⟨xs, d, ys', rfl, hd, fun m hm => hys m (List.mem_append_left _ hm)⟩,
        hys n (by simp)⟩
  · rintro (hdown | ⟨⟨xs, d, ys, rfl, hd, hys⟩, hn⟩)
    · exact ⟨ns, n, [], rfl, hdown, fun m hm => absurd hm List.not_mem_nil⟩
    · refine ⟨xs, d, ys ++ [n], by simp, hd, fun m hm => ?_⟩
      rcases List.mem_append.mp hm with hm | hm
      · exact hys m hm
      · rwa [List.mem_singleton.mp hm]

/-- **What is recorded, and what the owner got.** -/
structure Recorded (outage : Option SignalsOutage) (notices : List OwnerNotice) : Prop where
  isOpen : outage.isSome ↔ DownOpen notices
  last : ∀ o ∈ outage, ∃ n ∈ notices.getLast?, n.at_ = o.notifiedAt
  /-- A `down` opens an outage, and only a `down` does. -/
  order : ∀ xs n, xs ++ [n] <+: notices → (n.action.kind = .down ↔ ¬DownOpen xs)
  spaced : ∀ xs x y, xs ++ [x, y] <+: notices → x.action.kind ≠ .recovered →
    y.action.kind ≠ .recovered → x.at_ + signalsReminderMs ≤ y.at_

namespace Recorded

variable {outage outage' : Option SignalsOutage} {notices : List OwnerNotice}

theorem fresh : Recorded none [] where
  isOpen := ⟨fun h => (nomatch h), fun h => absurd h not_downOpen_nil⟩
  last _ h := nomatch h
  order _ _ h := absurd (List.prefix_nil.mp h) (by simp)
  spaced _ _ _ h := absurd (List.prefix_nil.mp h) (by simp)

/-- A message that is delivered in its turn. -/
theorem concat (h : Recorded outage notices) {n : OwnerNotice}
    (hopen : outage'.isSome ↔ DownOpen (notices ++ [n]))
    (hlast : ∀ o ∈ outage', n.at_ = o.notifiedAt)
    (horder : n.action.kind = .down ↔ ¬DownOpen notices)
    (hspaced : ∀ x ∈ notices.getLast?, x.action.kind ≠ .recovered →
      n.action.kind ≠ .recovered → x.at_ + signalsReminderMs ≤ n.at_) :
    Recorded outage' (notices ++ [n]) where
  isOpen := hopen
  last o ho := ⟨n, by simp, hlast o ho⟩
  order xs m hprefix := by
    rcases List.prefix_concat_iff.mp hprefix with heq | hprefix
    · obtain ⟨rfl, hm⟩ := List.append_inj' heq rfl
      rwa [List.singleton_inj.mp hm]
    · exact h.order xs m hprefix
  spaced xs x y hprefix := by
    rcases List.prefix_concat_iff.mp hprefix with heq | hprefix
    · rw [List.append_cons] at heq
      obtain ⟨rfl, hy⟩ := List.append_inj' heq rfl
      rw [List.singleton_inj.mp hy]
      exact hspaced x (by simp)
    · exact h.spaced xs x y hprefix

/-- The last message about an open outage is not a `recovered`. -/
theorem downOpen_of_last (h : Recorded outage notices) {x : OwnerNotice}
    (hx : x ∈ notices.getLast?) (hkind : x.action.kind ≠ .recovered) : DownOpen notices := by
  rcases List.eq_nil_or_concat' notices with rfl | ⟨before, last, rfl⟩
  · cases hx
  · obtain rfl : last = x := by simpa using hx
    refine downOpen_concat.mpr ?_
    by_cases hdown : last.action.kind = .down
    · exact Or.inl hdown
    · have horder := h.order before last (List.prefix_refl _)
      exact Or.inr ⟨not_not.mp fun hopen => hdown (horder.mpr hopen), hkind⟩

/-- **One call** keeps the record true. -/
theorem check (h : Recorded outage notices) {call : MonitorCall} {notice : Option OwnerNotice}
    (hstep : CheckStep call outage outage' notice) :
    Recorded outage' (notices ++ deliveredNotices notice.toList) := by
  cases hstep with
  | quiet => simpa [deliveredNotices] using h
  | @down last stamp silent =>
    cases hdelivered : call.delivered with
    | false => simpa [deliveredNotices] using h
    | true =>
      have hclosed : ¬DownOpen notices := fun hopen => by simpa using h.isOpen.mpr hopen
      refine h.concat ?_ ?_ ?_ ?_
      · simp [downOpen_concat, SignalsMonitorAction.kind]
      · rintro o ho
        obtain rfl := Option.some.inj ho
        rfl
      · exact ⟨fun _ => hclosed, fun _ => rfl⟩
      · exact fun x hx hkind => absurd (h.downOpen_of_last hx hkind) hclosed
  | @reminder last o stamp silent due =>
    cases hdelivered : call.delivered with
    | false => simpa [deliveredNotices] using h
    | true =>
      have hopen : DownOpen notices := h.isOpen.mp rfl
      refine h.concat ?_ ?_ ?_ ?_
      · simp [downOpen_concat, SignalsMonitorAction.kind, hopen]
      · rintro o' ho'
        obtain rfl := Option.some.inj ho'
        rfl
      · exact ⟨fun hkind => (nomatch hkind), fun hclosed => absurd hopen hclosed⟩
      · rintro x hx - -
        obtain ⟨n, hn, hat⟩ := h.last o rfl
        obtain rfl := Option.some.inj (hx.symm.trans hn)
        show x.at_ + signalsReminderMs ≤ call.now
        omega
  | @recovered last o stamp healthy =>
    cases hdelivered : call.delivered with
    | false => simpa [deliveredNotices] using h
    | true =>
      have hopen : DownOpen notices := h.isOpen.mp rfl
      refine h.concat ?_ ?_ ?_ ?_
      · simp [downOpen_concat, SignalsMonitorAction.kind]
      · exact fun o ho => (nomatch ho)
      · exact ⟨fun hkind => (nomatch hkind), fun hclosed => absurd hopen hclosed⟩
      · exact fun x _ _ hkind => absurd rfl hkind

end Recorded

/-- **The record is true** wherever calls lead. -/
theorem recorded_of_run {clock : ℤ} {calls : List MonitorCall}
    (hrun : signalsMonitor.Run (.fresh clock) calls) :
    Recorded (signalsMonitor.final (.fresh clock) calls).outage
      (deliveredNotices (signalsMonitor.outputs (.fresh clock) calls)) := by
  refine System.Run.history (J := fun s h => Recorded s.outage (deliveredNotices h))
    (fun s h call hs _ => ?_) (h := []) Recorded.fresh hrun
  rw [deliveredNotices, List.filter_append]
  exact hs.check (checkStep_check call s.outage)

/-! ### Messages that are tried again -/

section Retry

variable {s : SignalsMonitorState} {call : MonitorCall} {calls : List MonitorCall}

/-- **One call of a run** does what a call can do. -/
theorem exists_checkStep (s : SignalsMonitorState) (call : MonitorCall) :
    ∃ outage' notice, CheckStep call s.outage outage' notice ∧
      (signalsMonitor.next s call).outage = outage' ∧
      signalsMonitor.out s call = notice.toList :=
  ⟨_, _, checkStep_check call s.outage, rfl, rfl⟩

/-- **A `down` is due** when the check is silent and no outage is recorded. -/
theorem exists_down (hnone : s.outage = none) (hsilent : call.Silent) :
    ∃ n ∈ signalsMonitor.out s call, n.action.kind = .down := by
  obtain ⟨outage', notice, hstep, -, hout⟩ := exists_checkStep s call
  rw [hout]
  rw [hnone] at hstep
  cases hstep with
  | quiet downTold => exact absurd (downTold hsilent) (by simp)
  | down => exact ⟨_, List.mem_singleton_self _, rfl⟩

theorem exists_recovered {o : SignalsOutage} (hsome : s.outage = some o)
    (hhealthy : call.Healthy) :
    ∃ n ∈ signalsMonitor.out s call, n.action.kind = .recovered ∧ n.action.since = o.since := by
  obtain ⟨outage', notice, hstep, -, hout⟩ := exists_checkStep s call
  rw [hout]
  rw [hsome] at hstep
  cases hstep with
  | quiet _ upTold => exact nomatch upTold hhealthy
  | reminder stamp silent =>
    obtain ⟨last, hlast, hrecent⟩ := hhealthy
    obtain rfl := Option.some.inj (hlast.symm.trans stamp)
    exact absurd hrecent (not_lt.mpr silent)
  | recovered => exact ⟨_, List.mem_singleton_self _, rfl, rfl⟩

/-- Without silence no outage is recorded. -/
theorem outage_of_not_silent (hnone : s.outage = none) (hcalls : ∀ m ∈ calls, ¬m.Silent) :
    (signalsMonitor.final s calls).outage = none := by
  induction calls generalizing s with
  | nil => exact hnone
  | cons call calls ih =>
    refine ih ?_ fun m hm => hcalls m (List.mem_cons_of_mem call hm)
    obtain ⟨outage', notice, hstep, hnext, -⟩ := exists_checkStep s call
    rw [hnext]
    rw [hnone] at hstep
    cases hstep with
    | quiet => rfl
    | @down last stamp silent =>
      exact absurd ⟨last, stamp, silent⟩ (hcalls call List.mem_cons_self)

/-- Without a healthy run the outage stays the one it is. -/
theorem outage_of_not_healthy {o : SignalsOutage} (hsome : s.outage = some o)
    (hcalls : ∀ m ∈ calls, ¬m.Healthy) :
    ∃ o', (signalsMonitor.final s calls).outage = some o' ∧ o'.since = o.since := by
  induction calls generalizing s o with
  | nil => exact ⟨o, hsome, rfl⟩
  | cons call calls ih =>
    have hcalls' : ∀ m ∈ calls, ¬m.Healthy := fun m hm => hcalls m (List.mem_cons_of_mem call hm)
    obtain ⟨outage', notice, hstep, hnext, -⟩ := exists_checkStep s call
    rw [hsome] at hstep
    cases hstep with
    | quiet => exact ih hnext hcalls'
    | reminder =>
      obtain ⟨o', ho', hsince⟩ := ih hnext hcalls'
      refine ⟨o', ho', hsince.trans ?_⟩
      split <;> rfl
    | @recovered last _ stamp healthy =>
      exact absurd ⟨last, stamp, healthy⟩ (hcalls call List.mem_cons_self)

/-- **A failed send** leaves the record as it was. -/
theorem outage_of_undelivered {n : OwnerNotice} (hn : n ∈ signalsMonitor.out s call)
    (hfailed : n.delivered = false) :
    (signalsMonitor.next s call).outage = s.outage ∧
      (n.action.kind = .down → s.outage = none) ∧
      (n.action.kind = .recovered → ∃ o, s.outage = some o ∧ o.since = n.action.since) := by
  obtain ⟨outage', notice, hstep, hnext, hout⟩ := exists_checkStep s call
  rw [hout] at hn
  rw [hnext]
  generalize s.outage = outage at hstep ⊢
  cases hstep with
  | quiet => exact nomatch hn
  | down =>
    obtain rfl := List.mem_singleton.mp hn
    have hdelivered : call.delivered = false := hfailed
    simp [hdelivered, SignalsMonitorAction.kind]
  | reminder =>
    obtain rfl := List.mem_singleton.mp hn
    have hdelivered : call.delivered = false := hfailed
    simp [hdelivered, SignalsMonitorAction.kind]
  | recovered =>
    obtain rfl := List.mem_singleton.mp hn
    have hdelivered : call.delivered = false := hfailed
    simp [hdelivered, SignalsMonitorAction.kind, SignalsMonitorAction.since]

/-- Without a healthy run nothing was ever recorded, and nothing is sent. -/
theorem outputs_of_never_healthy (hnone : s.outage = none)
    (hcalls : ∀ m ∈ calls, m.lastHealthyAt = none) : signalsMonitor.outputs s calls = [] := by
  induction calls generalizing s with
  | nil => rfl
  | cons call calls ih =>
    have hstamp := hcalls call List.mem_cons_self
    have hcheck : check call s.outage = (s.outage, none) := by
      rw [check, hstamp]
      rfl
    have hout : signalsMonitor.out s call = [] := by
      show (check call s.outage).2.toList = []
      rw [hcheck]
      rfl
    rw [System.outputs_cons, hout, List.nil_append]
    refine ih ?_ fun m hm => hcalls m (List.mem_cons_of_mem call hm)
    show (check call s.outage).1 = none
    rw [hcheck, hnone]

end Retry

/-- **What the owner can rely on**, over any sequence of calls. Between calls an outage is
recorded exactly if the owner knows of one; a delivered message is a `down` exactly if
the owner knows of none, and messages about an outage are six hours apart; a `down` or a
`recovered` that was not delivered is tried again by the next call for which it is due;
and as long as there was no healthy run, nothing is sent. -/
theorem owner_notices (clock : ℤ) (calls : List MonitorCall)
    (hrun : signalsMonitor.Run (.fresh clock) calls) :
    (∀ pre, pre <+: calls → ((signalsMonitor.final (.fresh clock) pre).outage.isSome ↔
      DownOpen (deliveredNotices (signalsMonitor.outputs (.fresh clock) pre)))) ∧
    (∀ xs n ys, deliveredNotices (signalsMonitor.outputs (.fresh clock) calls) =
        xs ++ n :: ys → (n.action.kind = .down ↔ ¬DownOpen xs)) ∧
    (∀ xs x y ys, deliveredNotices (signalsMonitor.outputs (.fresh clock) calls) =
        xs ++ x :: y :: ys → x.action.kind ≠ .recovered → y.action.kind ≠ .recovered →
      x.at_ + signalsReminderMs ≤ y.at_) ∧
    (∀ pre call mid call' post, calls = pre ++ call :: mid ++ call' :: post →
      ∀ n ∈ signalsMonitor.out (signalsMonitor.final (.fresh clock) pre) call,
        n.action.kind = .down → n.delivered = false → (∀ m ∈ mid, ¬m.Silent) →
        call'.Silent →
        ∃ n' ∈ signalsMonitor.out
          (signalsMonitor.final (.fresh clock) (pre ++ call :: mid)) call',
          n'.action.kind = .down) ∧
    (∀ pre call mid call' post, calls = pre ++ call :: mid ++ call' :: post →
      ∀ n ∈ signalsMonitor.out (signalsMonitor.final (.fresh clock) pre) call,
        n.action.kind = .recovered → n.delivered = false → (∀ m ∈ mid, ¬m.Healthy) →
        call'.Healthy →
        ∃ n' ∈ signalsMonitor.out
          (signalsMonitor.final (.fresh clock) (pre ++ call :: mid)) call',
          n'.action.kind = .recovered ∧ n'.action.since = n.action.since) ∧
    (∀ pre, pre <+: calls → (∀ call ∈ pre, call.lastHealthyAt = none) →
      signalsMonitor.outputs (.fresh clock) pre = []) := by
  have hrecorded := recorded_of_run hrun
  refine ⟨?_, ?_, ?_, ?_, ?_, ?_⟩
  · rintro pre ⟨post, rfl⟩
    exact (recorded_of_run ((System.run_append _ _ _ _).mp hrun).1).isOpen
  · intro xs n ys heq
    refine hrecorded.order xs n ?_
    rw [heq]
    exact ⟨ys, by simp⟩
  · intro xs x y ys heq
    refine hrecorded.spaced xs x y ?_
    rw [heq]
    exact ⟨ys, by simp⟩
  · intro pre call mid call' post _ n hn hkind hfailed hmid hdue
    obtain ⟨hsame, hnone, -⟩ := outage_of_undelivered hn hfailed
    refine exists_down ?_ hdue
    rw [System.final_append, System.final_cons]
    -- Nothing was recorded, and calls for which nothing is due record nothing either.
    exact outage_of_not_silent (hsame.trans (hnone hkind)) hmid
  · intro pre call mid call' post _ n hn hkind hfailed hmid hdue
    obtain ⟨hsame, -, hsome⟩ := outage_of_undelivered hn hfailed
    obtain ⟨o, ho, hsince⟩ := hsome hkind
    rw [System.final_append, System.final_cons]
    -- The outage stays recorded, with its start, until a healthy run.
    obtain ⟨o', ho', hsince'⟩ := outage_of_not_healthy (hsame.trans ho) hmid
    obtain ⟨n', hn', hkind', hsince''⟩ := exists_recovered ho' hdue
    exact ⟨n', hn', hkind', by rw [hsince'', hsince', hsince]⟩
  · exact fun pre _ hnever => outputs_of_never_healthy rfl hnever

/-- A healthy run, and then none for an hour and a half. -/
def silence : List MonitorCall := [⟨0, some 0, true⟩, ⟨signalsStaleMs, some 0, true⟩]

theorem owner_notices_of_silence :
    DownOpen (deliveredNotices (signalsMonitor.outputs (.fresh 0) silence)) :=
  ((owner_notices 0 silence (by decide)).1 silence (List.prefix_refl _)).mp (by decide)

end Signals

end CryptoZaloBot
