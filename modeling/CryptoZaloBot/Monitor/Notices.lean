import CryptoZaloBot.Monitor.Silences

/-!
# Repeated messages

How often the owner gets the same message, whatever becomes of the watcher's state. A
message that was delivered is remembered by the stored state or, if that could not be
saved, by a hold for an hour; each of them is a mark of the message on the world, and
while there is a mark nobody sends the message again (`CryptoZaloBot.Monitor.ReportMark`,
`CryptoZaloBot.Monitor.RecoveredMark`).

A kind of message has one hold, so that a message about another outage takes its place.
Two things go wrong with that. The memory of an instance is asked before Redis, and hides
the hold there if it is an older one (`CryptoZaloBot.Monitor.MemoryAgrees`); and a healthy
run that was seen by a run whose state was not saved can be lost again, so that the watcher
goes back to an outage before the one that is held (`CryptoZaloBot.Monitor.SilenceKnown`).
Runs that are careful about both repeat no message within the hour
(`CryptoZaloBot.Monitor.notices_apart`).
-/

namespace CryptoZaloBot

namespace Monitor

open PriceAlerts (minutes)

variable {ι : Type} {w : World ι} {run : MonitorRun ι} {clock S t : ℤ}
  {decision : MonitorDecision MonitorState} {sent : Option Sent} {ownerChatId : Option String}

/-! ### What a message leaves behind -/

/-- The outage is over, and the stored state knows it. -/
def World.Over (S : ℤ) (w : World ι) : Prop :=
  ∃ m ∈ w.monitor, (∀ o ∈ m.outage, S < o.since) ∧
    (m.outage = none → ∃ l ∈ m.lastHealthyAt, S < l)

/-- An outage a run starts from, once `S` is over, is a later one. -/
theorem World.Over.loaded (h : w.Over S) :
    (∀ o ∈ (w.loadedState run).bind MonitorState.outage, S < o.since) ∧
      ((w.loadedState run).bind MonitorState.outage = none →
        ∃ l ∈ heardAt w.monitor w.recentRuns, S < l) := by
  obtain ⟨m, hm, hlater, hseen⟩ := h
  have hloaded := loadedState_cases w run
  generalize w.loadedState run = state at hloaded
  cases hloaded with
  | stored =>
    rw [Option.mem_def.mp hm]
    refine ⟨hlater, fun hnone => ?_⟩
    obtain ⟨l, hl, hlt⟩ := hseen hnone
    have hstored : l ∈ (some m).bind MonitorState.lastHealthyAt := hl
    obtain ⟨l', hl', hle⟩ := exists_heardAt_of_stored w.recentRuns hstored
    exact ⟨l', hl', hlt.trans_le hle⟩
  | @restored m' _ S' stored untold _ _ lasting =>
    obtain rfl := Option.some.inj (stored.symm.trans hm)
    refine ⟨fun o ho => ?_, fun hnone => by simp at hnone⟩
    obtain rfl := Option.some.inj ho
    cases hout : m'.outage with
    | none =>
      obtain ⟨l, hl, hlt⟩ := hseen hout
      exact hlt.trans_le (lasting l hl)
    | some o =>
      have hlt := hlater o hout
      rwa [untold o hout] at hlt

/-! ### Careful runs -/

/-- **The run knows of the latest outage that is held**: if it starts from no outage, the
silence it measures does not start before an outage that Redis holds a message about. -/
def SilenceKnown (w : World ι) (run : MonitorRun ι) : Prop :=
  (w.loadedState run).bind MonitorState.outage = none →
    ∀ kind ∈ [NoticeHoldKind.outage, .recovered],
      ∀ hold ∈ w.getNoticeHold kind run.now, ∀ S ∈ hold.since,
        S ≤ silentSince w.monitor w.recentRuns run.now

/-- A watcher run that reads its state, and meets both conditions. -/
structure CarefulRun (w : World ι) (clock : ℤ) (run : MonitorRun ι) : Prop
    extends AgreedRun w clock run where
  known : SilenceKnown w run

/-! ### Marks -/

/-- **Another outage took the place** of `S`, which no run can go back to while it is held. -/
def World.Displaced (S t : ℤ) (w : World ι) : Prop :=
  ∃ m ∈ w.monitor, m.watcherStartedAt ≤ S ∧ m.outage = none ∧
    ∃ S', S < S' ∧ w.HoldsAbout .outage S' t

/-- **The mark of a report**, a `down` or `reminder` about `S` delivered at `t`. -/
inductive ReportMark (S t : ℤ) (w : World ι) (clock : ℤ) : Prop
  | past (h : t + stateUnreadableNoticeMs ≤ clock)
  | ended (h : w.Over S)
  | displaced (h : w.Displaced S t)
  /-- The state remembers the message, or that the outage has ended. -/
  | recorded {m : MonitorState} {notifiedAt : Option ℤ} (stored : w.monitor = some m)
      (outage : m.outage = some ⟨S, notifiedAt⟩)
      (grounds : (∃ l ∈ m.lastHealthyAt, S < l) ∨ ∃ n ∈ notifiedAt, t ≤ n)
  | held {m : MonitorState} (stored : w.monitor = some m)
      (same : ∀ o ∈ m.outage, o.since = S ∧ ∀ n ∈ o.notifiedAt, n + outageReminderMs ≤ clock)
      (hold : w.HoldsAbout .outage S t)

/-- **The mark of a `recovered`** about `S` delivered at `t`. -/
inductive RecoveredMark (S t : ℤ) (w : World ι) (clock : ℤ) : Prop
  | past (h : t + stateUnreadableNoticeMs ≤ clock)
  | ended (h : w.Over S)
  | displaced (h : w.Displaced S t)
  | ending {m : MonitorState} {notifiedAt : Option ℤ} (hold : w.HoldsAbout .recovered S t)
      (stored : w.monitor = some m) (outage : m.outage = some ⟨S, notifiedAt⟩)
  /-- Only the hold of the report remembers the outage. -/
  | unrecorded {m : MonitorState} {t' : ℤ} (hold : w.HoldsAbout .recovered S t)
      (stored : w.monitor = some m) (outage : m.outage = none) (report : w.HoldsAbout .outage S t')

/-- A silence after `S` starts at a healthy run, if the watcher started before `S`. -/
theorem exists_heardAt_gt (hstart : startedAt w.monitor run.now ≤ S)
    (hlt : S < silentSince w.monitor w.recentRuns run.now) :
    ∃ l ∈ heardAt w.monitor w.recentRuns, S < l := by
  rcases silentSince_eq w.monitor w.recentRuns run.now with heq | hmem
  · omega
  · exact ⟨_, hmem, hlt⟩

/-- An outage a report is held about is a silence. -/
theorem CarefulRun.silent (hc : CarefulRun w clock run) (hreport : w.HoldsAbout .outage S t) :
    w.Silent S clock := by
  obtain ⟨report, hmem, hsince, -⟩ := hreport
  obtain ⟨S', hS', hsilent⟩ := hc.anchored.held report (.inl hmem)
  obtain rfl := Option.some.inj (hsince.symm.trans hS')
  exact hsilent

/-- A run whose predecessors forgot `S` for a later outage. -/
theorem CarefulRun.loaded_displaced (hc : CarefulRun w clock run) (hdisplaced : w.Displaced S t)
    (hlive : run.now < t + stateUnreadableNoticeMs) :
    (∀ o ∈ (w.loadedState run).bind MonitorState.outage, S < o.since) ∧
      ((w.loadedState run).bind MonitorState.outage = none →
        ∃ l ∈ heardAt w.monitor w.recentRuns, S < l) := by
  obtain ⟨m, hm, hstart, hnone, S', hlt, hold⟩ := hdisplaced
  obtain ⟨hold, hget, hsince, -⟩ := hold.live hlive
  constructor
  · intro o ho
    rcases hc.loaded_cases with hsame | ⟨_, S'', t', -, -, -, hout, hget'⟩
    · rw [hsame, Option.mem_def.mp hm] at ho
      exact absurd ho (by simp [hnone])
    · obtain rfl := Option.some.inj (hget.symm.trans hget')
      obtain rfl := Option.some.inj hsince
      obtain rfl := Option.some.inj (hout.symm.trans ho)
      exact hlt
  · intro hout
    have hle := hc.known hout .outage (by decide) hold hget S' hsince
    refine exists_heardAt_gt ?_ (hlt.trans_le hle)
    rw [startedAt, Option.mem_def.mp hm]
    exact hstart

/-- A healthy run ends an outage that the run before it stored. -/
theorem over_of_ended (hstep : MonitorStep (w.loadedState run) w.recentRuns run.now decision)
    {l : ℤ} (hl : l ∈ heardAt w.monitor w.recentRuns) (hlt : S < l)
    (hnext : (nextMonitor ownerChatId decision sent).outage = none) :
    World.Over S { w with monitor := some (nextMonitor ownerChatId decision sent) } :=
  ⟨_, rfl, by simp [hnext], fun _ => ⟨l, (lastHealthyAt_nextMonitor hstep).symm ▸ hl, hlt⟩⟩

/-- **What a run starts from** if all that is stored or held is about `S`: the outage `S`, or
no outage. -/
theorem CarefulRun.loaded_about {m : MonitorState} (hc : CarefulRun w clock run)
    (hm : w.monitor = some m) (hsame : ∀ o ∈ m.outage, o.since = S)
    (hheld : m.outage = none → ∀ hold ∈ w.getNoticeHold .outage run.now, hold.since = some S) :
    (∃ x, (w.loadedState run).bind MonitorState.outage = some ⟨S, x⟩ ∧
        (m.outage = some ⟨S, x⟩ ∨
          ∃ hold ∈ w.getNoticeHold .outage run.now, x = some hold.sentAt)) ∨
      m.outage = none ∧ (w.loadedState run).bind MonitorState.outage = none := by
  rcases hc.loaded_cases with hstored | ⟨m', S', t', hm', huntold, -, hout, hget⟩
  · rw [Option.mem_def.mp hm] at hstored
    change _ = m.outage at hstored
    rw [hstored]
    cases ho : m.outage with
    | none => exact .inr ⟨rfl, rfl⟩
    | some o =>
      obtain ⟨S', x⟩ := o
      obtain rfl : S' = S := hsame _ ho
      exact .inl ⟨x, rfl, .inl rfl⟩
  · obtain rfl := Option.some.inj (hm.symm.trans hm')
    obtain rfl : S' = S := by
      cases ho : m.outage with
      | none => simpa using hheld ho _ hget
      | some o =>
        rw [← hsame o ho, huntold o ho]
    exact .inl ⟨_, hout, .inr ⟨_, hget, rfl⟩⟩

/-- An outage the state knows to be told or over is not put back. -/
theorem CarefulRun.loaded_recorded {m : MonitorState} {x : Option ℤ} (hc : CarefulRun w clock run)
    (hm : w.monitor = some m) (hx : m.outage = some ⟨S, x⟩)
    (hgrounds : (∃ l ∈ m.lastHealthyAt, S < l) ∨ ∃ n ∈ x, t ≤ n) :
    (w.loadedState run).bind MonitorState.outage = some ⟨S, x⟩ := by
  rcases hc.loaded_cases with hsame | ⟨m', S', t', hm', huntold, hlasting, -, -⟩
  · rw [hsame, hm]
    exact hx
  · obtain rfl := Option.some.inj (hm.symm.trans hm')
    obtain ⟨rfl, rfl⟩ : S = S' ∧ x = none := by simpa using huntold _ hx
    rcases hgrounds with ⟨l, hl, hlt⟩ | ⟨n, hn, -⟩
    · exact absurd (hlasting l hl) (not_le.mpr hlt)
    · cases hn

/-- While such an outage lasts, the state knows when it was told. -/
theorem exists_notifiedAt {m : MonitorState} {x : Option ℤ} (hm : w.monitor = some m)
    (hgrounds : (∃ l ∈ m.lastHealthyAt, S < l) ∨ ∃ n ∈ x, t ≤ n)
    (hlasting : ∀ l ∈ heardAt w.monitor w.recentRuns, l ≤ S) : ∃ n ∈ x, t ≤ n := by
  rcases hgrounds with ⟨l, hl, hlt⟩ | hreport
  · have hstored : l ∈ w.monitor.bind MonitorState.lastHealthyAt := hm ▸ hl
    obtain ⟨l', hl', hle⟩ := exists_heardAt_of_stored w.recentRuns hstored
    exact absurd (hlasting l' hl') (not_le.mpr (hlt.trans_le hle))
  · exact hreport

/-- What a run stores about `S`: that it is over or ending, or when it was reported. -/
theorem ReportMark.of_saved {y : Option ℤ}
    (hstep : MonitorStep (w.loadedState run) w.recentRuns run.now decision)
    (hnext : (nextMonitor ownerChatId decision sent).outage = some ⟨S, y⟩)
    (hgrounds : (∃ l ∈ heardAt w.monitor w.recentRuns, S < l) ∨ ∃ n ∈ y, t ≤ n) :
    ReportMark S t { w with monitor := some (nextMonitor ownerChatId decision sent) } run.now :=
  .recorded rfl hnext ((lastHealthyAt_nextMonitor hstep).symm ▸ hgrounds)

theorem ReportMark.of_ended {x : Option ℤ} {l : ℤ}
    (hstep : MonitorStep (w.loadedState run) w.recentRuns run.now decision)
    (hl : l ∈ heardAt w.monitor w.recentRuns) (hlt : S < l)
    (hnext : (nextMonitor ownerChatId decision sent).outage = none ∨
      (nextMonitor ownerChatId decision sent).outage = some ⟨S, x⟩) :
    ReportMark S t { w with monitor := some (nextMonitor ownerChatId decision sent) } run.now := by
  rcases hnext with hnext | hnext
  · exact .ended (over_of_ended hstep hl hlt hnext)
  · exact .of_saved hstep hnext (.inl ⟨l, hl, hlt⟩)

section Ran

variable [DecidableEq ι] {w' : World ι} {notices : List MonitorNotice} {kind : NoticeHoldKind}

/-- A run that starts after `S` and can save its state stores that `S` is over. -/
theorem CarefulRun.over_saved (hc : CarefulRun w clock run)
    (h : WatcherRan ownerChatId w run decision sent w' notices)
    (hlater : ∀ o ∈ (w.loadedState run).bind MonitorState.outage, S < o.since)
    (hseen : (w.loadedState run).bind MonitorState.outage = none →
      ∃ l ∈ heardAt w.monitor w.recentRuns, S < l) :
    World.Over S { w with monitor := some (nextMonitor ownerChatId decision sent) } := by
  obtain ⟨hafter, hnone, -⟩ := (hc.outageStep h).later hlater hseen
  exact ⟨_, rfl, hafter, fun ho => (lastHealthyAt_nextMonitor h.step).symm ▸ hnone ho⟩

/-- **Over is over.** -/
theorem World.Over.ran (hover : w.Over S) (hc : CarefulRun w clock run)
    (h : WatcherRan ownerChatId w run decision sent w' notices) : w'.Over S := by
  rcases h.recorded with ⟨-, rfl⟩ | ⟨-, -, rfl⟩ | @⟨a, -, -, -, -, rfl⟩
  · exact hc.over_saved h hover.loaded.1 hover.loaded.2
  · exact hover
  · obtain ⟨m, hm, hrest⟩ := hover
    exact ⟨m, (monitor_holdAfterUnrecordedSend a).trans hm, hrest⟩

theorem World.Displaced.ran (hdisplaced : w.Displaced S t) (hc : CarefulRun w clock run)
    (hlive : run.now < t + stateUnreadableNoticeMs) (ht : t ≤ run.now)
    (h : WatcherRan ownerChatId w run decision sent w' notices) :
    w'.Over S ∨ w'.Displaced S t := by
  obtain ⟨hlater, hseen⟩ := hc.loaded_displaced hdisplaced hlive
  rcases h.recorded with ⟨-, rfl⟩ | ⟨-, -, rfl⟩ | @⟨a, _, -, due, hsent, rfl⟩
  · exact .inl (hc.over_saved h hlater hseen)
  · exact .inr hdisplaced
  · obtain ⟨m, hm, hstart, hnone, S', hlt, hold⟩ := hdisplaced
    refine .inr ⟨m, (monitor_holdAfterUnrecordedSend a).trans hm, hstart, hnone, ?_⟩
    by_cases hkind : holdOf a = .outage
    · -- The new hold is about an outage after `S`, as all that a run says is.
      have hsince := ((hc.outageStep h).later hlater hseen).2.2 a due
      exact ⟨a.since, hsince, hkind ▸ holdsAbout_holdAfterUnrecordedSend w hc.answered ht a⟩
    · exact ⟨S', hlt, hold.other (Ne.symm hkind)⟩

/-- **A run that starts from no outage** while a report about `S` is held measures a silence
after `S`, or the one of `S`, which it has to report. -/
theorem CarefulRun.measured (hc : CarefulRun w clock run)
    (h : WatcherRan ownerChatId w run decision sent w' notices)
    (hreport : w.HoldsAbout .outage S t)
    (hout : (w.loadedState run).bind MonitorState.outage = none)
    (hge : S ≤ silentSince w.monitor w.recentRuns run.now) :
    World.Over S { w with monitor := some (nextMonitor ownerChatId decision sent) } ∨
      ∃ a, decision.action = some a ∧ holdOf a = .outage ∧ a.since = S ∧
        (nextMonitor ownerChatId decision sent).outage = some ⟨S, sent.map Sent.sentAt⟩ := by
  have hsilent := hc.silent hreport
  rcases hge.lt_or_eq with hlt | heq
  · have hseen := exists_heardAt_gt (hsilent.startedAt_le run.now) hlt
    exact .inl (hc.over_saved h (by simp [hout]) fun _ => hseen)
  · have houtage := hc.outageStep h
    rw [hout] at houtage
    rcases houtage.of_none with ⟨-, -, hrecent⟩ | ⟨a, due, hof, about, hnext⟩
    · -- The silence has lasted the threshold, so it does not pass for a short one.
      have := hsilent.2
      have := hc.le
      omega
    · obtain rfl : a.since = S := about.trans heq.symm
      exact .inr ⟨a, due, hof, rfl, hnext⟩

/-- A run that starts from an outage the state remembers a report about. -/
theorem ReportMark.ran_recorded {m : MonitorState} {x : Option ℤ} (hc : CarefulRun w clock run)
    (hm : w.monitor = some m) (hx : m.outage = some ⟨S, x⟩)
    (hgrounds : (∃ l ∈ m.lastHealthyAt, S < l) ∨ ∃ n ∈ x, t ≤ n)
    (h : WatcherRan ownerChatId w run decision sent w' notices) : ReportMark S t w' run.now := by
  have houtage := hc.outageStep h
  rw [hc.loaded_recorded hm hx hgrounds] at houtage
  rcases h.recorded with ⟨-, rfl⟩ | ⟨-, -, rfl⟩ | @⟨a, -, -, -, -, rfl⟩
  · rcases houtage.of_some with ⟨l, hl, hlt, hnext⟩ | ⟨hlasting, hnext⟩
    · exact .of_ended h.step hl hlt hnext
    · obtain ⟨n, hn, hle⟩ := exists_notifiedAt hm hgrounds hlasting
      rcases hnext with ⟨-, hnext, -⟩ | ⟨a, -, -, -, hnext, hdue⟩
      · exact .of_saved h.step hnext (.inr ⟨n, hn, hle⟩)
      · cases hsent : sent with
        | none =>
          rw [hsent] at hnext
          exact .of_saved h.step hnext (.inr ⟨n, hn, hle⟩)
        | some s =>
          -- A reminder that is held went out within the last hour, so after the report.
          have hlt := h.notified.lt_sentAt hsent
          have hhour : stateUnreadableNoticeMs ≤ outageReminderMs := by decide
          have := hdue n hn
          rw [hsent] at hnext
          exact .of_saved h.step hnext (.inr ⟨s.sentAt, rfl, by omega⟩)
  · exact .recorded hm hx hgrounds
  · exact .recorded ((monitor_holdAfterUnrecordedSend a).trans hm) hx hgrounds

/-- A run while a report about `S` is held and the state does not remember it. -/
theorem ReportMark.ran_held {m : MonitorState} (hc : CarefulRun w clock run)
    (hlive : run.now < t + stateUnreadableNoticeMs) (ht : t ≤ run.now)
    (hm : w.monitor = some m)
    (hsame : ∀ o ∈ m.outage, o.since = S ∧ ∀ n ∈ o.notifiedAt, n + outageReminderMs ≤ clock)
    (hhold : w.HoldsAbout .outage S t)
    (h : WatcherRan ownerChatId w run decision sent w' notices) : ReportMark S t w' run.now := by
  obtain ⟨hold, hget, hsince, hle⟩ := hhold.live hlive
  have houtage := hc.outageStep h
  have hloaded := hc.loaded_about hm (fun o ho => (hsame o ho).1) fun _ hold' hget' => by
    rw [← Option.some.inj (hget.symm.trans hget')]
    exact hsince
  -- A report about `S` counts as delivered when the hold was taken.
  have hheld {a : MonitorAction} (due : decision.action = some a) (hof : holdOf a = .outage)
      (about : a.since = S) : sent = some ⟨hold.sentAt, true⟩ :=
    (hc.not_repeated h hget hsince (by decide) due hof about).1
  have hge (hout : (w.loadedState run).bind MonitorState.outage = none) :
      S ≤ silentSince w.monitor w.recentRuns run.now :=
    hc.known hout .outage (by decide) hold hget S hsince
  have hkept (w'' : World ι) (hmonitor : w''.monitor = some m)
      (hhold : w''.HoldsAbout .outage S t) : ReportMark S t w'' run.now := by
    refine .held hmonitor (fun o ho => ⟨(hsame o ho).1, fun n hn => ?_⟩) hhold
    exact ((hsame o ho).2 n hn).trans hc.le
  rcases h.recorded with ⟨-, rfl⟩ | ⟨-, -, rfl⟩ | @⟨a, _, -, due, hsent, rfl⟩
  · rcases hloaded with ⟨x, hx, hor⟩ | ⟨hnone, hout⟩
    · rw [hx] at houtage
      rcases houtage.of_some with ⟨l, hl, hlt, hnext⟩ | ⟨hlasting, hnext⟩
      · exact .of_ended h.step hl hlt hnext
      · rcases hnext with ⟨-, hnext, n, hn, hnotDue⟩ | ⟨a, due, hof, about, hnext, -⟩
        · refine .of_saved h.step hnext (.inr ⟨n, hn, ?_⟩)
          rcases hor with hstored | ⟨hold', hget', rfl⟩
          · have := (hsame _ hstored).2 n hn
            have := hc.le
            omega
          · obtain rfl := Option.some.inj (hget.symm.trans hget')
            rwa [← Option.some.inj hn]
        -- What is due again is the message that is held: it is recorded as delivered then.
        · have hsent := hheld due hof about
          refine .of_saved h.step hnext (.inr ⟨hold.sentAt, ?_, hle⟩)
          rw [hsent]
          rfl
    · rcases hc.measured h hhold hout (hge hout) with hover | ⟨a, due, hof, about, hnext⟩
      · exact .ended hover
      · have hsent := hheld due hof about
        refine .of_saved h.step hnext (.inr ⟨hold.sentAt, ?_, hle⟩)
        rw [hsent]
        rfl
  · exact hkept _ hm hhold
  · have hmonitor := (@monitor_holdAfterUnrecordedSend ι w run _ a).trans hm
    by_cases hkind : holdOf a = .outage
    · -- It is about another outage, so about a later one.
      have hne : a.since ≠ S := by
        intro about
        cases hsent.symm.trans (hheld due hkind about)
      rcases hloaded with ⟨x, hx, -⟩ | ⟨hnone, hout⟩
      · rw [hx] at houtage
        exact absurd (houtage.since_eq due) hne
      · rw [hout] at houtage
        obtain ⟨⟨m', hm', hstart⟩, -⟩ := hc.silent hhold
        obtain rfl := Option.some.inj (hm.symm.trans hm')
        have hheld := holdsAbout_holdAfterUnrecordedSend w hc.answered ht a
        rw [hkind] at hheld
        refine .displaced ⟨m, hmonitor, hstart, hnone, a.since, ?_, hheld⟩
        exact lt_of_le_of_ne (houtage.since_eq_silentSince due ▸ hge hout) hne.symm
    · exact hkept _ hmonitor (hhold.other (Ne.symm hkind))

/-- **A report's mark stays.** -/
theorem ReportMark.ran (hmark : ReportMark S t w clock) (hc : CarefulRun w clock run)
    (ht : t ≤ run.now) (h : WatcherRan ownerChatId w run decision sent w' notices) :
    ReportMark S t w' run.now := by
  by_cases hlive : run.now < t + stateUnreadableNoticeMs
  · cases hmark with
    | past hpast =>
      have := hc.le
      omega
    | ended hover => exact .ended (hover.ran hc h)
    | displaced hdisplaced =>
      rcases hdisplaced.ran hc hlive ht h with hover | hdisplaced
      · exact .ended hover
      · exact .displaced hdisplaced
    | recorded stored outage grounds => exact .ran_recorded hc stored outage grounds h
    | held stored same hold => exact .ran_held hc hlive ht stored same hold h
  · exact .past (not_lt.mp hlive)

/-- What is said is a report about `S` or one of its kind, if the `recovered` is held. -/
theorem CarefulRun.holdOf_eq_outage (hc : CarefulRun w clock run)
    (h : WatcherRan ownerChatId w run decision sent w' notices) {hold : NoticeHold}
    (hget : w.getNoticeHold .recovered run.now = some hold) (hsince : hold.since = some S)
    {a : MonitorAction} {sentAt : ℤ} (due : decision.action = some a)
    (hsent : sent = some ⟨sentAt, false⟩) (about : a.since = S) : holdOf a = .outage := by
  rcases h.step.kind_action due with hkind | hkind | hkind
  · rw [holdOf, hkind]
  · rw [holdOf, hkind]
  · have hof : holdOf a = .recovered := by rw [holdOf, hkind]
    have hheld := (hc.not_repeated h hget hsince (by decide) due hof about).1
    cases hsent.symm.trans hheld

/-- A run that starts from the outage `S` while a `recovered` about it is held. -/
theorem RecoveredMark.ran_started {x : Option ℤ} (hc : CarefulRun w clock run)
    (hlive : run.now < t + stateUnreadableNoticeMs) (hhold : w.HoldsAbout .recovered S t)
    (hx : (w.loadedState run).bind MonitorState.outage = some ⟨S, x⟩)
    (hmark : RecoveredMark S t w run.now)
    (hreport : ∀ w'' : World ι, w''.monitor = w.monitor → w''.HoldsAbout .recovered S t →
      w''.HoldsAbout .outage S run.now → RecoveredMark S t w'' run.now)
    (h : WatcherRan ownerChatId w run decision sent w' notices) :
    RecoveredMark S t w' run.now := by
  obtain ⟨hold, hget, hsince, -⟩ := hhold.live hlive
  have houtage := hc.outageStep h
  rw [hx] at houtage
  rcases h.recorded with ⟨-, rfl⟩ | ⟨-, -, rfl⟩ | @⟨a, _, -, due, hsent, rfl⟩
  · rcases houtage.of_some with ⟨l, hl, hlt, hnext | hnext⟩ | ⟨-, ⟨-, hnext, -⟩ | hnext⟩
    · exact .ended (over_of_ended h.step hl hlt hnext)
    · exact .ending hhold rfl hnext
    · exact .ending hhold rfl hnext
    · obtain ⟨a, -, -, -, hnext, -⟩ := hnext
      exact .ending hhold rfl hnext
  · exact hmark
  · have about := houtage.since_eq due
    have hof := hc.holdOf_eq_outage h hget hsince due hsent about
    refine hreport _ (monitor_holdAfterUnrecordedSend a) (hhold.other (by rw [hof]; decide)) ?_
    have := holdsAbout_holdAfterUnrecordedSend w hc.answered le_rfl a
    rwa [hof, about] at this

/-- A run that starts from no outage while the `recovered` about `S` and a report about it are
held. -/
theorem RecoveredMark.ran_unrecorded {m : MonitorState} {t' : ℤ} (hc : CarefulRun w clock run)
    (hlive : run.now < t + stateUnreadableNoticeMs) (ht : t ≤ run.now)
    (hhold : w.HoldsAbout .recovered S t) (hm : w.monitor = some m) (hnone : m.outage = none)
    (hreport : w.HoldsAbout .outage S t')
    (hout : (w.loadedState run).bind MonitorState.outage = none)
    (h : WatcherRan ownerChatId w run decision sent w' notices) :
    RecoveredMark S t w' run.now := by
  obtain ⟨hold, hget, hsince, -⟩ := hhold.live hlive
  have hge : S ≤ silentSince w.monitor w.recentRuns run.now :=
    hc.known hout .recovered (by decide) hold hget S hsince
  have houtage := hc.outageStep h
  rw [hout] at houtage
  rcases h.recorded with ⟨-, rfl⟩ | ⟨-, -, rfl⟩ | @⟨a, _, -, due, hsent, rfl⟩
  · rcases hc.measured h hreport hout hge with hover | ⟨a, -, -, -, hnext⟩
    · exact .ended hover
    · exact .ending hhold rfl hnext
  · exact .unrecorded hhold hm hnone hreport
  · have hmonitor := (@monitor_holdAfterUnrecordedSend ι w run _ a).trans hm
    obtain ⟨b, due', hof, about, -⟩ := houtage.of_none.resolve_left fun hidle => by
      simp [due] at hidle
    obtain rfl := Option.some.inj (due.symm.trans due')
    have hnew := holdsAbout_holdAfterUnrecordedSend w hc.answered ht a
    rw [hof] at hnew
    have hrecovered : (w.holdAfterUnrecordedSend run a).HoldsAbout .recovered S t :=
      hhold.other (by rw [hof]; decide)
    -- The hold moves to a later outage, or it is renewed.
    rcases (about ▸ hge : S ≤ a.since).lt_or_eq with hlt | heq
    · obtain ⟨⟨m', hm', hstart⟩, -⟩ := hc.silent hreport
      obtain rfl := Option.some.inj (hm.symm.trans hm')
      exact .displaced ⟨m, hmonitor, hstart, hnone, a.since, hlt, hnew⟩
    · rw [← heq] at hnew
      exact .unrecorded hrecovered hmonitor hnone hnew

/-- **The mark of a `recovered` stays.** -/
theorem RecoveredMark.ran (hmark : RecoveredMark S t w clock) (hc : CarefulRun w clock run)
    (ht : t ≤ run.now) (h : WatcherRan ownerChatId w run decision sent w' notices) :
    RecoveredMark S t w' run.now := by
  by_cases hlive : run.now < t + stateUnreadableNoticeMs
  · cases hmark with
    | past hpast =>
      have := hc.le
      omega
    | ended hover => exact .ended (hover.ran hc h)
    | displaced hdisplaced =>
      rcases hdisplaced.ran hc hlive ht h with hover | hdisplaced
      · exact .ended hover
      · exact .displaced hdisplaced
    | @ending m x hold stored outage =>
      have hsame : ∀ o ∈ m.outage, o.since = S := by
        intro o ho
        rw [← Option.some.inj (outage.symm.trans ho)]
      rcases hc.loaded_about stored hsame (by simp [outage]) with ⟨x', hx, -⟩ | ⟨hnone, -⟩
      · refine .ran_started hc hlive hold hx (.ending hold stored outage) ?_ h
        exact fun w'' hmonitor hhold _ => .ending hhold (hmonitor.trans stored) outage
      · cases outage.symm.trans hnone
    | @unrecorded m t' hold stored outage report =>
      obtain ⟨held, hmem, hsince, -⟩ := id report
      rcases hc.loaded_about stored (by simp [outage]) (fun _ held' hget => by
        rw [← Option.some.inj (hmem.symm.trans (Option.filter_eq_some_iff.mp hget).1)]
        exact hsince) with ⟨x, hx, -⟩ | ⟨-, hout⟩
      · refine .ran_started hc hlive hold hx (.unrecorded hold stored outage report) ?_ h
        exact fun w'' hmonitor hhold => .unrecorded hhold (hmonitor.trans stored) outage
      · exact .ran_unrecorded hc hlive ht hold stored outage report hout h
  · exact .past (not_lt.mp hlive)

/-! ### Messages leave marks, and are not repeated while they are there -/

/-- **A report that was delivered leaves a mark.** -/
theorem ReportMark.of_delivered (hc : CarefulRun w clock run)
    (h : WatcherRan ownerChatId w run decision sent w' notices) {a : MonitorAction}
    (due : decision.action = some a) (hof : holdOf a = .outage)
    (hsent : sent = some ⟨run.now, false⟩) : ReportMark a.since run.now w' run.now := by
  obtain ⟨-, hstart, hnext⟩ := (hc.outageStep h).of_report due hof
  rcases h.recorded with ⟨-, rfl⟩ | ⟨-, hnothing, -⟩ | @⟨b, _, -, due', -, rfl⟩
  · exact .of_saved h.step (hnext _ hsent) (.inr ⟨run.now, rfl, le_rfl⟩)
  · exact absurd hsent (hnothing a _ due)
  · obtain rfl := Option.some.inj (due.symm.trans due')
    obtain ⟨⟨m, hm, -⟩, -⟩ := hc.anchored.action hc.le h.step due
    refine .held ((monitor_holdAfterUnrecordedSend a).trans hm) (fun o ho => ?_)
      (hof ▸ holdsAbout_holdAfterUnrecordedSend w hc.answered le_rfl a)
    rcases hc.loaded_cases with hstored | ⟨m', S', t', hm', huntold, -, hout, -⟩
    · rw [hstored, Option.mem_def.mp hm] at hstart
      exact hstart o ho
    · obtain rfl := Option.some.inj (hm'.symm.trans hm)
      rw [hout] at hstart
      rw [huntold o ho]
      exact ⟨(hstart _ rfl).1, by simp⟩

/-- **A `recovered` that was delivered leaves a mark.** -/
theorem RecoveredMark.of_delivered (hc : CarefulRun w clock run)
    (h : WatcherRan ownerChatId w run decision sent w' notices) {a : MonitorAction}
    (due : decision.action = some a) (hof : holdOf a = .recovered)
    (hsent : sent = some ⟨run.now, false⟩) : RecoveredMark a.since run.now w' run.now := by
  obtain ⟨n, hstart, l, hl, hlt, hnext⟩ :=
    (hc.outageStep h).of_recovered due hof
  rcases h.recorded with ⟨-, rfl⟩ | ⟨-, hnothing, -⟩ | @⟨b, _, -, due', -, rfl⟩
  · exact .ended (over_of_ended h.step hl hlt (hnext (by rw [hsent]; rfl)))
  · exact absurd hsent (hnothing a _ due)
  · obtain rfl := Option.some.inj (due.symm.trans due')
    have hnew := holdsAbout_holdAfterUnrecordedSend w hc.answered le_rfl a
    rw [hof] at hnew
    rcases hc.loaded_cases with hstored | ⟨m, S', t', hm, huntold, -, hout, hget⟩
    · rw [hstored] at hstart
      obtain ⟨m, hm, hout⟩ := Option.bind_eq_some_iff.mp hstart
      exact .ending hnew ((monitor_holdAfterUnrecordedSend a).trans hm) hout
    · obtain ⟨rfl, rfl⟩ : S' = a.since ∧ t' = n := by simpa using hout.symm.trans hstart
      have hm' := (@monitor_holdAfterUnrecordedSend ι w run _ a).trans hm
      cases ho : m.outage with
      | none =>
        have hreport : w.HoldsAbout .outage a.since t' :=
          ⟨_, (Option.filter_eq_some_iff.mp hget).1, rfl, le_rfl⟩
        exact .unrecorded hnew hm' ho (hreport.other (by rw [hof]; decide))
      | some o =>
        rw [huntold o ho] at ho
        exact .ending hnew hm' ho

/-- **A report is not repeated within the hour.** -/
theorem ReportMark.le_now (hmark : ReportMark S t w clock) (hc : CarefulRun w clock run)
    (h : WatcherRan ownerChatId w run decision sent w' notices) {a : MonitorAction}
    (due : decision.action = some a) (hof : holdOf a = .outage) (about : a.since = S)
    (hnotices : notices ≠ []) : t + stateUnreadableNoticeMs ≤ run.now := by
  have houtage := hc.outageStep h
  by_contra hlive
  rw [not_le] at hlive
  cases hmark with
  | past hpast =>
    have := hc.le
    omega
  | ended hover =>
    have := (houtage.later hover.loaded.1 hover.loaded.2).2.2 a due
    omega
  | displaced hdisplaced =>
    obtain ⟨hlater, hseen⟩ := hc.loaded_displaced hdisplaced hlive
    have := (houtage.later hlater hseen).2.2 a due
    omega
  | recorded stored outage grounds =>
    rw [hc.loaded_recorded stored outage grounds] at houtage
    obtain ⟨hlasting, hstart, -⟩ := houtage.of_report due hof
    obtain ⟨n, hn, hle⟩ := exists_notifiedAt stored grounds (about ▸ hlasting)
    have hdue := (hstart _ rfl).2 n hn
    have hhour : stateUnreadableNoticeMs ≤ outageReminderMs := by decide
    omega
  | held stored same hold =>
    obtain ⟨hold, hget, hsince, -⟩ := hold.live hlive
    exact hnotices (hc.not_repeated h hget hsince (by decide) due hof about).2

/-- **A `recovered` is not repeated within the hour.** -/
theorem RecoveredMark.le_now (hmark : RecoveredMark S t w clock) (hc : CarefulRun w clock run)
    (h : WatcherRan ownerChatId w run decision sent w' notices) {a : MonitorAction}
    (due : decision.action = some a) (hof : holdOf a = .recovered) (about : a.since = S)
    (hnotices : notices ≠ []) : t + stateUnreadableNoticeMs ≤ run.now := by
  have houtage := hc.outageStep h
  by_contra hlive
  rw [not_le] at hlive
  -- While the `recovered` is held, it counts as delivered.
  have hheld (hold : w.HoldsAbout .recovered S t) : False := by
    obtain ⟨hold, hget, hsince, -⟩ := hold.live hlive
    exact hnotices (hc.not_repeated h hget hsince (by decide) due hof about).2
  cases hmark with
  | past hpast =>
    have := hc.le
    omega
  | ended hover =>
    have := (houtage.later hover.loaded.1 hover.loaded.2).2.2 a due
    omega
  | displaced hdisplaced =>
    obtain ⟨hlater, hseen⟩ := hc.loaded_displaced hdisplaced hlive
    have := (houtage.later hlater hseen).2.2 a due
    omega
  | ending hold => exact hheld hold
  | unrecorded hold => exact hheld hold

end Ran

/-! ### The service over time -/

/-- Nothing a mark depends on has changed. -/
def World.SameMarks (w w' : World ι) : Prop :=
  w'.monitor = w.monitor ∧
    ∀ kind ∈ [NoticeHoldKind.outage, .recovered], w'.noticeHolds kind = w.noticeHolds kind

section Frame

variable {w' : World ι} {now : ℤ}

theorem World.Displaced.frame (h : w.Displaced S t) (hsame : w.SameMarks w') :
    w'.Displaced S t := by
  obtain ⟨m, hm, hstart, hnone, S', hlt, hold, hhold, hrest⟩ := h
  refine ⟨m, hsame.1.trans hm, hstart, hnone, S', hlt, hold, ?_, hrest⟩
  exact (hsame.2 .outage (by decide)).trans hhold

theorem World.Over.frame (h : w.Over S) (hsame : w.SameMarks w') : w'.Over S := by
  obtain ⟨m, hm, hrest⟩ := h
  exact ⟨m, hsame.1.trans hm, hrest⟩

theorem World.HoldsAbout.frame {kind : NoticeHoldKind} (h : w.HoldsAbout kind S t)
    (hkind : kind ∈ [NoticeHoldKind.outage, .recovered]) (hsame : w.SameMarks w') :
    w'.HoldsAbout kind S t := by
  obtain ⟨hold, hhold, hrest⟩ := h
  exact ⟨hold, (hsame.2 kind hkind).trans hhold, hrest⟩

theorem ReportMark.frame (h : ReportMark S t w clock) (hsame : w.SameMarks w')
    (hle : clock ≤ now) : ReportMark S t w' now := by
  cases h with
  | past hpast => exact .past (hpast.trans hle)
  | ended hover => exact .ended (hover.frame hsame)
  | displaced hdisplaced => exact .displaced (hdisplaced.frame hsame)
  | recorded stored outage grounds => exact .recorded (hsame.1.trans stored) outage grounds
  | held stored same hold =>
    refine .held (hsame.1.trans stored) (fun o ho => ⟨(same o ho).1, fun n hn => ?_⟩)
      (hold.frame (by decide) hsame)
    exact ((same o ho).2 n hn).trans hle

theorem RecoveredMark.frame (h : RecoveredMark S t w clock) (hsame : w.SameMarks w')
    (hle : clock ≤ now) : RecoveredMark S t w' now := by
  cases h with
  | past hpast => exact .past (hpast.trans hle)
  | ended hover => exact .ended (hover.frame hsame)
  | displaced hdisplaced => exact .displaced (hdisplaced.frame hsame)
  | ending hold stored outage =>
    exact .ending (hold.frame (by decide) hsame) (hsame.1.trans stored) outage
  | unrecorded hold stored outage report =>
    exact .unrecorded (hold.frame (by decide) hsame) (hsame.1.trans stored) outage
      (report.frame (by decide) hsame)

end Frame

/-- The mark of a "can't read state" notice delivered at `t`. -/
def UnreadableMark (t : ℤ) (w : World ι) (clock : ℤ) : Prop :=
  t + stateUnreadableNoticeMs ≤ clock ∨
    ∃ hold, w.noticeHolds .stateUnreadable = some hold ∧ t ≤ hold.sentAt

/-- **The mark of a message** on the service. -/
structure Marked (n : MonitorNotice) (s : Monitoring ι) : Prop where
  le : n.sentAt ≤ s.clock
  report : ∀ a, n.message = .about a → holdOf a = .outage →
    ReportMark a.since n.sentAt s.world s.clock
  recovered : ∀ a, n.message = .about a → holdOf a = .recovered →
    RecoveredMark a.since n.sentAt s.world s.clock
  unreadable : n.message = .stateUnreadable → UnreadableMark n.sentAt s.world s.clock

/-- A notice is only sent again once its hold has expired. -/
theorem UnreadableMark.le_now {now : ℤ} (h : UnreadableMark t w clock) (hle : clock ≤ now)
    (hfree : w.getNoticeHold .stateUnreadable now = none) : t + stateUnreadableNoticeMs ≤ now := by
  rcases h with hpast | ⟨hold, hhold, ht⟩
  · omega
  · have hdead := Option.filter_eq_none_iff.mp hfree hold hhold
    simp only [NoticeHold.live, decide_eq_true_eq, not_lt] at hdead
    omega

/-- **What the service has to be careful about**: Redis carries out the hold commands, and a
watcher run meets the two conditions on holds. -/
def Careful (s : Monitoring ι) : MonitorEvent ι → Prop
  | .watcher logged run =>
    run.holdAnswers = {} ∧
      (run.readOk = true → MemoryAgrees [.outage, .recovered] (s.world.recordRuns logged) run ∧
        SilenceKnown (s.world.recordRuns logged) run)
  | .check _ => True

variable [DecidableEq ι]

def carefulMonitoring (ownerChatId : Option String) :
    System (Monitoring ι) (MonitorEvent ι) MonitorNotice :=
  (monitoring ownerChatId).restrict Careful

section Step

variable {s : Monitoring ι} {n : MonitorNotice}

theorem CarefulRun.of_legal {logged : List LoggedRun} (hs : Anchored s.world s.clock)
    (hleg : (carefulMonitoring ownerChatId).legal s (.watcher logged run))
    (hread : run.readOk = true) : CarefulRun (s.world.recordRuns logged) s.clock run where
  anchored := ⟨hs.stored, hs.held⟩
  le := hleg.1
  answered := hleg.2.1
  read := hread
  agrees := (hleg.2.2 hread).1
  known := (hleg.2.2 hread).2

theorem Unreadable.sameMarks {w' : World ι} {notices : List MonitorNotice}
    (h : Unreadable w run w' notices) : w.SameMarks w' := by
  refine ⟨h.frame.1, fun kind hkind => (h.frame.2.2 kind ?_).1⟩
  rintro rfl
  simp at hkind

theorem sameMarks_checkWatcher (ownerChatId : Option String) (w : World ι) (run : MonitorRun ι) :
    w.SameMarks (checkWatcher ownerChatId w run).1 := by
  have hframe := checkWatcher_frame ownerChatId w run
  refine ⟨hframe.1, fun kind hkind => (hframe.2 kind ?_ ?_).1⟩
  · rintro rfl
    simp at hkind
  · rintro rfl
    simp at hkind

theorem UnreadableMark.next {w' : World ι} {notices : List MonitorNotice}
    (h : UnreadableMark t w clock) (hle : clock ≤ run.now)
    (hclaim : run.holdAnswers.claim = true) (hran : Unreadable w run w' notices) :
    UnreadableMark t w' run.now := by
  cases hran with
  | silent => exact h.imp_left fun hpast => hpast.trans hle
  | delivered _ claimed => exact .inl (h.le_now hle (claimed hclaim).1)
  | refused _ claimed => exact .inl (h.le_now hle (claimed hclaim))

/-- Nothing but its own notice touches the hold of the "can't read state" notice. -/
theorem WatcherRan.noticeHolds_stateUnreadable {w' : World ι} {notices : List MonitorNotice}
    (h : WatcherRan ownerChatId w run decision sent w' notices) :
    w'.noticeHolds .stateUnreadable = w.noticeHolds .stateUnreadable := by
  rcases h.recorded with ⟨-, rfl⟩ | ⟨-, -, rfl⟩ | @⟨a, _, -, due, -, rfl⟩
  · rfl
  · rfl
  · refine (sameHolds_holdAfterUnrecordedSend ?_).1
    rcases h.step.kind_action due with hkind | hkind | hkind
    · simp [holdOf, hkind]
    · simp [holdOf, hkind]
    · simp [holdOf, hkind]

/-- **Marks stay.** -/
theorem Marked.next {e : MonitorEvent ι} (h : Marked n s) (hs : Anchored s.world s.clock)
    (hleg : (carefulMonitoring ownerChatId).legal s e) :
    Marked n ((carefulMonitoring ownerChatId).next s e) := by
  have hclock : s.clock ≤ e.now := hleg.1
  cases e with
  | check run =>
    have hsame := sameMarks_checkWatcher ownerChatId s.world run
    refine ⟨h.le.trans hclock, fun a ha hof => (h.report a ha hof).frame hsame hclock,
      fun a ha hof => (h.recovered a ha hof).frame hsame hclock, fun hmessage => ?_⟩
    rcases h.unreadable hmessage with hpast | ⟨hold, hhold, ht⟩
    · exact .inl (hpast.trans hclock)
    · have hframe := (checkWatcher_frame ownerChatId s.world run).2 .stateUnreadable
        (by decide) (by decide)
      exact .inr ⟨hold, hframe.1.trans hhold, ht⟩
  | watcher logged run =>
    have hsame : s.world.SameMarks (s.world.recordRuns logged) := ⟨rfl, fun _ _ => rfl⟩
    have hreport (a : MonitorAction) (ha : n.message = .about a) (hof : holdOf a = .outage) :
        ReportMark a.since n.sentAt (s.world.recordRuns logged) s.clock :=
      (h.report a ha hof).frame hsame le_rfl
    have hrecovered (a : MonitorAction) (ha : n.message = .about a) (hof : holdOf a = .recovered) :
        RecoveredMark a.since n.sentAt (s.world.recordRuns logged) s.clock :=
      (h.recovered a ha hof).frame hsame le_rfl
    have ht : n.sentAt ≤ run.now := h.le.trans hclock
    cases hread : run.readOk with
    | true =>
      have hc := CarefulRun.of_legal hs hleg hread
      obtain ⟨decision, sent, hran⟩ :=
        runWatcher_cases ownerChatId (s.world.recordRuns logged) hread
      refine ⟨ht, fun a ha hof => (hreport a ha hof).ran hc ht hran,
        fun a ha hof => (hrecovered a ha hof).ran hc ht hran, fun hmessage => ?_⟩
      rcases h.unreadable hmessage with hpast | ⟨hold, hhold, ht⟩
      · exact .inl (hpast.trans hclock)
      · exact .inr ⟨hold, hran.noticeHolds_stateUnreadable.trans hhold, ht⟩
    | false =>
      -- A run that could not read its state says only that, and touches no other hold.
      have hunread := sendUnrecorded_cases ownerChatId (s.world.recordRuns logged) run
      rw [← runWatcher_unread ownerChatId _ hread] at hunread
      refine ⟨ht, fun a ha hof => (hreport a ha hof).frame hunread.sameMarks hclock,
        fun a ha hof => (hrecovered a ha hof).frame hunread.sameMarks hclock, fun hmessage => ?_⟩
      have hclaim : run.holdAnswers.claim = true := by rw [hleg.2.1]
      have hmark : UnreadableMark n.sentAt (s.world.recordRuns logged) s.clock :=
        h.unreadable hmessage
      exact hmark.next hclock hclaim hunread

/-- **Every message that is delivered leaves its mark.** -/
theorem marked_of_mem_out {e : MonitorEvent ι} (hs : Anchored s.world s.clock)
    (hleg : (carefulMonitoring ownerChatId).legal s e)
    (hn : n ∈ (carefulMonitoring ownerChatId).out s e) (hdelivered : n.delivered = true)
    (hkind : n.message.topic.1 ∈ [NoticeHoldKind.stateUnreadable, .outage, .recovered]) :
    Marked n ((carefulMonitoring ownerChatId).next s e) := by
  cases e with
  | check run =>
    rcases topic_checkWatcher hn with hof | hof
    · simp [hof] at hkind
    · simp [hof] at hkind
  | watcher logged run =>
    change n ∈ (runWatcher ownerChatId _ run).2 at hn
    cases hread : run.readOk with
    | true =>
      have hc := CarefulRun.of_legal hs hleg hread
      obtain ⟨decision, sent, hran⟩ :=
        runWatcher_cases ownerChatId (s.world.recordRuns logged) hread
      obtain ⟨a, due, hmessage, hat, -, hsent⟩ := hran.notified.mem hn
      have hsent := hsent hdelivered
      refine ⟨hat.le, fun b hb hof => ?_, fun b hb hof => ?_, fun hb => ?_⟩
      · obtain rfl := OwnerMessage.about.inj (hmessage.symm.trans hb)
        exact hat ▸ .of_delivered hc hran due hof hsent
      · obtain rfl := OwnerMessage.about.inj (hmessage.symm.trans hb)
        exact hat ▸ .of_delivered hc hran due hof hsent
      · cases hmessage.symm.trans hb
    | false =>
      have hunread := sendUnrecorded_cases ownerChatId (s.world.recordRuns logged) run
      rw [← runWatcher_unread ownerChatId _ hread] at hunread
      have hclaim : run.holdAnswers.claim = true := by rw [hleg.2.1]
      obtain ⟨hmessage, hat, -, hhold⟩ := hunread.mem hn hclaim
      refine ⟨hat.le, fun b hb => ?_, fun b hb => ?_, fun _ => ?_⟩
      · cases hmessage.symm.trans hb
      · cases hmessage.symm.trans hb
      · exact .inr ⟨_, hhold hdelivered, hat.le⟩

/-- **While the mark is there, nobody sends the message again.** -/
theorem Marked.apart {e : MonitorEvent ι} {n' : MonitorNotice} (h : Marked n s)
    (hs : Anchored s.world s.clock) (hleg : (carefulMonitoring ownerChatId).legal s e)
    (hn : n' ∈ (carefulMonitoring ownerChatId).out s e)
    (htopic : n.message.topic = n'.message.topic)
    (hkind : n'.message.topic.1 ∈ [NoticeHoldKind.stateUnreadable, .outage, .recovered]) :
    n.sentAt + stateUnreadableNoticeMs ≤ n'.sentAt := by
  have hclock : s.clock ≤ e.now := hleg.1
  cases e with
  | check run =>
    rcases topic_checkWatcher hn with hof | hof
    · simp [hof] at hkind
    · simp [hof] at hkind
  | watcher logged run =>
    change n' ∈ (runWatcher ownerChatId _ run).2 at hn
    have hsame : s.world.SameMarks (s.world.recordRuns logged) := ⟨rfl, fun _ _ => rfl⟩
    -- The message is about an outage if the run reads its state, and about the state if not.
    cases hread : run.readOk with
    | true =>
      have hc := CarefulRun.of_legal hs hleg hread
      obtain ⟨decision, sent, hran⟩ :=
        runWatcher_cases ownerChatId (s.world.recordRuns logged) hread
      obtain ⟨a, due, hmessage, hat, -⟩ := hran.notified.mem hn
      have hnotices := List.ne_nil_of_mem hn
      rw [hmessage] at htopic hkind
      cases hmessage' : n.message with
      | stateUnreadable =>
        rw [hmessage'] at htopic
        cases congrArg Prod.snd htopic
      | about b =>
        rw [hmessage'] at htopic
        have hof : holdOf b = holdOf a := congrArg Prod.fst htopic
        have about : a.since = b.since := (Option.some.inj (congrArg Prod.snd htopic)).symm
        have hreport (hofA : holdOf a = .outage) : n.sentAt + stateUnreadableNoticeMs ≤ run.now :=
          ((h.report b hmessage' (hof.trans hofA)).frame hsame le_rfl).le_now hc hran due hofA about
            hnotices
        rw [hat]
        rcases hran.step.kind_action due with hkind' | hkind' | hkind'
        · exact hreport (by rw [holdOf, hkind'])
        · exact hreport (by rw [holdOf, hkind'])
        · have hofA : holdOf a = .recovered := by rw [holdOf, hkind']
          exact ((h.recovered b hmessage' (hof.trans hofA)).frame hsame le_rfl).le_now hc hran due
            hofA about hnotices
    | false =>
      have hunread := sendUnrecorded_cases ownerChatId (s.world.recordRuns logged) run
      rw [← runWatcher_unread ownerChatId _ hread] at hunread
      have hclaim : run.holdAnswers.claim = true := by rw [hleg.2.1]
      obtain ⟨hmessage, hat, hfree, -⟩ := hunread.mem hn hclaim
      have hmessage' : n.message = .stateUnreadable := by
        rw [hmessage] at htopic
        cases hmessage' : n.message with
        | stateUnreadable => rfl
        | about b =>
          rw [hmessage'] at htopic
          cases congrArg Prod.snd htopic
      have hmark : UnreadableMark n.sentAt (s.world.recordRuns logged) s.clock :=
        h.unreadable hmessage'
      exact hat ▸ hmark.le_now hclock hfree

end Step

/-- **Two messages an hour apart**, the earlier one first, if both arrived and say the same. -/
def MonitorNotice.Apart (a b : MonitorNotice) : Prop :=
  a.delivered = true → b.delivered = true → a.message.topic = b.message.topic →
    b.message.topic.1 ∈ [NoticeHoldKind.stateUnreadable, .outage, .recovered] →
      a.sentAt + stateUnreadableNoticeMs ≤ b.sentAt

theorem Unreadable.pairwise {w' : World ι} {notices : List MonitorNotice}
    (h : Unreadable w run w' notices) : notices.Pairwise MonitorNotice.Apart := by
  cases h with
  | silent => exact .nil
  | delivered => exact List.pairwise_singleton _ _
  | refused _ _ undelivered =>
    refine List.pairwise_of_forall_mem_list fun a ha b hb hdelivered => ?_
    rw [undelivered a ha] at hdelivered
    cases hdelivered

/-- One run sends one message, or none that arrives. -/
theorem apart_out (s : Monitoring ι) (e : MonitorEvent ι) :
    ((carefulMonitoring ownerChatId).out s e).Pairwise MonitorNotice.Apart := by
  cases e with
  | check run =>
    change (checkWatcher ownerChatId _ run).2.Pairwise _
    cases hread : run.readOk with
    | false =>
      rw [checkWatcher_unread ownerChatId _ hread]
      exact .nil
    | true =>
      obtain ⟨decision, sent, hran⟩ := checkWatcher_cases ownerChatId s.world hread
      exact hran.notified.pairwise _
  | watcher logged run =>
    change (runWatcher ownerChatId _ run).2.Pairwise _
    cases hread : run.readOk with
    | true =>
      obtain ⟨decision, sent, hran⟩ :=
        runWatcher_cases ownerChatId (s.world.recordRuns logged) hread
      exact hran.notified.pairwise _
    | false =>
      rw [runWatcher_unread ownerChatId _ hread]
      exact (sendUnrecorded_cases ownerChatId _ run).pairwise

/-- **No message is repeated within the hour**, in any run of the service that is careful:
neither a report of one outage, nor a `recovered` about one, nor the "can't read state"
notice. -/
theorem notices_apart (ownerChatId : Option String) (runs : List LoggedRun) (clock : ℤ)
    {es : List (MonitorEvent ι)}
    (hr : (carefulMonitoring ownerChatId).Run (newMonitoring ι runs clock) es) :
    ((carefulMonitoring ownerChatId).outputs (newMonitoring ι runs clock) es).Pairwise
      MonitorNotice.Apart := by
  -- Only the messages that count need a mark.
  let mark (n : MonitorNotice) (s : Monitoring ι) : Prop := n.delivered = true →
    n.message.topic.1 ∈ [NoticeHoldKind.stateUnreadable, .outage, .recovered] → Marked n s
  have hI := (@keeps_anchored ι _ ownerChatId).restrict Careful
  refine System.Run.outputs_pairwise hI (A := mark) (fun s e _ _ => apart_out s e) ?_ ?_ ?_
    (anchored_newWorld runs clock) hr
  · exact fun s e hs hleg n hn => marked_of_mem_out hs hleg hn
  · exact fun n s e hs hmark hleg hdelivered hkind => (hmark hdelivered hkind).next hs hleg
  · intro n s e hs hmark hleg n' hn' hdelivered hdelivered' htopic hkind
    exact (hmark hdelivered (htopic ▸ hkind)).apart hs hleg hn' htopic hkind

/-! ### Examples -/

instance (w : World ι) (run : MonitorRun ι) : Decidable (SilenceKnown w run) :=
  inferInstanceAs (Decidable (_ = none → ∀ kind ∈ _, ∀ hold ∈ _, ∀ S ∈ _, S ≤ _))

instance (s : Monitoring ι) : ∀ e, Decidable (Careful s e)
  | .watcher _ _ => inferInstanceAs (Decidable (_ = _ ∧ (_ = true → _ ∧ _)))
  | .check _ => .isTrue trivial

instance (s : Monitoring ι) (e : MonitorEvent ι) :
    Decidable ((carefulMonitoring ownerChatId).legal s e) :=
  inferInstanceAs (Decidable (_ ∧ Careful s e))

instance (a b : MonitorNotice) : Decidable (a.Apart b) :=
  inferInstanceAs (Decidable (_ → _ → _ → _ ∈ _ → _ ≤ _))

/-- A watcher run on an instance, every hold command and send of which succeeds. -/
def watcherAt (host : ℕ) (minute : ℤ) (logged : List LoggedRun) (saveOk : Bool) :
    MonitorEvent ℕ :=
  .watcher logged { host := host, now := minutes minute, saveOk := saveOk }

/-- A silence whose state is never saved, seen by two instances: the message is held for an
hour and then sent once more. -/
theorem notices_apart_unsaved :
    let es := [watcherAt 0 0 [] true, watcherAt 1 16 [] false, watcherAt 1 17 [] false,
      watcherAt 0 46 [] false, watcherAt 0 80 [] false]
    let sent := (carefulMonitoring (some "owner")).outputs (newMonitoring ℕ [] 0) es
    sent.map MonitorNotice.sentAt = [minutes 16, minutes 80] ∧
      sent.Pairwise MonitorNotice.Apart :=
  ⟨by decide +kernel, notices_apart _ _ _ (by decide +kernel)⟩

/-- Instance 0 still remembers the message about the outage since minute 0. Its memory hides
the hold that instance 1 left in Redis on the outage since minute 20, and the owner hears of
that outage again five minutes later. -/
theorem notices_repeated :
    let healthy : LoggedRun := ⟨some (minutes 20), some .healthy⟩
    let es := [watcherAt 0 0 [] true, watcherAt 0 16 [] false, watcherAt 0 21 [healthy] true,
      watcherAt 1 36 [] false, watcherAt 0 41 [] false]
    (monitoring (some "owner")).Run (newMonitoring ℕ [] 0) es ∧
      ((monitoring (some "owner")).outputs (newMonitoring ℕ [] 0) es).map
        (fun n => (n.message.topic, n.sentAt, n.delivered)) =
        [((.outage, some 0), minutes 16, true), ((.recovered, some 0), minutes 21, true),
          ((.outage, some (minutes 20)), minutes 36, true),
          ((.outage, some (minutes 20)), minutes 41, true)] ∧
      ¬((monitoring (some "owner")).outputs (newMonitoring ℕ [] 0) es).Pairwise
        MonitorNotice.Apart := by
  decide +kernel

/-- One instance, whose window of the run log loses the healthy run of minute 1 again before
a state that knows it is saved: it goes back to the outage since minute 0. -/
theorem notices_repeated_forgotten :
    let healthy : LoggedRun := ⟨some (minutes 1), some .healthy⟩
    let failed : LoggedRun := ⟨some (minutes 16), some .failed⟩
    let es := [watcherAt 0 0 [] true, watcherAt 0 14 [] true, watcherAt 0 15 [] false,
      watcherAt 0 16 [healthy] false, watcherAt 0 17 (List.replicate 30 failed) false]
    (monitoring (some "owner")).Run (newMonitoring ℕ [] 0) es ∧
      ((monitoring (some "owner")).outputs (newMonitoring ℕ [] 0) es).map
        (fun n => (n.message.topic, n.sentAt, n.delivered)) =
        [((.outage, some 0), minutes 15, true), ((.outage, some (minutes 1)), minutes 16, true),
          ((.outage, some 0), minutes 17, true)] := by
  decide +kernel

end Monitor

end CryptoZaloBot
