import CryptoZaloBot.Monitor.Runs

/-!
# The watch over the watcher

What the owner hears of a silent watcher. The check tells of a silence once, and again six
hours later; within the hour the stored state or the hold keeps it from repeating itself,
so long as the memory of an instance does not hide the hold in Redis
(`CryptoZaloBot.Monitor.WatcherDownMark`).

Unlike the watcher, the check puts no outage back from its hold. A silence whose state was
not saved by the run that told it is only recorded if a later run saves it while it lasts,
which the hold lets it do; if the heartbeat is back before that, nobody tells the owner
(`CryptoZaloBot.Monitor.watcher_silences`).
-/

namespace CryptoZaloBot

namespace Monitor

open PriceAlerts (minutes)

variable {ι : Type} {w : World ι} {run : MonitorRun ι} {clock S t : ℤ}
  {decision : MonitorDecision WatchdogState} {sent : Option Sent} {ownerChatId : Option String}
  {notices : List MonitorNotice}

/-! ### Heartbeats -/

/-- The silence that is stored. -/
def World.silence (w : World ι) : Option OutageState := w.watchdog.bind WatchdogState.outage

/-- The watcher's last run that could save its state. -/
def World.heartbeat (w : World ι) : Option ℤ := w.monitor.map MonitorState.lastWatcherRunAt

/-- **No silence is newer than the heartbeat**, and one that is told to be over is older. -/
structure Watchful (w : World ι) (clock : ℤ) : Prop where
  beat : ∀ b ∈ w.heartbeat, b ≤ clock
  stored : ∀ o ∈ w.silence, ∃ b ∈ w.heartbeat, o.since ≤ b
  down : ∀ hold, w.Holds .watcherDown hold →
    ∃ S, hold.since = some S ∧ ∃ b ∈ w.heartbeat, S ≤ b
  recovered : ∀ hold, w.Holds .watcherRecovered hold →
    ∃ S, hold.since = some S ∧ ∃ b ∈ w.heartbeat, S < b

theorem watchful_newMonitoring (runs : List LoggedRun) (clock : ℤ) :
    Watchful (newMonitoring ι runs clock).world clock where
  beat b hb := by simp [newMonitoring, newWorld, World.heartbeat] at hb
  stored o ho := by simp [newMonitoring, newWorld, World.silence] at ho
  down hold h := by simp [newMonitoring, newWorld, World.Holds] at h
  recovered hold h := by simp [newMonitoring, newWorld, World.Holds] at h

/-- Heartbeats only get later. -/
theorem Watchful.frame {w' : World ι} {now : ℤ} (h : Watchful w clock)
    (hbeat : ∀ b ∈ w'.heartbeat, b ≤ now)
    (hlater : ∀ b ∈ w.heartbeat, ∃ b' ∈ w'.heartbeat, b ≤ b') (hwatchdog : w'.watchdog = w.watchdog)
    (hholds : ∀ kind ∈ [NoticeHoldKind.watcherDown, .watcherRecovered], w.SameHolds w' kind) :
    Watchful w' now where
  beat := hbeat
  stored o ho := by
    rw [World.silence, hwatchdog] at ho
    obtain ⟨b, hb, hle⟩ := h.stored o ho
    obtain ⟨b', hb', hle'⟩ := hlater b hb
    exact ⟨b', hb', hle.trans hle'⟩
  down hold hhold := by
    obtain ⟨S, hS, b, hb, hle⟩ := h.down hold ((hholds .watcherDown (by decide)).holds hhold)
    obtain ⟨b', hb', hle'⟩ := hlater b hb
    exact ⟨S, hS, b', hb', hle.trans hle'⟩
  recovered hold hhold := by
    obtain ⟨S, hS, b, hb, hlt⟩ :=
      h.recovered hold ((hholds .watcherRecovered (by decide)).holds hhold)
    obtain ⟨b', hb', hle'⟩ := hlater b hb
    exact ⟨S, hS, b', hb', hlt.trans_le hle'⟩

section Heartbeat

variable [DecidableEq ι]

@[simp] theorem heartbeat_holdAfterUnrecordedSend (a : MonitorAction) :
    (w.holdAfterUnrecordedSend run a).heartbeat = w.heartbeat := by
  rw [World.heartbeat, monitor_holdAfterUnrecordedSend, World.heartbeat]

@[simp] theorem silence_holdAfterUnrecordedSend (a : MonitorAction) :
    (w.holdAfterUnrecordedSend run a).silence = w.silence := by
  rw [World.silence, watchdog_holdAfterUnrecordedSend, World.silence]

theorem heartbeat_runWatcher (ownerChatId : Option String) (w : World ι) (run : MonitorRun ι) :
    (runWatcher ownerChatId w run).1.heartbeat = w.heartbeat ∨
      (runWatcher ownerChatId w run).1.heartbeat = some run.now := by
  cases hread : run.readOk with
  | false =>
    rw [runWatcher_unread ownerChatId w hread, World.heartbeat,
      (sendUnrecorded_cases ownerChatId w run).frame.1]
    exact .inl rfl
  | true =>
    obtain ⟨decision, sent, hran⟩ := runWatcher_cases ownerChatId w hread
    rcases hran.recorded with ⟨-, h⟩ | ⟨-, -, h⟩ | @⟨a, -, -, -, -, h⟩
    · rw [h]
      exact .inr (congrArg some (lastWatcherRunAt_nextMonitor hran.step))
    · rw [h]
      exact .inl rfl
    · exact .inl (h ▸ heartbeat_holdAfterUnrecordedSend a)

/-- A watcher run moves the heartbeat to its own time, if at all. -/
theorem Watchful.later (h : Watchful w clock) (hle : clock ≤ run.now) :
    (∀ b ∈ (runWatcher ownerChatId w run).1.heartbeat, b ≤ run.now) ∧
      ∀ b ∈ w.heartbeat, ∃ b' ∈ (runWatcher ownerChatId w run).1.heartbeat, b ≤ b' := by
  rcases heartbeat_runWatcher ownerChatId w run with hsame | hnow
  · rw [hsame]
    exact ⟨fun b hb => (h.beat b hb).trans hle, fun b hb => ⟨b, hb, le_rfl⟩⟩
  · rw [hnow]
    refine ⟨fun b hb => (Option.some.inj hb).ge, fun b hb => ⟨run.now, rfl, ?_⟩⟩
    exact (h.beat b hb).trans hle

theorem Watchful.runWatcher (h : Watchful w clock) (hle : clock ≤ run.now) :
    Watchful (runWatcher ownerChatId w run).1 run.now := by
  have hframe := runWatcher_frame ownerChatId w run
  obtain ⟨hbeat, hlater⟩ := @Watchful.later ι w run clock ownerChatId _ h hle
  exact h.frame hbeat hlater hframe.1 hframe.2

end Heartbeat

/-! ### A look at the watcher -/

/-- **What a check makes of the silence it starts from**, and what it has to say about it. -/
inductive SilenceStep (w : World ι) (run : MonitorRun ι) (action : Option MonitorAction)
    (sent : Option Sent) (after : Option OutageState) : Prop
  | neverRan (never : w.heartbeat = none) (due : action = none) (next : after = none)
  | cleared {S b : ℤ} (beat : w.heartbeat = some b) (start : w.silence = some ⟨S, none⟩)
      (ended : S < b) (due : action = none) (next : after = none)
  | recovered {S n b : ℤ} {a : MonitorAction} (beat : w.heartbeat = some b)
      (start : w.silence = some ⟨S, some n⟩) (ended : S < b) (due : action = some a)
      (kind : a.kind = .watcherRecovered) (about : a.since = S)
      (next : after = if sent.isSome then none else some ⟨S, some n⟩)
  | quiet {b : ℤ} (beat : w.heartbeat = some b) (start : ∀ o ∈ w.silence, o.since = b)
      (recent : run.now < b + watcherSilenceMs) (due : action = none) (next : after = none)
  | down {b : ℤ} {a : MonitorAction} (beat : w.heartbeat = some b)
      (start : ∀ o ∈ w.silence, o.since = b ∧ ∀ n ∈ o.notifiedAt, n + outageReminderMs ≤ run.now)
      (silent : b + watcherSilenceMs ≤ run.now) (due : action = some a)
      (kind : a.kind = .watcherDown) (about : a.since = b)
      (next : after = some ⟨b, (sent.map Sent.sentAt).or (w.silence.bind OutageState.notifiedAt)⟩)
  | held {n b : ℤ} (beat : w.heartbeat = some b) (start : w.silence = some ⟨b, some n⟩)
      (notDue : run.now < n + outageReminderMs) (due : action = none) (next : after = w.silence)

theorem Watchful.silenceStep (h : Watchful w clock)
    (hstep : WatchdogStep w.silence w.heartbeat run.now decision)
    (hnotified : Notified ownerChatId w run decision.action sent notices) :
    SilenceStep w run decision.action sent (nextWatchdog decision sent).outage := by
  -- A silence that lasts is as old as the heartbeat.
  have hsince {o : OutageState} {b : ℤ} (hb : w.heartbeat = some b) (ho : w.silence = some o)
      (hle : b ≤ o.since) : o.since = b := by
    obtain ⟨b', hb', hle'⟩ := h.stored o ho
    obtain rfl := Option.some.inj (hb.symm.trans hb')
    exact le_antisymm hle' hle
  cases hstep with
  | neverRan never =>
    refine .neverRan never rfl ?_
    rw [hnotified.of_idle.1]
    exact notifiedOutage_unsent none
  | cleared heard stored after =>
    refine .cleared heard stored after rfl ?_
    rw [hnotified.of_idle.1]
    exact notifiedOutage_unsent none
  | recovered heard stored after =>
    refine .recovered heard stored after rfl rfl rfl ?_
    cases sent with
    | none => rfl
    | some s => rfl
  | quiet heard lasting recent =>
    refine .quiet heard (fun o ho => hsince heard ho (lasting o ho)) recent rfl ?_
    rw [hnotified.of_idle.1]
    exact notifiedOutage_unsent none
  | @down heartbeat current heard stored lasting silent due =>
    have hcurrent : current = ⟨heartbeat, w.silence.bind OutageState.notifiedAt⟩ ∧
        ∀ o ∈ w.silence, o = current := by
      rcases stored with stored | ⟨stored, rfl⟩
      · rw [stored]
        obtain rfl := hsince heard stored lasting
        exact ⟨rfl, fun o ho => (Option.some.inj ho).symm⟩
      · rw [stored]
        exact ⟨rfl, by simp⟩
    refine .down heard (fun o ho => ?_) silent rfl rfl rfl ?_
    · rw [hcurrent.2 o ho]
      refine ⟨?_, due⟩
      rw [hcurrent.1]
    · cases sent with
      | none => exact (notifiedOutage_unsent _).trans (congrArg some hcurrent.1)
      | some s =>
        rw [hcurrent.1]
        rfl
  | held heard stored lasting silent notDue =>
    obtain rfl := hsince heard stored lasting
    refine .held heard stored notDue rfl ?_
    rw [hnotified.of_idle.1, stored]
    rfl

section SilenceStep

variable {action : Option MonitorAction} {after : Option OutageState} {a : MonitorAction}

/-- A `watcherDown` is about the heartbeat. -/
theorem SilenceStep.of_down (h : SilenceStep w run action sent after) (ha : action = some a)
    (hof : holdOf a = .watcherDown) : ∃ b ∈ w.heartbeat, a.since = b := by
  cases h with
  | neverRan _ due => simp [ha] at due
  | cleared _ _ _ due => simp [ha] at due
  | quiet _ _ _ due => simp [ha] at due
  | held _ _ _ due => simp [ha] at due
  | recovered _ _ _ due kind =>
    obtain rfl := Option.some.inj (ha.symm.trans due)
    simp [holdOf, kind] at hof
  | down beat _ _ due _ about =>
    obtain rfl := Option.some.inj (ha.symm.trans due)
    exact ⟨_, beat, about⟩

/-- It is told again after six hours. -/
theorem SilenceStep.elapsed_of_down (h : SilenceStep w run action sent after)
    (ha : action = some a) (hof : holdOf a = .watcherDown) :
    ∀ o ∈ w.silence, ∀ n ∈ o.notifiedAt, n + outageReminderMs ≤ run.now := by
  cases h with
  | neverRan _ due => simp [ha] at due
  | cleared _ _ _ due => simp [ha] at due
  | quiet _ _ _ due => simp [ha] at due
  | held _ _ _ due => simp [ha] at due
  | recovered _ _ _ due kind =>
    obtain rfl := Option.some.inj (ha.symm.trans due)
    simp [holdOf, kind] at hof
  | down _ start => exact fun o ho => (start o ho).2

/-- A `watcherRecovered` is about a silence that was told, and a later heartbeat. -/
theorem SilenceStep.of_recovered (h : SilenceStep w run action sent after) (ha : action = some a)
    (hof : holdOf a = .watcherRecovered) :
    ∃ b ∈ w.heartbeat, ∃ n, w.silence = some ⟨a.since, some n⟩ ∧ a.since < b := by
  cases h with
  | neverRan _ due => simp [ha] at due
  | cleared _ _ _ due => simp [ha] at due
  | quiet _ _ _ due => simp [ha] at due
  | held _ _ _ due => simp [ha] at due
  | recovered beat start ended due _ about =>
    obtain rfl := Option.some.inj (ha.symm.trans due)
    rw [about]
    exact ⟨_, beat, _, start, ended⟩
  | down _ _ _ due kind =>
    obtain rfl := Option.some.inj (ha.symm.trans due)
    simp [holdOf, kind] at hof

/-- A `watcherDown` that is sent is stored with the time it was sent. -/
theorem SilenceStep.next_of_down (h : SilenceStep w run action sent after)
    (ha : action = some a) (hof : holdOf a = .watcherDown) :
    (∀ o ∈ w.silence, o.since = a.since) ∧
      after = some
        ⟨a.since, (sent.map Sent.sentAt).or (w.silence.bind OutageState.notifiedAt)⟩ := by
  cases h with
  | neverRan _ due => simp [ha] at due
  | cleared _ _ _ due => simp [ha] at due
  | quiet _ _ _ due => simp [ha] at due
  | held _ _ _ due => simp [ha] at due
  | recovered _ _ _ due kind =>
    obtain rfl := Option.some.inj (ha.symm.trans due)
    simp [holdOf, kind] at hof
  | down _ start _ due _ about next =>
    obtain rfl := Option.some.inj (ha.symm.trans due)
    rw [about]
    exact ⟨fun o ho => (start o ho).1, next⟩

/-- While the heartbeat is missing, a silence that was told stays told. -/
theorem SilenceStep.next_of_told {n : ℤ} (h : SilenceStep w run action sent after)
    (hstored : w.silence = some ⟨S, some n⟩) (hbeat : w.heartbeat = some S)
    (hlong : S + watcherSilenceMs ≤ run.now) : ∃ n', after = some ⟨S, some n'⟩ := by
  cases h with
  | neverRan never => cases hbeat.symm.trans never
  | cleared _ start => cases hstored.symm.trans start
  | recovered beat start ended =>
    obtain rfl := Option.some.inj (hbeat.symm.trans beat)
    have hsame := congrArg OutageState.since (Option.some.inj (hstored.symm.trans start))
    exact absurd ended (not_lt.mpr hsame.le)
  | quiet beat _ recent =>
    obtain rfl := Option.some.inj (hbeat.symm.trans beat)
    omega
  | down beat _ _ _ _ _ next =>
    obtain rfl := Option.some.inj (hbeat.symm.trans beat)
    rw [hstored] at next
    exact ⟨_, next.trans (by rw [Option.bind_some, Option.or_some])⟩
  | held _ _ _ _ next => exact ⟨n, next.trans hstored⟩

/-- While the heartbeat is missing, a silence that was not told is due. -/
theorem SilenceStep.due_of_untold (h : SilenceStep w run action sent after)
    (huntold : ∀ o ∈ w.silence, o = ⟨S, none⟩) (hbeat : w.heartbeat = some S)
    (hlong : S + watcherSilenceMs ≤ run.now) :
    ∃ a, action = some a ∧ holdOf a = .watcherDown ∧ a.since = S := by
  cases h with
  | neverRan never => cases hbeat.symm.trans never
  | cleared beat start ended =>
    obtain rfl := Option.some.inj (hbeat.symm.trans beat)
    have hsame := congrArg OutageState.since (huntold _ start)
    exact absurd ended (not_lt.mpr hsame.ge)
  | recovered _ start => cases huntold _ start
  | quiet beat _ recent =>
    obtain rfl := Option.some.inj (hbeat.symm.trans beat)
    omega
  | down beat _ _ due kind about =>
    obtain rfl := Option.some.inj (hbeat.symm.trans beat)
    exact ⟨_, due, by rw [holdOf, kind], about⟩
  | held _ start => cases huntold _ start

/-- A newer heartbeat ends a silence that was told. -/
theorem SilenceStep.recovered_of_beat {n b : ℤ} (h : SilenceStep w run action sent after)
    (hstored : w.silence = some ⟨S, some n⟩) (hb : b ∈ w.heartbeat) (hlt : S < b) :
    ∃ a, action = some a ∧ a.kind = .watcherRecovered ∧ a.since = S := by
  cases h with
  | neverRan never => cases never.symm.trans hb
  | cleared _ start => cases hstored.symm.trans start
  | recovered _ start _ due kind about =>
    have hsame := congrArg OutageState.since (Option.some.inj (hstored.symm.trans start))
    exact ⟨_, due, kind, about.trans hsame.symm⟩
  | quiet beat start =>
    obtain rfl := Option.some.inj (beat.symm.trans hb)
    exact absurd (start _ hstored) hlt.ne
  | down beat start =>
    obtain rfl := Option.some.inj (beat.symm.trans hb)
    exact absurd (start _ hstored).1 hlt.ne
  | held beat start =>
    obtain rfl := Option.some.inj (beat.symm.trans hb)
    have hsame := congrArg OutageState.since (Option.some.inj (hstored.symm.trans start))
    exact absurd hsame hlt.ne

end SilenceStep

/-- **What is left of a look at the watcher.** -/
inductive CheckLeft [DecidableEq ι] (w : World ι) (run : MonitorRun ι)
    (action : Option MonitorAction) (sent : Option Sent) (after : Option OutageState)
    (w' : World ι) : Prop
  /-- If nothing was saved, nothing has changed. -/
  | recorded (silence : w'.silence = after) (monitor : w'.monitor = w.monitor)
      (holds : ∀ kind, w.SameHolds w' kind) (unsaved : run.saveOk = false → after = w.silence)
  | lost (unsaved : run.saveOk = false)
      (nothing : ∀ a t, action = some a → sent ≠ some ⟨t, false⟩) (left : w' = w)
  | held {a : MonitorAction} {sentAt : ℤ} (unsaved : run.saveOk = false) (due : action = some a)
      (hsent : sent = some ⟨sentAt, false⟩) (left : w' = w.holdAfterUnrecordedSend run a)

theorem CheckRan.left [DecidableEq ι] {w' : World ι}
    (h : CheckRan ownerChatId w run decision sent w' notices) :
    CheckLeft w run decision.action sent (nextWatchdog decision sent).outage w' := by
  rcases h.recorded with ⟨hsame, rfl⟩ | ⟨-, ⟨hsave, rfl⟩ | ⟨hsave, hnothing, rfl⟩ |
      @⟨a, sentAt, hsave, due, hsent, rfl⟩⟩
  · have hsilence : w'.silence = (nextWatchdog decision sent).outage := by
      rw [hsame, World.silence]
      cases w'.watchdog <;> rfl
    exact .recorded hsilence rfl (fun _ => ⟨rfl, fun _ => rfl⟩) fun _ => hsilence.symm
  · refine .recorded rfl rfl (fun _ => ⟨rfl, fun _ => rfl⟩) fun hunsaved => ?_
    simp [hsave] at hunsaved
  · exact .lost hsave hnothing rfl
  · exact .held hsave due hsent rfl

section Ran

variable [DecidableEq ι] {w' : World ι}

theorem Watchful.ran (h : Watchful w clock) (hle : clock ≤ run.now)
    (hran : CheckRan ownerChatId w run decision sent w' notices) : Watchful w' run.now := by
  have hstep := h.silenceStep hran.step hran.notified
  have hbeat : ∀ b ∈ w.heartbeat, b ≤ run.now := fun b hb => (h.beat b hb).trans hle
  cases hran.left with
  | recorded silence monitor holds =>
    have hheartbeat : w'.heartbeat = w.heartbeat := by
      rw [World.heartbeat, monitor, World.heartbeat]
    refine ⟨hheartbeat ▸ hbeat, fun o ho => ?_, fun hold hhold => ?_, fun hold hhold => ?_⟩
    · rw [hheartbeat]
      rw [silence] at ho
      cases hstep with
      | neverRan _ _ next => simp [next] at ho
      | cleared _ _ _ _ next => simp [next] at ho
      | quiet _ _ _ _ next => simp [next] at ho
      | held _ _ _ _ next => exact h.stored o (next ▸ ho)
      | recovered _ start _ _ _ _ next =>
        rw [next] at ho
        split_ifs at ho
        · cases ho
        · exact h.stored o (start.trans ho)
      | down beat _ _ _ _ _ next =>
        obtain rfl := Option.some.inj (next.symm.trans ho)
        exact ⟨_, beat, le_rfl⟩
    · exact hheartbeat ▸ h.down hold ((holds .watcherDown).holds hhold)
    · exact hheartbeat ▸ h.recovered hold ((holds .watcherRecovered).holds hhold)
  | lost _ _ left =>
    subst left
    exact ⟨hbeat, h.stored, h.down, h.recovered⟩
  | @held a sentAt _ due _ left =>
    subst left
    refine ⟨?_, ?_, ?_, ?_⟩
    · rwa [heartbeat_holdAfterUnrecordedSend]
    · rw [heartbeat_holdAfterUnrecordedSend, silence_holdAfterUnrecordedSend]
      exact h.stored
    · rw [heartbeat_holdAfterUnrecordedSend]
      intro hold hhold
      rcases holds_holdAfterUnrecordedSend hhold with hhold | ⟨hof, rfl⟩
      · exact h.down hold hhold
      -- The new hold is about the heartbeat of this check.
      · obtain ⟨b, hb, about⟩ := hstep.of_down due hof.symm
        exact ⟨_, rfl, b, hb, about.le⟩
    · rw [heartbeat_holdAfterUnrecordedSend]
      intro hold hhold
      rcases holds_holdAfterUnrecordedSend hhold with hhold | ⟨hof, rfl⟩
      · exact h.recovered hold hhold
      · obtain ⟨b, hb, n, -, hlt⟩ := hstep.of_recovered due hof.symm
        exact ⟨_, rfl, b, hb, hlt⟩

theorem CheckRan.heartbeat_eq (hran : CheckRan ownerChatId w run decision sent w' notices) :
    w'.heartbeat = w.heartbeat := by
  cases hran.left with
  | recorded _ monitor => rw [World.heartbeat, monitor, World.heartbeat]
  | lost _ _ left => rw [left]
  | held _ _ _ left => rw [left, heartbeat_holdAfterUnrecordedSend]

end Ran

theorem keeps_watchful [DecidableEq ι] (ownerChatId : Option String) :
    (monitoring ownerChatId).Keeps fun s : Monitoring ι => Watchful s.world s.clock := by
  intro s e hs hleg
  cases e with
  | watcher logged run =>
    have hlogged : Watchful (s.world.recordRuns logged) s.clock :=
      ⟨hs.beat, hs.stored, hs.down, hs.recovered⟩
    exact hlogged.runWatcher hleg
  | check run =>
    change Watchful (checkWatcher ownerChatId s.world run).1 run.now
    cases hread : run.readOk with
    | false =>
      rw [checkWatcher_unread ownerChatId s.world hread]
      exact ⟨fun b hb => (hs.beat b hb).trans hleg, hs.stored, hs.down, hs.recovered⟩
    | true =>
      obtain ⟨decision, sent, hran⟩ := checkWatcher_cases ownerChatId s.world hread
      exact hs.ran hleg hran

/-! ### A silence is not told twice within the hour -/

/-- A look at the watcher that reads its states and finds the hold that Redis has. -/
structure AttentiveRun (w : World ι) (clock : ℤ) (run : MonitorRun ι) : Prop where
  watchful : Watchful w clock
  le : clock ≤ run.now
  answered : run.holdAnswers = {}
  agrees : MemoryAgrees [.watcherDown] w run

/-- **The mark of a `watcherDown`** about `S` delivered at `t`. -/
inductive WatcherDownMark (S t : ℤ) (w : World ι) (clock : ℤ) : Prop
  | past (h : t + stateUnreadableNoticeMs ≤ clock)
  | ended {b : ℤ} (beat : b ∈ w.heartbeat) (later : S < b)
  | recorded {n : ℤ} (stored : w.silence = some ⟨S, some n⟩) (le : t ≤ n)
  | held (hold : w.HoldsAbout .watcherDown S t)

section WatcherDownMark

variable [DecidableEq ι] {w' : World ι}

omit [DecidableEq ι] in
/-- The heartbeat since a message that is held. -/
theorem Watchful.eq_or_lt (h : Watchful w clock) (hhold : w.HoldsAbout .watcherDown S t) :
    w.heartbeat = some S ∨ ∃ b ∈ w.heartbeat, S < b := by
  obtain ⟨hold, hmem, hsince, -⟩ := hhold
  obtain ⟨S', hS', b, hb, hle⟩ := h.down hold (.inl hmem)
  obtain rfl := Option.some.inj (hsince.symm.trans hS')
  rcases hle.lt_or_eq with hlt | rfl
  · exact .inr ⟨b, hb, hlt⟩
  · exact .inl hb

theorem AttentiveRun.not_repeated (hr : AttentiveRun w clock run)
    (hran : CheckRan ownerChatId w run decision sent w' notices) {hold : NoticeHold}
    (hget : w.getNoticeHold .watcherDown run.now = some hold) {a : MonitorAction}
    (due : decision.action = some a) (hof : holdOf a = .watcherDown)
    (about : hold.since = some a.since) : sent = some ⟨hold.sentAt, true⟩ ∧ notices = [] :=
  hr.agrees.not_repeated hr.answered hran.notified (by decide) hget due hof about

/-- **The mark stays.** -/
theorem WatcherDownMark.ran (hmark : WatcherDownMark S t w clock) (hr : AttentiveRun w clock run)
    (hlong : S + watcherSilenceMs ≤ t) (ht : t ≤ run.now)
    (hran : CheckRan ownerChatId w run decision sent w' notices) :
    WatcherDownMark S t w' run.now := by
  have hstep := hr.watchful.silenceStep hran.step hran.notified
  have hover {b : ℤ} (hb : b ∈ w.heartbeat) (hlt : S < b) : WatcherDownMark S t w' run.now :=
    .ended (hran.heartbeat_eq.symm ▸ hb) hlt
  by_cases hlive : run.now < t + stateUnreadableNoticeMs
  · cases hmark with
    | past hpast =>
      have := hr.le
      omega
    | ended beat later => exact hover beat later
    | @recorded n stored le =>
      obtain ⟨b, hb, hle⟩ := hr.watchful.stored _ stored
      rcases hle.lt_or_eq with hlt | rfl
      · exact hover hb hlt
      · -- The heartbeat is the one the message was about, so that no message is due.
        have hkept (hout : (nextWatchdog decision sent).outage = w.silence)
            (hidle : decision.action = none) : WatcherDownMark S t w' run.now := by
          cases hran.left with
          | recorded silence => exact .recorded (silence.trans (hout.trans stored)) le
          | lost _ _ left => exact .recorded (left ▸ stored) le
          | held _ due => simp [hidle] at due
        cases hstep with
        | neverRan never => simp [never] at hb
        | cleared _ start => simp [stored] at start
        | recovered beat start ended =>
          have hsame := congrArg OutageState.since (Option.some.inj (stored.symm.trans start))
          exact hover beat (hsame.trans_lt ended)
        | quiet beat _ recent =>
          obtain rfl := Option.some.inj (beat.symm.trans hb)
          omega
        | down _ start =>
          have := (start _ stored).2 n rfl
          have : stateUnreadableNoticeMs ≤ outageReminderMs := by decide
          omega
        | held _ _ _ due next => exact hkept next due
    | held hold =>
      obtain ⟨held, hget, hsince, -⟩ := hold.live hlive
      rcases hr.watchful.eq_or_lt hold with hbeat | ⟨b, hb, hlt⟩
      · cases hran.left with
        | recorded _ _ holds =>
          obtain ⟨held, hmem, hrest⟩ := hold
          exact .held ⟨held, (holds _).1.trans hmem, hrest⟩
        | lost _ _ left => exact .held (left ▸ hold)
        | @held a _ _ due hsent left =>
          subst left
          -- A hold of the same kind would be about the same silence, which counts as told.
          by_cases hof : holdOf a = .watcherDown
          · obtain ⟨b, hb, about⟩ := hstep.of_down due hof
            obtain rfl := Option.some.inj (hbeat.symm.trans hb)
            have hnot := (hr.not_repeated hran hget due hof (about.symm ▸ hsince)).1
            cases hsent.symm.trans hnot
          · exact .held (hold.other (Ne.symm hof))
      · exact hover hb hlt
  · exact .past (not_lt.mp hlive)

/-- **A `watcherDown` that was delivered leaves a mark.** -/
theorem WatcherDownMark.of_delivered (hr : AttentiveRun w clock run)
    (hran : CheckRan ownerChatId w run decision sent w' notices) {a : MonitorAction}
    (due : decision.action = some a) (hkind : a.kind = .watcherDown)
    (hsent : sent = some ⟨run.now, false⟩) :
    a.since + watcherSilenceMs ≤ run.now ∧ WatcherDownMark a.since run.now w' run.now := by
  have hof : holdOf a = .watcherDown := by rw [holdOf, hkind]
  cases hr.watchful.silenceStep hran.step hran.notified with
  | neverRan _ due' => simp [due] at due'
  | cleared _ _ _ due' => simp [due] at due'
  | quiet _ _ _ due' => simp [due] at due'
  | held _ _ _ due' => simp [due] at due'
  | recovered _ _ _ due' kind =>
    obtain rfl := Option.some.inj (due.symm.trans due')
    cases hkind.symm.trans kind
  | down beat _ silent due' _ about next =>
    obtain rfl := Option.some.inj (due.symm.trans due')
    rw [about]
    refine ⟨silent, ?_⟩
    cases hran.left with
    | recorded silence => exact .recorded (silence.trans (by rw [next, hsent]; rfl)) le_rfl
    | lost _ nothing => exact absurd hsent (nothing a _ due)
    | held _ due'' _ left =>
      obtain rfl := Option.some.inj (due.symm.trans due'')
      subst left
      have hnew := holdsAbout_holdAfterUnrecordedSend w hr.answered le_rfl a
      rw [hof, about] at hnew
      exact .held hnew

/-- **While the mark is there, the silence is not told again.** -/
theorem WatcherDownMark.le_now (hmark : WatcherDownMark S t w clock)
    (hr : AttentiveRun w clock run)
    (hran : CheckRan ownerChatId w run decision sent w' notices) {a : MonitorAction}
    (due : decision.action = some a) (hkind : a.kind = .watcherDown) (about : a.since = S)
    (hnotices : notices ≠ []) : t + stateUnreadableNoticeMs ≤ run.now := by
  have hof : holdOf a = .watcherDown := by rw [holdOf, hkind]
  have hstep := hr.watchful.silenceStep hran.step hran.notified
  obtain ⟨b, hb, hsince⟩ := hstep.of_down due hof
  by_contra hlive
  rw [not_le] at hlive
  cases hmark with
  | past hpast =>
    have := hr.le
    omega
  | ended beat later =>
    obtain rfl := Option.some.inj (hb.symm.trans beat)
    omega
  | recorded stored le =>
    have := hstep.elapsed_of_down due hof _ stored _ rfl
    have : stateUnreadableNoticeMs ≤ outageReminderMs := by decide
    omega
  | held hold =>
    obtain ⟨held, hget, hsince', -⟩ := hold.live hlive
    exact hnotices (hr.not_repeated hran hget due hof (about ▸ hsince')).2

end WatcherDownMark

/-! ### A silence that was told may end untold -/

/-- The state of the check is saved. -/
def MonitorEvent.Saves : MonitorEvent ι → Prop
  | .watcher .. => False
  | .check run => run.saveOk = true

/-- **What is known of a `watcherDown`** about `S` delivered at `t`, while the heartbeat is
missing: the silence is stored as told if some check could save that, and is held if not. -/
inductive DownKnown (S t : ℤ) (saved : Prop) (w : World ι) (clock : ℤ) : Prop
  | past (h : t + stateUnreadableNoticeMs ≤ clock)
  | recorded {n : ℤ} (h : saved) (stored : w.silence = some ⟨S, some n⟩)
      (untold : ∀ hold, w.Holds .watcherRecovered hold → hold.since ≠ some S)
  | held (h : ¬saved) (unrecorded : ∀ o ∈ w.silence, o = ⟨S, none⟩)
      (hold : w.HoldsAbout .watcherDown S t)
      (untold : ∀ hold, w.Holds .watcherRecovered hold → hold.since ≠ some S)

theorem DownKnown.congr {saved saved' : Prop} (h : DownKnown S t saved w clock)
    (hsaved : saved ↔ saved') : DownKnown S t saved' w clock :=
  propext hsaved ▸ h

theorem DownKnown.frame {saved : Prop} {w' : World ι} {now : ℤ}
    (h : DownKnown S t saved w clock) (hle : clock ≤ now) (hsilence : w'.silence = w.silence)
    (hholds : ∀ kind ∈ [NoticeHoldKind.watcherDown, .watcherRecovered], w.SameHolds w' kind) :
    DownKnown S t saved w' now := by
  have hkept (h : ∀ hold, w.Holds .watcherRecovered hold → hold.since ≠ some S) (hold : NoticeHold)
      (hhold : w'.Holds .watcherRecovered hold) : hold.since ≠ some S :=
    h hold ((hholds .watcherRecovered (by decide)).holds hhold)
  cases h with
  | past hpast => exact .past (hpast.trans hle)
  | recorded hsaved stored untold => exact .recorded hsaved (hsilence.trans stored) (hkept untold)
  | held hsaved unrecorded hold untold =>
    obtain ⟨hold, hmem, hrest⟩ := hold
    have hsame := (hholds .watcherDown (by decide)).1
    exact .held hsaved (hsilence.symm ▸ unrecorded) ⟨hold, hsame.trans hmem, hrest⟩ (hkept untold)

section DownKnown

variable [DecidableEq ι] {w' : World ι}

/-- A look at the watcher that says nothing about the end of `S` holds nothing about it. -/
theorem CheckRan.untold (hran : CheckRan ownerChatId w run decision sent w' notices)
    (hquiet : ∀ a, decision.action = some a → holdOf a = .watcherRecovered → a.since ≠ S)
    (huntold : ∀ hold, w.Holds .watcherRecovered hold → hold.since ≠ some S) :
    ∀ hold, w'.Holds .watcherRecovered hold → hold.since ≠ some S := by
  cases hran.left with
  | recorded _ _ holds => exact fun hold hhold => huntold hold ((holds _).holds hhold)
  | lost _ _ left => exact left ▸ huntold
  | @held a _ _ due _ left =>
    subst left
    intro hold hhold
    rcases holds_holdAfterUnrecordedSend hhold with hhold | ⟨hof, rfl⟩
    · exact huntold hold hhold
    · exact fun hsame => hquiet a due hof.symm (Option.some.inj hsame)

/-- **A check that delivers a `watcherDown`** records it if it can save its state, or if the
silence was stored as told before. -/
theorem DownKnown.of_delivered (hr : AttentiveRun w clock run)
    (hran : CheckRan ownerChatId w run decision sent w' notices) {a : MonitorAction}
    (due : decision.action = some a) (hkind : a.kind = .watcherDown)
    (hsent : sent = some ⟨run.now, false⟩) :
    DownKnown a.since run.now
      ((∃ n, w.silence = some ⟨a.since, some n⟩) ∨ run.saveOk = true) w' run.now := by
  subst hsent
  have hof : holdOf a = .watcherDown := by rw [holdOf, hkind]
  have hstep := hr.watchful.silenceStep hran.step hran.notified
  obtain ⟨b, hb, hsince⟩ := hstep.of_down due hof
  -- A `watcherRecovered` that is held is about an earlier silence than this heartbeat's.
  have huntold := hran.untold (S := a.since) (fun a' due' hof' => by
      obtain rfl := Option.some.inj (due.symm.trans due')
      cases hof.symm.trans hof') fun hold hhold => by
    obtain ⟨S, hS, b', hb', hlt⟩ := hr.watchful.recovered hold hhold
    obtain rfl := Option.some.inj (hb.symm.trans hb')
    rintro hsame
    obtain rfl := Option.some.inj (hS.symm.trans hsame)
    omega
  obtain ⟨hstart, hnext⟩ := hstep.next_of_down due hof
  cases hran.left with
  | recorded silence _ _ unsaved =>
    refine .recorded ?_ (silence.trans hnext) huntold
    cases hsave : run.saveOk with
    | true => exact .inr rfl
    | false => exact .inl ⟨_, (unsaved hsave).symm.trans hnext⟩
  | lost _ nothing => exact absurd rfl (nothing a _ due)
  | @held a' _ hsave due' _ left =>
    obtain rfl := Option.some.inj (due.symm.trans due')
    subst left
    have hsilence := @silence_holdAfterUnrecordedSend ι w run _ a
    have hnew := holdsAbout_holdAfterUnrecordedSend w hr.answered le_rfl a
    rw [hof] at hnew
    by_cases htold : ∃ n, w.silence = some ⟨a.since, some n⟩
    · obtain ⟨n, hn⟩ := htold
      exact .recorded (.inl ⟨n, hn⟩) (hsilence.trans hn) huntold
    · refine .held (by simp [htold, hsave]) (fun o ho => ?_) hnew huntold
      rw [hsilence] at ho
      obtain ⟨S, x⟩ := o
      obtain rfl : S = a.since := hstart _ ho
      cases x with
      | none => rfl
      | some n => exact absurd ⟨n, ho⟩ htold

/-- **A check that sees no newer heartbeat** records the silence if it can save its state. -/
theorem DownKnown.ran {saved : Prop} (h : DownKnown S t saved w clock)
    (hr : AttentiveRun w clock run) (hlong : S + watcherSilenceMs ≤ t) (ht : t ≤ run.now)
    (hblind : ∀ b ∈ w.heartbeat, b ≤ S)
    (hran : CheckRan ownerChatId w run decision sent w' notices) :
    DownKnown S t (saved ∨ run.saveOk = true) w' run.now := by
  have hstep := hr.watchful.silenceStep hran.step hran.notified
  have hquiet (a : MonitorAction) (due : decision.action = some a)
      (hof : holdOf a = .watcherRecovered) : a.since ≠ S := by
    obtain ⟨b, hb, -, -, hlt⟩ := hstep.of_recovered due hof
    have := hblind b hb
    omega
  by_cases hlive : run.now < t + stateUnreadableNoticeMs
  · cases h with
    | past hpast =>
      have := hr.le
      omega
    | @recorded n hsaved stored untold =>
      have huntold := hran.untold hquiet untold
      obtain ⟨b, hb, hle⟩ := hr.watchful.stored _ stored
      obtain rfl : b = S := le_antisymm (hblind b hb) hle
      obtain ⟨n', hnext⟩ := hstep.next_of_told stored hb (by omega)
      cases hran.left with
      | recorded silence => exact .recorded (.inl hsaved) (silence.trans hnext) huntold
      | lost _ _ left =>
        subst left
        exact .recorded (.inl hsaved) stored huntold
      | @held a _ _ _ _ left =>
        subst left
        exact .recorded (.inl hsaved) ((silence_holdAfterUnrecordedSend a).trans stored) huntold
    | held hsaved unrecorded hold untold =>
      have huntold := hran.untold hquiet untold
      obtain ⟨held, hget, hsince, -⟩ := hold.live hlive
      have hb : w.heartbeat = some S := by
        rcases hr.watchful.eq_or_lt hold with hb | ⟨b, hb, hlt⟩
        · exact hb
        · have := hblind b hb
          omega
      obtain ⟨a, due, hof, about⟩ := hstep.due_of_untold unrecorded hb (by omega)
      -- The message that is due counts as delivered.
      have hheld := (hr.not_repeated hran hget due hof (about ▸ hsince)).1
      subst hheld
      have hnext := (hstep.next_of_down due hof).2
      rw [about] at hnext
      cases hran.left with
      | recorded silence _ _ unsaved =>
        refine .recorded (.inr ?_) (silence.trans hnext) huntold
        by_contra hsave
        have hsame := unsaved (Bool.eq_false_iff.mpr hsave)
        cases unrecorded _ (hsame.symm.trans hnext)
      | lost hsave _ left =>
        subst left
        exact .held (by simp [hsaved, hsave]) unrecorded hold huntold
      | held _ _ hsent => cases hsent
  · exact .past (not_lt.mp hlive)

/-- **The first check that sees a newer heartbeat** tells of the end of the silence if and only
if the silence is recorded. -/
theorem DownKnown.recovered_iff {saved : Prop} (h : DownKnown S t saved w clock)
    (hr : AttentiveRun w clock run) (hlive : run.now < t + stateUnreadableNoticeMs) {b : ℤ}
    (hb : b ∈ w.heartbeat) (hlt : S < b) (howner : ownerChatId ≠ none)
    (hran : CheckRan ownerChatId w run decision sent w' notices) :
    (∃ n ∈ notices, n.Says .watcherRecovered S) ↔ saved := by
  have hstep := hr.watchful.silenceStep hran.step hran.notified
  constructor
  · rintro ⟨n, hn, hsaid⟩
    obtain ⟨a, hmessage, hkind, rfl⟩ := hsaid.exists_about
    obtain ⟨a', due, hmessage', -⟩ := hran.notified.mem hn
    obtain rfl := OwnerMessage.about.inj (hmessage.symm.trans hmessage')
    obtain ⟨-, -, n, hstored, -⟩ := hstep.of_recovered due (by rw [holdOf, hkind])
    cases h with
    | past hpast =>
      have := hr.le
      omega
    | recorded hsaved => exact hsaved
    | held _ unrecorded => cases unrecorded _ hstored
  · intro hsaved
    cases h with
    | past hpast =>
      have := hr.le
      omega
    | held hunsaved => exact absurd hsaved hunsaved
    | recorded _ stored untold =>
      obtain ⟨a, due, hkind, about⟩ := hstep.recovered_of_beat stored hb hlt
      have hof : holdOf a = .watcherRecovered := by rw [holdOf, hkind]
      cases hran.notified with
      | idle due' => simp [due] at due'
      | muted _ _ noOwner => exact absurd noOwner howner
      -- The end of this silence was never told, so no hold is in the way.
      | held due' found same =>
        obtain rfl := Option.some.inj (due.symm.trans due')
        exact absurd (about ▸ same) (untold _ (hof ▸ (holds_of_findHold found).1))
      | refused due' _ _ out =>
        obtain rfl := Option.some.inj (due.symm.trans due')
        rw [out]
        exact ⟨_, List.mem_singleton_self _, a, rfl, hkind, about⟩
      | delivered due' _ _ out =>
        obtain rfl := Option.some.inj (due.symm.trans due')
        rw [out]
        exact ⟨_, List.mem_singleton_self _, a, rfl, hkind, about⟩

end DownKnown

/-! ### The service over time -/

/-- The checks read their states and find the hold that Redis has. -/
def Attentive (s : Monitoring ι) : MonitorEvent ι → Prop
  | .watcher .. => True
  | .check run =>
    run.readOk = true ∧ run.holdAnswers = {} ∧ MemoryAgrees [.watcherDown] s.world run

/-- A check that sees a heartbeat after `S`. -/
def SeesHeartbeat (S : ℤ) (s : Monitoring ι) : MonitorEvent ι → Prop
  | .watcher .. => False
  | .check _ => ∃ b ∈ s.world.heartbeat, S < b

/-- Two messages about one silence are an hour apart, the earlier one first, if both
arrived. -/
def MonitorNotice.SilencesApart (a b : MonitorNotice) : Prop :=
  a.delivered = true → b.delivered = true → ∀ S, a.Says .watcherDown S → b.Says .watcherDown S →
    a.sentAt + stateUnreadableNoticeMs ≤ b.sentAt

/-- The mark of a `watcherDown` about `S` delivered at `t` is on the service. -/
structure SilenceMarked (S t : ℤ) (s : Monitoring ι) : Prop where
  le : t ≤ s.clock
  long : S + watcherSilenceMs ≤ t
  mark : WatcherDownMark S t s.world s.clock

section Service

variable [DecidableEq ι] {s : Monitoring ι} {e : MonitorEvent ι}

def attentiveMonitoring (ownerChatId : Option String) :
    System (Monitoring ι) (MonitorEvent ι) MonitorNotice :=
  (monitoring ownerChatId).restrict Attentive

theorem Watchful.attentiveRun (hs : Watchful s.world s.clock)
    (hleg : (attentiveMonitoring ownerChatId).legal s (.check run)) :
    AttentiveRun s.world s.clock run :=
  ⟨hs, hleg.1, hleg.2.2.1, hleg.2.2.2⟩

/-- What sends a `watcherDown` is a check to which it is due. -/
theorem exists_checkRan_of_mem (hleg : (attentiveMonitoring ownerChatId).legal s e)
    {n : MonitorNotice} (hn : n ∈ (attentiveMonitoring ownerChatId).out s e)
    (hsaid : n.Says .watcherDown S) :
    ∃ run decision sent a, e = .check run ∧
      CheckRan ownerChatId s.world run decision sent
        ((attentiveMonitoring ownerChatId).next s e).world
        ((attentiveMonitoring ownerChatId).out s e) ∧
      decision.action = some a ∧ a.kind = .watcherDown ∧ a.since = S ∧ n.sentAt = run.now ∧
      (n.delivered = true → sent = some ⟨run.now, false⟩) := by
  cases e with
  | watcher logged run =>
    rcases kind_of_mem_runWatcher hn hsaid with hkind | hkind | hkind
    · cases hkind
    · cases hkind
    · cases hkind
  | check run =>
    obtain ⟨a, hmessage, hkind, rfl⟩ := hsaid.exists_about
    obtain ⟨decision, sent, hran⟩ := checkWatcher_cases ownerChatId s.world hleg.2.1
    obtain ⟨b, due, hmessage', hat, -, hsent⟩ := hran.notified.mem hn
    obtain rfl := OwnerMessage.about.inj (hmessage.symm.trans hmessage')
    exact ⟨run, decision, sent, a, rfl, hran, due, hkind, rfl, hat, hsent⟩

/-- A watcher run only moves the heartbeat. -/
theorem WatcherDownMark.watcher (h : WatcherDownMark S t w clock) (hw : Watchful w clock)
    (hle : clock ≤ run.now) :
    WatcherDownMark S t (runWatcher ownerChatId w run).1 run.now := by
  have hframe := runWatcher_frame ownerChatId w run
  cases h with
  | past hpast => exact .past (hpast.trans hle)
  | ended beat later =>
    obtain ⟨b, hb, hle'⟩ := (@Watchful.later ι w run clock ownerChatId _ hw hle).2 _ beat
    exact .ended hb (later.trans_le hle')
  | recorded stored le =>
    refine .recorded ?_ le
    rw [World.silence, hframe.1]
    exact stored
  | held hold =>
    obtain ⟨hold, hmem, hrest⟩ := hold
    exact .held ⟨hold, (hframe.2 .watcherDown (by decide)).1.trans hmem, hrest⟩

theorem SilenceMarked.next (h : SilenceMarked S t s) (hs : Watchful s.world s.clock)
    (hleg : (attentiveMonitoring ownerChatId).legal s e) :
    SilenceMarked S t ((attentiveMonitoring ownerChatId).next s e) := by
  have hclock : s.clock ≤ e.now := hleg.1
  cases e with
  | watcher logged run =>
    have hlogged : Watchful (s.world.recordRuns logged) s.clock :=
      ⟨hs.beat, hs.stored, hs.down, hs.recovered⟩
    have hmark : WatcherDownMark S t (s.world.recordRuns logged) s.clock := by
      cases h.mark with
      | past hpast => exact .past hpast
      | ended beat later => exact .ended beat later
      | recorded stored le => exact .recorded stored le
      | held hold => exact .held hold
    exact ⟨h.le.trans hclock, h.long, hmark.watcher hlogged hclock⟩
  | check run =>
    obtain ⟨decision, sent, hran⟩ := checkWatcher_cases ownerChatId s.world hleg.2.1
    have ht := h.le.trans hclock
    exact ⟨ht, h.long, h.mark.ran (hs.attentiveRun hleg) h.long ht hran⟩

/-- **No silence is told twice within the hour.** -/
theorem silences_apart (ownerChatId : Option String) (runs : List LoggedRun) (clock : ℤ)
    {es : List (MonitorEvent ι)}
    (hr : (attentiveMonitoring ownerChatId).Run (newMonitoring ι runs clock) es) :
    ((attentiveMonitoring ownerChatId).outputs (newMonitoring ι runs clock) es).Pairwise
      MonitorNotice.SilencesApart := by
  let mark (n : MonitorNotice) (s : Monitoring ι) : Prop :=
    n.delivered = true → ∀ S, n.Says .watcherDown S → SilenceMarked S n.sentAt s
  have hI := (@keeps_watchful ι _ ownerChatId).restrict Attentive
  refine System.Run.outputs_pairwise hI (A := mark) ?_ ?_ ?_ ?_
    (watchful_newMonitoring runs clock) hr
  · intro s e hs hleg
    cases e with
    | check run =>
      obtain ⟨decision, sent, hran⟩ := checkWatcher_cases ownerChatId s.world hleg.2.1
      exact hran.notified.pairwise _
    | watcher logged run =>
      refine List.pairwise_of_forall_mem_list fun a ha b hb _ _ S hsaid => ?_
      rcases kind_of_mem_runWatcher ha hsaid with hkind | hkind | hkind
      · cases hkind
      · cases hkind
      · cases hkind
  · intro s e hs hleg n hn hdelivered S hsaid
    obtain ⟨run, decision, sent, a, rfl, hran, due, hkind, rfl, hat, hsent⟩ :=
      exists_checkRan_of_mem hleg hn hsaid
    obtain ⟨hlong, hmark⟩ :=
      WatcherDownMark.of_delivered (hs.attentiveRun hleg) hran due hkind (hsent hdelivered)
    rw [hat]
    exact ⟨le_rfl, hlong, hmark⟩
  · exact fun n s e hs hmark hleg hdelivered S hsaid => (hmark hdelivered S hsaid).next hs hleg
  · intro n s e hs hmark hleg n' hn' hdelivered hdelivered' S hsaid hsaid'
    obtain ⟨run, decision, sent, a, rfl, hran, due, hkind, rfl, hat, -⟩ :=
      exists_checkRan_of_mem hleg hn' hsaid'
    rw [hat]
    exact (hmark hdelivered _ hsaid).mark.le_now (hs.attentiveRun hleg) hran due hkind rfl
      (List.ne_nil_of_mem hn')

/-- What is known of a silence is kept while no check sees a newer heartbeat. -/
theorem DownKnown.next {saved : Prop} (h : DownKnown S t saved s.world s.clock)
    (hs : Watchful s.world s.clock) (hlong : S + watcherSilenceMs ≤ t) (ht : t ≤ s.clock)
    (hleg : (attentiveMonitoring ownerChatId).legal s e) (hblind : ¬SeesHeartbeat S s e) :
    DownKnown S t (saved ∨ e.Saves) ((attentiveMonitoring ownerChatId).next s e).world
      ((attentiveMonitoring ownerChatId).next s e).clock := by
  have hclock : s.clock ≤ e.now := hleg.1
  cases e with
  | watcher logged run =>
    have hframe := runWatcher_frame ownerChatId (s.world.recordRuns logged) run
    have hlogged : DownKnown S t saved (s.world.recordRuns logged) s.clock :=
      h.frame le_rfl rfl fun _ _ => ⟨rfl, fun _ => rfl⟩
    have hsilence : (runWatcher ownerChatId (s.world.recordRuns logged) run).1.silence =
        (s.world.recordRuns logged).silence := by rw [World.silence, hframe.1, World.silence]
    exact (hlogged.frame hclock hsilence hframe.2).congr (by simp [MonitorEvent.Saves])
  | check run =>
    obtain ⟨decision, sent, hran⟩ := checkWatcher_cases ownerChatId s.world hleg.2.1
    refine h.ran (hs.attentiveRun hleg) hlong (ht.trans hclock) (fun b hb => ?_) hran
    by_contra hlt
    exact hblind ⟨b, hb, not_le.mp hlt⟩

theorem DownKnown.of_run {saved : Prop} {es : List (MonitorEvent ι)}
    (h : DownKnown S t saved s.world s.clock) (hs : Watchful s.world s.clock)
    (hlong : S + watcherSilenceMs ≤ t) (ht : t ≤ s.clock)
    (hr : ((attentiveMonitoring ownerChatId).restrict fun s e => ¬SeesHeartbeat S s e).Run s es) :
    DownKnown S t (saved ∨ ∃ e ∈ es, e.Saves) ((attentiveMonitoring ownerChatId).final s es).world
      ((attentiveMonitoring ownerChatId).final s es).clock := by
  induction es generalizing s saved with
  | nil => exact h.congr (by simp)
  | cons e es ih =>
    obtain ⟨⟨hleg, hblind⟩, hes⟩ := hr
    have hclock : s.clock ≤ ((attentiveMonitoring ownerChatId).next s e).clock := by
      cases e <;> exact hleg.1
    have hnext := h.next hs hlong ht hleg hblind
    exact (ih hnext (keeps_watchful ownerChatId s e hs hleg.1) (ht.trans hclock) hes).congr
      (by simp [or_assoc])

/-- **What the owner hears of a silent watcher**, if the checks find the holds that Redis has.

Two `watcherDown` about one silence are an hour apart. If one arrived, the first check within
the hour that sees a newer heartbeat attempts a `watcherRecovered` if and only if the silence
was stored as told before, or a check in between – from the one that told it on – could save
its state. -/
theorem watcher_silences (ownerChatId : Option String) (runs : List LoggedRun) (clock : ℤ)
    {es : List (MonitorEvent ι)}
    (hr : (attentiveMonitoring ownerChatId).Run (newMonitoring ι runs clock) es) :
    let M := attentiveMonitoring ownerChatId
    let s := newMonitoring ι runs clock
    (M.outputs s es).Pairwise MonitorNotice.SilencesApart ∧
    ∀ pre e mid e' post S, es = pre ++ e :: mid ++ e' :: post →
      Arrived .watcherDown S (M.out (M.final s pre) e) →
      (M.restrict fun s e => ¬SeesHeartbeat S s e).Run (M.final s (pre ++ [e])) mid →
      SeesHeartbeat S (M.final s (pre ++ e :: mid)) e' →
      e'.now < e.now + stateUnreadableNoticeMs →
      ((∃ n ∈ M.out (M.final s (pre ++ e :: mid)) e', n.Says .watcherRecovered S) ↔
        (∃ n, (M.final s pre).world.silence = some ⟨S, some n⟩) ∨ ∃ c ∈ e :: mid, c.Saves) := by
  intro M s
  refine ⟨silences_apart ownerChatId runs clock hr, ?_⟩
  rintro pre e mid e' post S rfl ⟨n, hn, hdelivered, hsaid⟩ hmid hsees hwithin
  have hI : M.Keeps fun s => Watchful s.world s.clock :=
    (keeps_watchful ownerChatId).restrict Attentive
  have hstart := @watchful_newMonitoring ι runs clock
  rw [System.run_append, System.run_cons] at hr
  obtain ⟨hbefore, hleg', -⟩ := hr
  have hs' : Watchful (M.final s (pre ++ e :: mid)).world (M.final s (pre ++ e :: mid)).clock :=
    hbefore.invariant hI hstart
  rw [System.run_append, System.run_cons] at hbefore
  obtain ⟨hpre, hleg, -⟩ := hbefore
  have hs : Watchful (M.final s pre).world (M.final s pre).clock := hpre.invariant hI hstart
  obtain ⟨run, decision, sent, a, rfl, hran, due, hkind, rfl, hat, hsent⟩ :=
    exists_checkRan_of_mem hleg hn hsaid
  -- What is known of the silence when it is told, and until the heartbeat is back.
  have hr := hs.attentiveRun hleg
  have hknown := DownKnown.of_delivered hr hran due hkind (hsent hdelivered)
  have hlong := (WatcherDownMark.of_delivered hr hran due hkind (hsent hdelivered)).1
  have hfinal : M.final s (pre ++ .check run :: mid) =
      M.final (M.next (M.final s pre) (.check run)) mid :=
    System.final_append M s pre (.check run :: mid)
  rw [System.final_append] at hmid
  have hknown' := hknown.of_run (hI _ _ hs hleg) hlong le_rfl hmid
  rw [← hfinal] at hknown'
  cases e' with
  | watcher logged run' => exact hsees.elim
  | check run' =>
    obtain ⟨b, hb, hlt⟩ := hsees
    obtain ⟨decision', sent', hran'⟩ :=
      checkWatcher_cases ownerChatId (M.final s (pre ++ .check run :: mid)).world hleg'.2.1
    refine (hknown'.recovered_iff (hs'.attentiveRun hleg') hwithin hb hlt
      (hran.notified.owner hn) hran').trans ?_
    simp [MonitorEvent.Saves, or_assoc]

end Service

/-! ### Examples -/

instance (s : Monitoring ι) (e : MonitorEvent ι) : Decidable (SeesHeartbeat S s e) :=
  match e with
  | .watcher .. => .isFalse id
  | .check _ => inferInstanceAs (Decidable (∃ b ∈ _, S < b))

instance (s : Monitoring ι) (e : MonitorEvent ι) : Decidable (Attentive s e) :=
  match e with
  | .watcher .. => .isTrue trivial
  | .check _ => inferInstanceAs (Decidable (_ ∧ _ ∧ MemoryAgrees _ _ _))

instance [DecidableEq ι] (s : Monitoring ι) (e : MonitorEvent ι) :
    Decidable ((attentiveMonitoring ownerChatId).legal s e) :=
  inferInstanceAs (Decidable (_ ∧ Attentive s e))

def checkAt (host : ℕ) (minute : ℤ) (saveOk : Bool) : MonitorEvent ℕ :=
  .check { host := host, now := minutes minute, saveOk := saveOk }

def heartbeatAt (minute : ℤ) : MonitorEvent ℕ :=
  .watcher [] { host := 0, now := minutes minute }

/-- A silence that the check of minute 30 tells without being able to save that, and that the
check of minute 40 records. -/
theorem watcher_silences_recorded :
    let M := attentiveMonitoring (some "owner")
    let s := newMonitoring ℕ [] 0
    let mid := [checkAt 1 35 false, checkAt 1 40 true, heartbeatAt 45]
    (∃ n ∈ M.out (M.final s ([heartbeatAt 0] ++ checkAt 0 30 false :: mid)) (checkAt 0 46 true),
        n.Says .watcherRecovered 0) ↔
      (∃ n, (M.final s [heartbeatAt 0]).world.silence = some ⟨0, some n⟩) ∨
        ∃ c ∈ checkAt 0 30 false :: mid, c.Saves := by
  intro M s mid
  have hr : M.Run s ([heartbeatAt 0] ++ checkAt 0 30 false :: mid ++ checkAt 0 46 true :: []) := by
    decide +kernel
  exact (watcher_silences (some "owner") [] 0 hr).2 _ _ mid _ [] 0 rfl (by decide +kernel)
    (by decide +kernel) (by decide +kernel) (by decide +kernel)

/-- The silence since minute 0 is told at minute 30, but not saved. The heartbeat is back
before the next check, which has nothing to say. -/
theorem watcherRecovered_not_attempted :
    let M := attentiveMonitoring (some "owner")
    let s := newMonitoring ℕ [] 0
    M.Run s [heartbeatAt 0, checkAt 0 30 false, heartbeatAt 35, checkAt 0 36 true] ∧
      Arrived .watcherDown 0 (M.out (M.final s [heartbeatAt 0]) (checkAt 0 30 false)) ∧
      SeesHeartbeat 0 (M.final s [heartbeatAt 0, checkAt 0 30 false, heartbeatAt 35])
        (checkAt 0 36 true) ∧
      (checkAt 0 36 true).now < (checkAt 0 30 false).now + stateUnreadableNoticeMs ∧
      M.out (M.final s [heartbeatAt 0, checkAt 0 30 false, heartbeatAt 35])
        (checkAt 0 36 true) = [] := by
  decide +kernel

/-- Instance 0 still remembers the silence since minute 0, and its memory hides the hold of
instance 1 on the silence since minute 31. -/
theorem watcherDown_repeated :
    let M := monitoring (some "owner")
    let s := newMonitoring ℕ [] 0
    let es := [heartbeatAt 0, checkAt 0 30 false, heartbeatAt 31, checkAt 1 61 false,
      checkAt 0 66 false]
    M.Run s es ∧
      (M.outputs s es).map (fun n => (n.message.topic, n.sentAt, n.delivered)) =
        [((.watcherDown, some 0), minutes 30, true), ((.outage, some 0), minutes 31, true),
          ((.watcherDown, some (minutes 31)), minutes 61, true),
          ((.watcherDown, some (minutes 31)), minutes 66, true)] := by
  decide +kernel

end Monitor

end CryptoZaloBot
