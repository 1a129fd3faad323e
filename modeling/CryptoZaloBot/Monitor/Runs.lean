import CryptoZaloBot.Monitor.Service

/-!
# What a run of the monitor does

The runs of the monitor service, read backwards: what they decide, what becomes of the
message that is due, and what they leave behind
(`CryptoZaloBot.Monitor.runWatcher_cases`, `CryptoZaloBot.Monitor.checkWatcher_cases`,
`CryptoZaloBot.Monitor.sendUnrecorded_cases`). Everything else that is said about runs
follows from these three.
-/

namespace CryptoZaloBot

namespace Monitor

/-! ### What the owner gets -/

section Owner

variable {kind : MonitorActionKind} {S : ℤ} {history : List MonitorNotice}

def OwnerMessage.action : OwnerMessage → Option MonitorAction
  | about action => some action
  | stateUnreadable => none

/-- The message is of that kind, about that outage. -/
def MonitorNotice.Says (n : MonitorNotice) (kind : MonitorActionKind) (S : ℤ) : Prop :=
  ∃ a ∈ n.message.action, a.kind = kind ∧ a.since = S

instance (n : MonitorNotice) (kind : MonitorActionKind) (S : ℤ) : Decidable (n.Says kind S) :=
  inferInstanceAs (Decidable (∃ a ∈ n.message.action, a.kind = kind ∧ a.since = S))

theorem MonitorNotice.Says.exists_about {n : MonitorNotice} (h : n.Says kind S) :
    ∃ a, n.message = .about a ∧ a.kind = kind ∧ a.since = S := by
  obtain ⟨a, ha, hrest⟩ := h
  cases hmessage : n.message with
  | about b =>
    rw [hmessage] at ha
    obtain rfl := Option.some.inj ha
    exact ⟨b, rfl, hrest⟩
  | stateUnreadable =>
    rw [hmessage] at ha
    cases ha

/-- A message of that kind, about that outage, arrived. -/
def Arrived (kind : MonitorActionKind) (S : ℤ) (history : List MonitorNotice) : Prop :=
  ∃ n ∈ history, n.delivered = true ∧ n.Says kind S

instance (kind : MonitorActionKind) (S : ℤ) (history : List MonitorNotice) :
    Decidable (Arrived kind S history) :=
  inferInstanceAs (Decidable (∃ n ∈ history, _ ∧ _))

theorem Arrived.append (h : Arrived kind S history) (notices : List MonitorNotice) :
    Arrived kind S (history ++ notices) := by
  obtain ⟨n, hn, hsaid⟩ := h
  exact ⟨n, List.mem_append_left _ hn, hsaid⟩

end Owner

/-! ### What a run does -/

section Cases

variable {ι : Type} {ownerChatId : Option String} {w : World ι} {run : MonitorRun ι}

theorem watcherDecision_step (w : World ι) (run : MonitorRun ι) :
    MonitorStep (w.loadedState run) w.recentRuns run.now (w.watcherDecision run) := by
  rw [World.watcherDecision]
  split
  all_goals exact evaluateMonitor_step _ _ _ _

/-- **What became of the message that is due.** -/
inductive Notified (ownerChatId : Option String) (w : World ι) (run : MonitorRun ι)
    (action : Option MonitorAction) (sent : Option Sent) (notices : List MonitorNotice) : Prop
  | idle (due : action = none) (hsent : sent = none) (out : notices = [])
  | held {a : MonitorAction} {hold : NoticeHold} (due : action = some a)
      (found : w.findHold run.host (holdOf a) run.now run.holdAnswers.find = some hold)
      (same : hold.since = some a.since) (hsent : sent = some ⟨hold.sentAt, true⟩)
      (out : notices = [])
  | muted {a : MonitorAction} (due : action = some a)
      (free : ∀ hold ∈ w.findHold run.host (holdOf a) run.now run.holdAnswers.find,
        hold.since ≠ some a.since)
      (noOwner : ownerChatId = none) (hsent : sent = none) (out : notices = [])
  | refused {a : MonitorAction} (due : action = some a)
      (free : ∀ hold ∈ w.findHold run.host (holdOf a) run.now run.holdAnswers.find,
        hold.since ≠ some a.since)
      (hsent : sent = none) (out : notices = [⟨.about a, run.now, false⟩])
      (owner : ownerChatId ≠ none)
  | delivered {a : MonitorAction} (due : action = some a)
      (free : ∀ hold ∈ w.findHold run.host (holdOf a) run.now run.holdAnswers.find,
        hold.since ≠ some a.since)
      (hsent : sent = some ⟨run.now, false⟩) (out : notices = [⟨.about a, run.now, true⟩])
      (owner : ownerChatId ≠ none)

theorem notifyDue_cases (ownerChatId : Option String) (w : World ι) (run : MonitorRun ι)
    (action : Option MonitorAction) :
    Notified ownerChatId w run action (notifyDue ownerChatId w run action).1
      (notifyDue ownerChatId w run action).2 := by
  cases action with
  | none => exact .idle rfl rfl rfl
  | some action =>
    rw [notifyDue, notify]
    cases hfind : (w.findHold run.host (holdOf action) run.now run.holdAnswers.find).filter
        (·.since = some action.since) with
    | some hold =>
      obtain ⟨hfound, hsame⟩ := Option.filter_eq_some_iff.mp hfind
      exact .held rfl hfound (of_decide_eq_true hsame) rfl rfl
    | none =>
      have hfree : ∀ hold ∈ w.findHold run.host (holdOf action) run.now run.holdAnswers.find,
          hold.since ≠ some action.since := by
        intro hold hmem hsame
        have := Option.filter_eq_none_iff.mp hfind hold hmem
        simp [hsame] at this
      cases ownerChatId with
      | none => exact .muted rfl hfree rfl rfl rfl
      | some chat =>
        rw [send]
        cases run.delivered with
        | false => exact .refused rfl hfree rfl rfl (Option.some_ne_none _)
        | true => exact .delivered rfl hfree rfl rfl (Option.some_ne_none _)

/-- A notice is about the message that was due, and no hold was in its way. -/
theorem Notified.mem {action : Option MonitorAction} {sent : Option Sent}
    {notices : List MonitorNotice} (h : Notified ownerChatId w run action sent notices)
    {n : MonitorNotice} (hn : n ∈ notices) :
    ∃ a, action = some a ∧ n.message = .about a ∧ n.sentAt = run.now ∧
      (∀ hold ∈ w.findHold run.host (holdOf a) run.now run.holdAnswers.find,
        hold.since ≠ some a.since) ∧
      (n.delivered = true → sent = some ⟨run.now, false⟩) := by
  cases h with
  | idle due hsent out => simp [out] at hn
  | held due found same hsent out => simp [out] at hn
  | muted due free noOwner hsent out => simp [out] at hn
  | refused due free hsent out =>
    rw [out] at hn
    obtain rfl := List.mem_singleton.mp hn
    exact ⟨_, due, rfl, rfl, free, fun hdelivered => by simp at hdelivered⟩
  | delivered due free hsent out =>
    rw [out] at hn
    obtain rfl := List.mem_singleton.mp hn
    exact ⟨_, due, rfl, rfl, free, fun _ => hsent⟩

/-- At most one message is sent. -/
theorem Notified.pairwise {action : Option MonitorAction} {sent : Option Sent}
    {notices : List MonitorNotice} (h : Notified ownerChatId w run action sent notices)
    (R : MonitorNotice → MonitorNotice → Prop) : notices.Pairwise R := by
  cases h with
  | idle _ _ out => rw [out]; exact .nil
  | held _ _ _ _ out => rw [out]; exact .nil
  | muted _ _ _ _ out => rw [out]; exact .nil
  | refused _ _ _ out => rw [out]; exact List.pairwise_singleton _ _
  | delivered _ _ _ out => rw [out]; exact List.pairwise_singleton _ _

/-- Only with an owner chat is a message sent. -/
theorem Notified.owner {action : Option MonitorAction} {sent : Option Sent}
    {notices : List MonitorNotice} (h : Notified ownerChatId w run action sent notices)
    {n : MonitorNotice} (hn : n ∈ notices) : ownerChatId ≠ none := by
  cases h with
  | idle _ _ out => simp [out] at hn
  | held _ _ _ _ out => simp [out] at hn
  | muted _ _ _ _ out => simp [out] at hn
  | refused _ _ _ _ owner => exact owner
  | delivered _ _ _ _ owner => exact owner

theorem Notified.of_idle {sent : Option Sent} {notices : List MonitorNotice}
    (h : Notified ownerChatId w run none sent notices) : sent = none ∧ notices = [] := by
  cases h with
  | idle _ hsent out => exact ⟨hsent, out⟩
  | held due => cases due
  | muted due => cases due
  | refused due => cases due
  | delivered due => cases due

theorem Notified.notices_of_sent {action : Option MonitorAction} {sent : Option Sent}
    {notices : List MonitorNotice} (h : Notified ownerChatId w run action sent notices)
    {a : MonitorAction} {sentAt : ℤ} (due : action = some a) (hsent : sent = some ⟨sentAt, false⟩) :
    notices = [⟨.about a, run.now, true⟩] := by
  cases h with
  | idle _ hsent' => simp [hsent] at hsent'
  | held _ _ _ hsent' => simp [hsent] at hsent'
  | muted _ _ _ hsent' => simp [hsent] at hsent'
  | refused _ _ hsent' => simp [hsent] at hsent'
  | delivered due' _ _ out =>
    obtain rfl := Option.some.inj (due.symm.trans due')
    exact out

/-- **A message that a hold is in the way of** counts as delivered. -/
theorem Notified.sent_of_found {action : Option MonitorAction} {sent : Option Sent}
    {notices : List MonitorNotice} (h : Notified ownerChatId w run action sent notices)
    {a : MonitorAction} {hold : NoticeHold} (due : action = some a)
    (found : w.findHold run.host (holdOf a) run.now run.holdAnswers.find = some hold)
    (same : hold.since = some a.since) : sent = some ⟨hold.sentAt, true⟩ ∧ notices = [] := by
  cases h with
  | idle due' => simp [due] at due'
  | @held b hold' due' found' same' hsent out =>
    obtain rfl := Option.some.inj (due.symm.trans due')
    obtain rfl := Option.some.inj (found.symm.trans found')
    exact ⟨hsent, out⟩
  | muted due' free =>
    obtain rfl := Option.some.inj (due.symm.trans due')
    exact absurd same (free hold found)
  | refused due' free =>
    obtain rfl := Option.some.inj (due.symm.trans due')
    exact absurd same (free hold found)
  | delivered due' free =>
    obtain rfl := Option.some.inj (due.symm.trans due')
    exact absurd same (free hold found)

/-- **A state a watcher run can start from**: the stored one, or the stored one with the
outage of a hold. -/
inductive Loaded (w : World ι) (run : MonitorRun ι) : Option MonitorState → Prop
  | stored : Loaded w run w.monitor
  | restored {m : MonitorState} {sentAt since : ℤ} (stored : w.monitor = some m)
      (untold : ∀ o ∈ m.outage, o = ⟨since, none⟩)
      (stale : watcherStateStaleMs < run.now - m.lastWatcherRunAt)
      (found : w.findHold run.host .outage run.now run.holdAnswers.restore =
        some ⟨sentAt, some since⟩)
      (lasting : ∀ l ∈ m.lastHealthyAt, l ≤ since) :
      Loaded w run (some { m with outage := some ⟨since, some sentAt⟩ })

theorem loadedState_cases (w : World ι) (run : MonitorRun ι) :
    Loaded w run (w.loadedState run) := by
  have hstored {state : Option MonitorState} (h : w.monitor = state) : Loaded w run state :=
    h ▸ .stored
  rw [World.loadedState]
  cases hm : w.monitor with
  | none => exact hstored hm
  | some m =>
    rw [World.withUnrecordedOutage]
    split_ifs with htold hfresh
    · exact hstored hm
    · exact hstored hm
    · split
      next sentAt since hfound =>
        split_ifs with hother hended
        · exact hstored hm
        · exact hstored hm
        · refine .restored hm (fun o ho => ?_) (not_le.mp hfresh) hfound fun l hl => ?_
          · obtain ⟨S, n⟩ := o
            obtain rfl : S = since := by
              by_contra hne
              exact hother ⟨_, ho, hne⟩
            cases n with
            | none => rfl
            | some n => exact absurd ⟨_, ho, rfl⟩ htold
          · by_contra hlt
            exact hended ⟨l, hl, not_le.mp hlt⟩
      next => exact hstored hm

/-- A notified outage is the stored one. -/
theorem loadedState_of_told {m : MonitorState} {since n : ℤ} (hm : w.monitor = some m)
    (ho : m.outage = some ⟨since, some n⟩) : w.loadedState run = some m := by
  rw [World.loadedState, hm]
  exact if_pos ⟨_, ho, rfl⟩

/-- **A stale state gets the outage of the hold back.** -/
theorem loadedState_of_held {m : MonitorState} {since sentAt : ℤ} (hm : w.monitor = some m)
    (untold : ∀ o ∈ m.outage, o = ⟨since, none⟩)
    (stale : watcherStateStaleMs < run.now - m.lastWatcherRunAt)
    (found : w.findHold run.host .outage run.now run.holdAnswers.restore =
      some ⟨sentAt, some since⟩)
    (lasting : ∀ l ∈ m.lastHealthyAt, l ≤ since) :
    w.loadedState run = some { m with outage := some ⟨since, some sentAt⟩ } := by
  have htold : ¬∃ o ∈ m.outage, o.notifiedAt.isSome := by
    rintro ⟨o, ho, hn⟩
    simp [untold o ho] at hn
  have hother : ¬∃ o ∈ m.outage, o.since ≠ since := by
    rintro ⟨o, ho, hne⟩
    exact hne (by rw [untold o ho])
  have hended : ¬∃ l ∈ m.lastHealthyAt, since < l := by
    rintro ⟨l, hl, hlt⟩
    exact absurd (lasting l hl) (not_le.mpr hlt)
  rw [World.loadedState, hm]
  simp only [World.withUnrecordedOutage, if_neg htold, if_neg (not_le.mpr stale), found,
    if_neg hother, if_neg hended]

theorem Loaded.bind_lastHealthyAt {state : Option MonitorState} (h : Loaded w run state) :
    state.bind MonitorState.lastHealthyAt = w.monitor.bind MonitorState.lastHealthyAt := by
  cases h with
  | stored => rfl
  | restored stored =>
    rw [stored]
    rfl

theorem Loaded.startedAt_eq {state : Option MonitorState} (h : Loaded w run state) (now : ℤ) :
    startedAt state now = startedAt w.monitor now := by
  cases h with
  | stored => rfl
  | restored stored =>
    rw [stored]
    rfl

theorem Loaded.heardAt_eq {state : Option MonitorState} (h : Loaded w run state)
    (recentRuns : List LoggedRun) : heardAt state recentRuns = heardAt w.monitor recentRuns := by
  rw [heardAt, heardAt, h.bind_lastHealthyAt]

theorem Loaded.silentSince_eq {state : Option MonitorState} (h : Loaded w run state)
    (recentRuns : List LoggedRun) (now : ℤ) :
    silentSince state recentRuns now = silentSince w.monitor recentRuns now := by
  rw [silentSince, silentSince, h.heardAt_eq, h.startedAt_eq]

/-! ### What a run leaves -/

@[simp] theorem notifiedOutage_eq_none {outage : Option OutageState} {sent : Option Sent} :
    notifiedOutage outage sent = none ↔ outage = none := by
  cases outage <;> cases sent <;> simp [notifiedOutage]

@[simp] theorem notifiedOutage_unsent (outage : Option OutageState) :
    notifiedOutage outage none = outage := by
  cases outage <;> rfl

theorem exists_since_of_notifiedOutage {outage : Option OutageState} {sent : Option Sent}
    {o : OutageState} (h : notifiedOutage outage sent = some o) :
    ∃ o', outage = some o' ∧ o'.since = o.since := by
  cases outage with
  | none => simp [notifiedOutage] at h
  | some o' =>
    refine ⟨o', rfl, ?_⟩
    cases sent with
    | none => rw [Option.some.inj h]
    | some sent =>
      rw [← Option.some.inj h]
      split_ifs <;> rfl

section Next

variable {decision : MonitorDecision MonitorState} {sent : Option Sent}

theorem lastHealthyAt_nextMonitor
    (h : MonitorStep (w.loadedState run) w.recentRuns run.now decision) :
    (nextMonitor ownerChatId decision sent).lastHealthyAt = heardAt w.monitor w.recentRuns := by
  rw [← (loadedState_cases w run).heardAt_eq]
  change (decision.after sent.isSome).lastHealthyAt = _
  rw [h.after_eq]
  rfl

theorem watcherStartedAt_nextMonitor
    (h : MonitorStep (w.loadedState run) w.recentRuns run.now decision) :
    (nextMonitor ownerChatId decision sent).watcherStartedAt = startedAt w.monitor run.now := by
  rw [← (loadedState_cases w run).startedAt_eq]
  change (decision.after sent.isSome).watcherStartedAt = _
  rw [h.after_eq]
  rfl

theorem lastWatcherRunAt_nextMonitor
    (h : MonitorStep (w.loadedState run) w.recentRuns run.now decision) :
    (nextMonitor ownerChatId decision sent).lastWatcherRunAt = run.now := by
  change (decision.after sent.isSome).lastWatcherRunAt = _
  rw [h.after_eq]
  rfl

end Next

variable [DecidableEq ι]

/-- **What is left of a run**: what it saves; nothing; or the hold on what it sent in vain. -/
inductive Recorded (w : World ι) (run : MonitorRun ι) (saved : World ι)
    (action : Option MonitorAction) (sent : Option Sent) (w' : World ι) : Prop
  | saved (ok : run.saveOk = true) (left : w' = saved)
  | lost (unsaved : run.saveOk = false)
      (nothing : ∀ a t, action = some a → sent ≠ some ⟨t, false⟩) (left : w' = w)
  | held {a : MonitorAction} {sentAt : ℤ} (unsaved : run.saveOk = false) (due : action = some a)
      (hsent : sent = some ⟨sentAt, false⟩) (left : w' = w.holdAfterUnrecordedSend run a)

theorem record_cases (w : World ι) (run : MonitorRun ι) (saved : World ι)
    (action : Option MonitorAction) (sent : Option Sent) :
    Recorded w run saved action sent (w.record run saved action sent) := by
  unfold World.record
  by_cases hsave : run.saveOk = true
  · rw [if_pos hsave]
    exact .saved hsave rfl
  · rw [if_neg hsave]
    have hunsaved : run.saveOk = false := Bool.eq_false_iff.mpr hsave
    rcases action with - | action
    · exact .lost hunsaved (by simp) rfl
    · rcases sent with - | ⟨sentAt, - | -⟩
      · exact .lost hunsaved (by simp) rfl
      · exact .held hunsaved rfl rfl rfl
      · exact .lost hunsaved (by simp) rfl

/-- **A watcher run that reads its state**: what it decides, sends and leaves. -/
structure WatcherRan (ownerChatId : Option String) (w : World ι) (run : MonitorRun ι)
    (decision : MonitorDecision MonitorState) (sent : Option Sent) (w' : World ι)
    (notices : List MonitorNotice) : Prop where
  step : MonitorStep (w.loadedState run) w.recentRuns run.now decision
  notified : Notified ownerChatId w run decision.action sent notices
  recorded : Recorded w run { w with monitor := some (nextMonitor ownerChatId decision sent) }
    decision.action sent w'

theorem runWatcher_cases (ownerChatId : Option String) (w : World ι) {run : MonitorRun ι}
    (hread : run.readOk = true) :
    ∃ decision sent, WatcherRan ownerChatId w run decision sent (runWatcher ownerChatId w run).1
      (runWatcher ownerChatId w run).2 := by
  rw [runWatcher, if_pos hread]
  exact ⟨_, _, watcherDecision_step w run, notifyDue_cases ownerChatId w run _,
    record_cases _ _ _ _ _⟩

/-- **A look at the watcher that reads its states.** Nothing is saved if nothing changes. -/
structure CheckRan (ownerChatId : Option String) (w : World ι) (run : MonitorRun ι)
    (decision : MonitorDecision WatchdogState) (sent : Option Sent) (w' : World ι)
    (notices : List MonitorNotice) : Prop where
  step : WatchdogStep (w.watchdog.bind WatchdogState.outage)
    (w.monitor.map MonitorState.lastWatcherRunAt) run.now decision
  notified : Notified ownerChatId w run decision.action sent notices
  recorded : nextWatchdog decision sent = w.watchdog.getD ⟨none⟩ ∧ w' = w ∨
    nextWatchdog decision sent ≠ w.watchdog.getD ⟨none⟩ ∧
      Recorded w run { w with watchdog := some (nextWatchdog decision sent) }
        decision.action sent w'

theorem runWatcher_unread (ownerChatId : Option String) (w : World ι) {run : MonitorRun ι}
    (hread : run.readOk = false) :
    runWatcher ownerChatId w run = sendUnrecorded ownerChatId w run := by
  rw [runWatcher, hread, if_neg Bool.false_ne_true]

theorem checkWatcher_unread (ownerChatId : Option String) (w : World ι) {run : MonitorRun ι}
    (hread : run.readOk = false) : checkWatcher ownerChatId w run = (w, []) := by
  rw [checkWatcher, hread, if_neg Bool.false_ne_true]

theorem checkWatcher_cases (ownerChatId : Option String) (w : World ι) {run : MonitorRun ι}
    (hread : run.readOk = true) :
    ∃ decision sent, CheckRan ownerChatId w run decision sent (checkWatcher ownerChatId w run).1
      (checkWatcher ownerChatId w run).2 := by
  rw [checkWatcher, if_pos hread]
  dsimp only
  refine ⟨w.watchdogDecision run,
    (notifyDue ownerChatId w run (w.watchdogDecision run).action).1, ?_⟩
  have hstep := evaluateWatchdog_step w.watchdog (w.monitor.map MonitorState.lastWatcherRunAt)
    run.now
  have hnotified := notifyDue_cases ownerChatId w run (w.watchdogDecision run).action
  split_ifs with hsame
  · exact ⟨hstep, hnotified, .inl ⟨hsame, rfl⟩⟩
  · exact ⟨hstep, hnotified, .inr ⟨hsame, record_cases _ _ _ _ _⟩⟩

/-! ### The holds -/

@[simp] theorem monitor_holdAfterUnrecordedSend (action : MonitorAction) :
    (w.holdAfterUnrecordedSend run action).monitor = w.monitor := by
  rw [World.holdAfterUnrecordedSend]
  split_ifs <;> rfl

@[simp] theorem watchdog_holdAfterUnrecordedSend (action : MonitorAction) :
    (w.holdAfterUnrecordedSend run action).watchdog = w.watchdog := by
  rw [World.holdAfterUnrecordedSend]
  split_ifs <;> rfl

theorem noticeHolds_holdAfterUnrecordedSend (hset : run.holdAnswers.set = true)
    (action : MonitorAction) :
    (w.holdAfterUnrecordedSend run action).noticeHolds =
      Function.update w.noticeHolds (holdOf action) (some ⟨run.now, some action.since⟩) := by
  rw [World.holdAfterUnrecordedSend, if_pos hset]
  rfl

theorem memoryHolds_holdAfterUnrecordedSend (action : MonitorAction) :
    (w.holdAfterUnrecordedSend run action).memoryHolds =
      Function.update w.memoryHolds run.host (Function.update (w.memoryHolds run.host)
        (holdOf action) (some ⟨run.now, some action.since⟩)) := by
  rw [World.holdAfterUnrecordedSend]
  split_ifs <;> rfl

omit [DecidableEq ι] in
/-- The hold is in Redis or in some instance's memory. -/
def World.Holds (w : World ι) (kind : NoticeHoldKind) (hold : NoticeHold) : Prop :=
  w.noticeHolds kind = some hold ∨ ∃ host, w.memoryHolds host kind = some hold

omit [DecidableEq ι] in
theorem holds_of_findHold {host : ι} {kind : NoticeHoldKind} {now : ℤ} {answered : Bool}
    {hold : NoticeHold} (h : w.findHold host kind now answered = some hold) :
    w.Holds kind hold ∧ now < hold.sentAt + stateUnreadableNoticeMs := by
  have hof {o : Option NoticeHold} (ho : o.filter (NoticeHold.live now) = some hold) :
      o = some hold ∧ now < hold.sentAt + stateUnreadableNoticeMs := by
    obtain ⟨ho, hlive⟩ := Option.filter_eq_some_iff.mp ho
    have hlt := of_decide_eq_true hlive
    exact ⟨ho, by omega⟩
  rcases Option.or_eq_some_iff.mp h with h | ⟨-, h⟩
  · exact ⟨.inr ⟨host, (hof h).1⟩, (hof h).2⟩
  · split_ifs at h
    exact ⟨.inl (hof h).1, (hof h).2⟩

omit [DecidableEq ι] in
/-- A message counts as delivered for an hour. -/
theorem Notified.lt_sentAt {action : Option MonitorAction} {sent : Option Sent}
    {notices : List MonitorNotice} (h : Notified ownerChatId w run action sent notices) {s : Sent}
    (hs : sent = some s) : run.now < s.sentAt + stateUnreadableNoticeMs := by
  cases h with
  | idle _ hsent => simp [hsent] at hs
  | muted _ _ _ hsent => simp [hsent] at hs
  | refused _ _ hsent => simp [hsent] at hs
  | held _ found _ hsent =>
    obtain rfl := Option.some.inj (hsent.symm.trans hs)
    exact (holds_of_findHold found).2
  | delivered _ _ hsent =>
    obtain rfl := Option.some.inj (hsent.symm.trans hs)
    have : (0 : ℤ) < stateUnreadableNoticeMs := by decide
    dsimp only
    omega

theorem holds_holdAfterUnrecordedSend {action : MonitorAction} {kind : NoticeHoldKind}
    {hold : NoticeHold} (h : (w.holdAfterUnrecordedSend run action).Holds kind hold) :
    w.Holds kind hold ∨ kind = holdOf action ∧ hold = ⟨run.now, some action.since⟩ := by
  rcases h with h | ⟨host, h⟩
  · cases hset : run.holdAnswers.set with
    | false =>
      rw [World.holdAfterUnrecordedSend, hset] at h
      exact .inl (.inl h)
    | true =>
      rw [noticeHolds_holdAfterUnrecordedSend hset] at h
      rcases eq_or_ne kind (holdOf action) with rfl | hne
      · rw [Function.update_self] at h
        exact .inr ⟨rfl, (Option.some.inj h).symm⟩
      · rw [Function.update_of_ne hne] at h
        exact .inl (.inl h)
  · rw [memoryHolds_holdAfterUnrecordedSend] at h
    rcases eq_or_ne host run.host with rfl | hhost
    · rw [Function.update_self] at h
      rcases eq_or_ne kind (holdOf action) with rfl | hne
      · rw [Function.update_self] at h
        exact .inr ⟨rfl, (Option.some.inj h).symm⟩
      · rw [Function.update_of_ne hne] at h
        exact .inl (.inr ⟨_, h⟩)
    · rw [Function.update_of_ne hhost] at h
      exact .inl (.inr ⟨host, h⟩)

omit [DecidableEq ι] in
/-- Nothing happened to the holds of a kind. -/
def World.SameHolds (w w' : World ι) (kind : NoticeHoldKind) : Prop :=
  w'.noticeHolds kind = w.noticeHolds kind ∧
    ∀ host, w'.memoryHolds host kind = w.memoryHolds host kind

omit [DecidableEq ι] in
theorem World.SameHolds.holds {w' : World ι} {kind : NoticeHoldKind} {hold : NoticeHold}
    (h : w.SameHolds w' kind) (hhold : w'.Holds kind hold) : w.Holds kind hold := by
  rcases hhold with hhold | ⟨host, hhold⟩
  · exact .inl (h.1 ▸ hhold)
  · exact .inr ⟨host, h.2 host ▸ hhold⟩

theorem sameHolds_holdAfterUnrecordedSend {action : MonitorAction} {kind : NoticeHoldKind}
    (hne : kind ≠ holdOf action) : w.SameHolds (w.holdAfterUnrecordedSend run action) kind := by
  constructor
  · rw [World.holdAfterUnrecordedSend]
    split_ifs
    · exact Function.update_of_ne hne _ _
    · rfl
  · intro host
    rw [memoryHolds_holdAfterUnrecordedSend]
    rcases eq_or_ne host run.host with rfl | hhost
    · rw [Function.update_self, Function.update_of_ne hne]
    · rw [Function.update_of_ne hhost]

theorem sameHolds_setMemoryHold {host : ι} {kind kind' : NoticeHoldKind} {hold : NoticeHold}
    (hne : kind ≠ kind') : w.SameHolds (w.setMemoryHold host kind' hold) kind := by
  refine ⟨rfl, fun host' => ?_⟩
  change Function.update w.memoryHolds host _ host' kind = _
  rcases eq_or_ne host' host with rfl | hhost
  · rw [Function.update_self, Function.update_of_ne hne]
  · rw [Function.update_of_ne hhost]

/-- **What sending the "can't read state" notice can do**: nothing, if a hold is in the way;
or take the hold, which a send that fails gives back. -/
inductive Unreadable (w : World ι) (run : MonitorRun ι) : World ι → List MonitorNotice → Prop
  | silent : Unreadable w run w []
  | delivered (hold : Option NoticeHold)
      (claimed : run.holdAnswers.claim = true →
        w.getNoticeHold .stateUnreadable run.now = none ∧ hold = some ⟨run.now, none⟩) :
      Unreadable w run
        (World.setMemoryHold
          { w with noticeHolds := Function.update w.noticeHolds .stateUnreadable hold }
          run.host .stateUnreadable ⟨run.now, none⟩)
        [⟨.stateUnreadable, run.now, true⟩]
  | refused (hold : Option NoticeHold) {notices : List MonitorNotice}
      (claimed : run.holdAnswers.claim = true →
        w.getNoticeHold .stateUnreadable run.now = none)
      (undelivered : ∀ n ∈ notices, n = ⟨.stateUnreadable, run.now, false⟩) :
      Unreadable w run
        { w with noticeHolds := Function.update w.noticeHolds .stateUnreadable hold } notices

omit [DecidableEq ι] in
theorem send_cases (ownerChatId : Option String) (message : OwnerMessage) (run : MonitorRun ι) :
    send ownerChatId message run = (true, [⟨message, run.now, true⟩]) ∨
      ∃ notices, send ownerChatId message run = (false, notices) ∧
        ∀ n ∈ notices, n = ⟨message, run.now, false⟩ := by
  unfold send
  cases ownerChatId with
  | none => exact .inr ⟨[], rfl, by simp⟩
  | some chat =>
    cases run.delivered with
    | true => exact .inl rfl
    | false => exact .inr ⟨_, rfl, by simp⟩

theorem sendUnrecorded_cases (ownerChatId : Option String) (w : World ι) (run : MonitorRun ι) :
    Unreadable w run (sendUnrecorded ownerChatId w run).1 (sendUnrecorded ownerChatId w run).2 := by
  have hkept : w =
      { w with
        noticeHolds :=
          Function.update w.noticeHolds .stateUnreadable (w.noticeHolds .stateUnreadable) } := by
    rw [Function.update_eq_self]
  unfold sendUnrecorded
  by_cases hheld : (w.memoryHold run.host .stateUnreadable run.now).isSome
  · rw [if_pos hheld]
    exact .silent
  · rw [if_neg hheld]
    cases hclaim : run.holdAnswers.claim with
    | false =>
      have hfree : run.holdAnswers.claim = true →
          w.getNoticeHold .stateUnreadable run.now = none := by simp [hclaim]
      rcases send_cases ownerChatId .stateUnreadable run with hsend | ⟨notices, hsend, hundelivered⟩
      · rw [hsend]
        have hstep := @Unreadable.delivered ι _ w run (w.noticeHolds .stateUnreadable)
          (by simp [hclaim])
        rwa [← hkept] at hstep
      · rw [hsend]
        have hstep := Unreadable.refused (w.noticeHolds .stateUnreadable) hfree hundelivered
        rwa [← hkept] at hstep
    | true =>
      cases hfree : w.getNoticeHold .stateUnreadable run.now with
      | some hold => exact .silent
      | none =>
        rcases send_cases ownerChatId .stateUnreadable run with
          hsend | ⟨notices, hsend, hundelivered⟩
        · rw [hsend]
          exact .delivered _ fun _ => ⟨hfree, rfl⟩
        · rw [hsend]
          -- The claim is given back, if Redis takes that.
          cases hrelease : run.holdAnswers.release with
          | true =>
            have hstep := Unreadable.refused none (fun _ => hfree) hundelivered
            have hgiven : Function.update
                (Function.update w.noticeHolds .stateUnreadable (some ⟨run.now, none⟩))
                .stateUnreadable none = Function.update w.noticeHolds .stateUnreadable none :=
              Function.update_idem _ _ _
            rw [← hgiven] at hstep
            exact hstep
          | false => exact .refused _ (fun _ => hfree) hundelivered

theorem Unreadable.message {w w' : World ι} {notices : List MonitorNotice}
    (h : Unreadable w run w' notices) {n : MonitorNotice} (hn : n ∈ notices) :
    n.message = .stateUnreadable := by
  cases h with
  | silent => cases hn
  | delivered => rw [List.mem_singleton.mp hn]
  | refused _ _ undelivered => rw [undelivered n hn]

theorem Unreadable.mem {w w' : World ι} {notices : List MonitorNotice}
    (h : Unreadable w run w' notices) {n : MonitorNotice} (hn : n ∈ notices)
    (hclaim : run.holdAnswers.claim = true) :
    n.message = .stateUnreadable ∧ n.sentAt = run.now ∧
      w.getNoticeHold .stateUnreadable run.now = none ∧
      (n.delivered = true → w'.noticeHolds .stateUnreadable = some ⟨run.now, none⟩) := by
  cases h with
  | silent => cases hn
  | delivered hold claimed =>
    obtain rfl := List.mem_singleton.mp hn
    obtain ⟨hfree, rfl⟩ := claimed hclaim
    refine ⟨rfl, rfl, hfree, fun _ => ?_⟩
    simp [World.setMemoryHold]
  | refused hold claimed undelivered =>
    obtain rfl := undelivered n hn
    exact ⟨rfl, rfl, claimed hclaim, fun hdelivered => by cases hdelivered⟩

/-- Sending the "can't read state" notice leaves everything else alone. -/
theorem Unreadable.frame {w w' : World ι} {notices : List MonitorNotice}
    (h : Unreadable w run w' notices) :
    w'.monitor = w.monitor ∧ w'.watchdog = w.watchdog ∧
      ∀ kind, kind ≠ .stateUnreadable → w.SameHolds w' kind := by
  cases h with
  | silent => exact ⟨rfl, rfl, fun kind hne => ⟨rfl, fun _ => rfl⟩⟩
  | delivered hold =>
    refine ⟨rfl, rfl, fun kind hne => ⟨Function.update_of_ne hne _ _, ?_⟩⟩
    exact (sameHolds_setMemoryHold hne).2
  | refused =>
    exact ⟨rfl, rfl, fun kind hne => ⟨Function.update_of_ne hne _ _, fun _ => rfl⟩⟩

/-- A look at the watcher leaves the watcher's part of the world alone. -/
theorem checkWatcher_frame (ownerChatId : Option String) (w : World ι) (run : MonitorRun ι) :
    (checkWatcher ownerChatId w run).1.monitor = w.monitor ∧
      ∀ kind, kind ≠ .watcherDown → kind ≠ .watcherRecovered →
        w.SameHolds (checkWatcher ownerChatId w run).1 kind := by
  have hrefl (kind : NoticeHoldKind) : w.SameHolds w kind := ⟨rfl, fun _ => rfl⟩
  cases hread : run.readOk with
  | false =>
    rw [checkWatcher_unread ownerChatId w hread]
    exact ⟨rfl, fun kind _ _ => hrefl kind⟩
  | true =>
    obtain ⟨decision, sent, hstep, -, ⟨-, hsame⟩ | ⟨-, hrecorded⟩⟩ :=
      checkWatcher_cases ownerChatId w hread
    · rw [hsame]
      exact ⟨rfl, fun kind _ _ => hrefl kind⟩
    · rcases hrecorded with ⟨-, h⟩ | ⟨-, -, h⟩ | @⟨a, -, -, due, -, h⟩
      · rw [h]
        exact ⟨rfl, fun kind _ _ => ⟨rfl, fun _ => rfl⟩⟩
      · rw [h]
        exact ⟨rfl, fun kind _ _ => hrefl kind⟩
      · rw [h]
        refine ⟨monitor_holdAfterUnrecordedSend a, fun kind hdown hrecovered => ?_⟩
        refine sameHolds_holdAfterUnrecordedSend ?_
        rcases hstep.kind_action due with hkind | hkind
        · rwa [holdOf, hkind]
        · rwa [holdOf, hkind]

/-- A look at the watcher sends messages of its own kinds. -/
theorem topic_checkWatcher {n : MonitorNotice} (hn : n ∈ (checkWatcher ownerChatId w run).2) :
    n.message.topic.1 = .watcherDown ∨ n.message.topic.1 = .watcherRecovered := by
  cases hread : run.readOk with
  | false =>
    rw [checkWatcher_unread ownerChatId w hread] at hn
    cases hn
  | true =>
    obtain ⟨decision, sent, hran⟩ := checkWatcher_cases ownerChatId w hread
    obtain ⟨a, due, hmessage, -⟩ := hran.notified.mem hn
    rw [hmessage]
    change holdOf a = _ ∨ holdOf a = _
    rcases hran.step.kind_action due with hkind | hkind
    · exact .inl (by rw [holdOf, hkind])
    · exact .inr (by rw [holdOf, hkind])

/-- A watcher run leaves the check's part of the world alone. -/
theorem runWatcher_frame (ownerChatId : Option String) (w : World ι) (run : MonitorRun ι) :
    (runWatcher ownerChatId w run).1.watchdog = w.watchdog ∧
      ∀ kind ∈ [NoticeHoldKind.watcherDown, .watcherRecovered],
        w.SameHolds (runWatcher ownerChatId w run).1 kind := by
  cases hread : run.readOk with
  | false =>
    have hframe := (sendUnrecorded_cases ownerChatId w run).frame
    rw [runWatcher_unread ownerChatId w hread]
    refine ⟨hframe.2.1, fun kind hkind => hframe.2.2 kind ?_⟩
    rintro rfl
    simp at hkind
  | true =>
    obtain ⟨decision, sent, hran⟩ := runWatcher_cases ownerChatId w hread
    rcases hran.recorded with ⟨-, h⟩ | ⟨-, -, h⟩ | @⟨a, -, -, due, -, h⟩
    · rw [h]
      exact ⟨rfl, fun kind _ => ⟨rfl, fun _ => rfl⟩⟩
    · rw [h]
      exact ⟨rfl, fun kind _ => ⟨rfl, fun _ => rfl⟩⟩
    · rw [h]
      refine ⟨watchdog_holdAfterUnrecordedSend a, fun kind hkind => ?_⟩
      refine sameHolds_holdAfterUnrecordedSend ?_
      rintro rfl
      rcases hran.step.kind_action due with hof | hof | hof
      · simp [holdOf, hof] at hkind
      · simp [holdOf, hof] at hkind
      · simp [holdOf, hof] at hkind

/-- A watcher run says nothing about the watcher. -/
theorem kind_of_mem_runWatcher {n : MonitorNotice}
    (hn : n ∈ (runWatcher ownerChatId w run).2) {kind : MonitorActionKind} {S : ℤ}
    (hsaid : n.Says kind S) : kind = .down ∨ kind = .reminder ∨ kind = .recovered := by
  obtain ⟨a, hmessage, rfl, -⟩ := hsaid.exists_about
  cases hread : run.readOk with
  | false =>
    rw [runWatcher_unread ownerChatId w hread] at hn
    cases hmessage.symm.trans ((sendUnrecorded_cases ownerChatId w run).message hn)
  | true =>
    obtain ⟨decision, sent, hran⟩ := runWatcher_cases ownerChatId w hread
    obtain ⟨b, due, hmessage', -⟩ := hran.notified.mem hn
    obtain rfl := OwnerMessage.about.inj (hmessage.symm.trans hmessage')
    exact hran.step.kind_action due

/-- A look at the watcher is about nothing else. -/
theorem kind_of_mem_checkWatcher {n : MonitorNotice}
    (hn : n ∈ (checkWatcher ownerChatId w run).2) {kind : MonitorActionKind} {S : ℤ}
    (hsaid : n.Says kind S) : kind = .watcherDown ∨ kind = .watcherRecovered := by
  obtain ⟨a, hmessage, rfl, -⟩ := hsaid.exists_about
  have htopic := topic_checkWatcher hn
  rw [hmessage] at htopic
  change holdOf a = _ ∨ holdOf a = _ at htopic
  rw [holdOf] at htopic
  cases hkind : a.kind <;> simp [hkind] at htopic ⊢

/-! ### What a run finds -/

omit [DecidableEq ι] in
/-- **The instance remembers no other message than Redis holds**: its memory is asked first,
and a hold there that is not the latest one hides the one in Redis. -/
def MemoryAgrees (kinds : List NoticeHoldKind) (w : World ι) (run : MonitorRun ι) : Prop :=
  ∀ kind ∈ kinds, ∀ hold ∈ w.memoryHold run.host kind run.now,
    w.getNoticeHold kind run.now = some hold

instance (kinds : List NoticeHoldKind) (w : World ι) (run : MonitorRun ι) :
    Decidable (MemoryAgrees kinds w run) :=
  inferInstanceAs (Decidable (∀ kind ∈ kinds, ∀ hold ∈ _, _ = some hold))

omit [DecidableEq ι] in
theorem MemoryAgrees.findHold_eq {kinds : List NoticeHoldKind} (h : MemoryAgrees kinds w run)
    {kind : NoticeHoldKind} (hkind : kind ∈ kinds) :
    w.findHold run.host kind run.now true = w.getNoticeHold kind run.now := by
  rw [World.findHold, if_pos rfl]
  cases hmemory : w.memoryHold run.host kind run.now with
  | none => rfl
  | some hold => exact (h kind hkind hold hmemory).symm

omit [DecidableEq ι] in
/-- **A message is not repeated while it is held.** -/
theorem MemoryAgrees.not_repeated {kinds : List NoticeHoldKind} (h : MemoryAgrees kinds w run)
    (hanswered : run.holdAnswers = {}) {action : Option MonitorAction} {sent : Option Sent}
    {notices : List MonitorNotice} (hnotified : Notified ownerChatId w run action sent notices)
    {kind : NoticeHoldKind} (hkind : kind ∈ kinds) {hold : NoticeHold}
    (hget : w.getNoticeHold kind run.now = some hold) {a : MonitorAction} (due : action = some a)
    (hof : holdOf a = kind) (about : hold.since = some a.since) :
    sent = some ⟨hold.sentAt, true⟩ ∧ notices = [] := by
  refine hnotified.sent_of_found due ?_ about
  rw [hof, hanswered, h.findHold_eq hkind]
  exact hget

omit [DecidableEq ι] in
/-- Redis holds a message about the outage, sent no earlier than `t`. -/
def World.HoldsAbout (kind : NoticeHoldKind) (S t : ℤ) (w : World ι) : Prop :=
  ∃ hold, w.noticeHolds kind = some hold ∧ hold.since = some S ∧ t ≤ hold.sentAt

section HoldsAbout

variable {kind : NoticeHoldKind} {S t : ℤ}

omit [DecidableEq ι] in
theorem World.HoldsAbout.live {now : ℤ} (h : w.HoldsAbout kind S t)
    (hlive : now < t + stateUnreadableNoticeMs) :
    ∃ hold, w.getNoticeHold kind now = some hold ∧ hold.since = some S ∧ t ≤ hold.sentAt := by
  obtain ⟨hold, hhold, hsince, hle⟩ := h
  refine ⟨hold, Option.filter_eq_some_iff.mpr ⟨hhold, decide_eq_true ?_⟩, hsince, hle⟩
  omega

/-- The hold of a message of another kind stays. -/
theorem World.HoldsAbout.other {a : MonitorAction} (h : w.HoldsAbout kind S t)
    (hne : kind ≠ holdOf a) : (w.holdAfterUnrecordedSend run a).HoldsAbout kind S t := by
  obtain ⟨hold, hhold, hrest⟩ := h
  exact ⟨hold, (sameHolds_holdAfterUnrecordedSend hne).1.trans hhold, hrest⟩

/-- The hold of a message that was sent just now. -/
theorem holdsAbout_holdAfterUnrecordedSend (w : World ι) (hanswered : run.holdAnswers = {})
    (ht : t ≤ run.now) (a : MonitorAction) :
    (w.holdAfterUnrecordedSend run a).HoldsAbout (holdOf a) a.since t := by
  have hset : run.holdAnswers.set = true := by rw [hanswered]
  refine ⟨⟨run.now, some a.since⟩, ?_, rfl, ht⟩
  rw [noticeHolds_holdAfterUnrecordedSend hset, Function.update_self]

end HoldsAbout

end Cases

end Monitor

end CryptoZaloBot
