import CryptoZaloBot.Monitor.Runs

/-!
# Silences

What the service knows of an outage, whichever of its runs could read or save the state:
the outages that are stored, and those that only a hold remembers, started no earlier than
the watcher and lasted at least the threshold
(`CryptoZaloBot.Monitor.Anchored`, kept by every run:
`CryptoZaloBot.Monitor.keeps_anchored`). Measured again, such a silence is no shorter, so
that no run takes the outage for a short one and forgets it
(`CryptoZaloBot.Monitor.World.Silent.lasting`).
-/

namespace CryptoZaloBot

namespace Monitor

variable {ι : Type} {w : World ι} {run : MonitorRun ι} {clock : ℤ}

/-! ### Silences -/

/-- A silence the watcher can have noticed: it started no earlier than the watcher, and
lasted the threshold. -/
def World.Silent (w : World ι) (S clock : ℤ) : Prop :=
  (∃ m ∈ w.monitor, m.watcherStartedAt ≤ S) ∧ S + outageThresholdMs ≤ clock

theorem World.Silent.startedAt_le {S : ℤ} (h : w.Silent S clock) (now : ℤ) :
    startedAt w.monitor now ≤ S := by
  obtain ⟨⟨m, hm, hle⟩, -⟩ := h
  rw [startedAt, Option.mem_def.mp hm]
  exact hle

/-- **A silence that lasts has lasted**: measured again, it is no shorter. -/
theorem World.Silent.lasting {S now : ℤ} {recentRuns : List LoggedRun} (h : w.Silent S clock)
    (hle : clock ≤ now) (hlasting : ∀ l ∈ heardAt w.monitor recentRuns, l ≤ S) :
    silentSince w.monitor recentRuns now + outageThresholdMs ≤ now := by
  have hsince : silentSince w.monitor recentRuns now ≤ S :=
    silentSince_le (h.startedAt_le now) hlasting
  have := h.2
  omega

/-- The watcher's start does not move. -/
theorem World.Silent.next {w' : World ι} {S now : ℤ} (h : w.Silent S clock) (hle : clock ≤ now)
    (hmonitor : w'.monitor = w.monitor ∨
      ∃ m ∈ w'.monitor, m.watcherStartedAt = startedAt w.monitor now) : w'.Silent S now := by
  refine ⟨?_, h.2.trans hle⟩
  rcases hmonitor with hsame | ⟨m, hm, hstart⟩
  · exact hsame ▸ h.1
  · exact ⟨m, hm, hstart.trans_le (h.startedAt_le now)⟩

/-- **Every outage that is stored or held is a silence.** -/
structure Anchored (w : World ι) (clock : ℤ) : Prop where
  stored : ∀ m ∈ w.monitor, ∀ o ∈ m.outage, w.Silent o.since clock
  held : ∀ hold, w.Holds .outage hold → ∃ S, hold.since = some S ∧ w.Silent S clock

theorem anchored_newWorld (runs : List LoggedRun) (clock : ℤ) :
    Anchored (newWorld ι runs) clock where
  stored m hm := by simp [newWorld] at hm
  held hold h := by simp [newWorld, World.Holds] at h

section Anchored

variable {decision : MonitorDecision MonitorState}

theorem Anchored.loaded (h : Anchored w clock) {o : OutageState}
    (ho : o ∈ (w.loadedState run).bind MonitorState.outage) : w.Silent o.since clock := by
  have hcases := loadedState_cases w run
  generalize w.loadedState run = state at ho hcases
  cases hcases with
  | stored =>
    obtain ⟨m, hm, hout⟩ := Option.bind_eq_some_iff.mp ho
    exact h.stored m hm o hout
  | restored stored untold stale found =>
    obtain ⟨S, hS, hsilent⟩ := h.held _ (holds_of_findHold found).1
    obtain rfl := Option.some.inj hS
    obtain rfl := Option.some.inj ho
    exact hsilent

/-- A silence that is new to the watcher. -/
theorem silent_new {S : ℤ} (hsince : S = silentSince w.monitor w.recentRuns run.now)
    (hlong : S + outageThresholdMs ≤ run.now) : w.Silent S run.now := by
  refine ⟨?_, hlong⟩
  have hstart := @startedAt_le_silentSince w.monitor w.recentRuns run.now
  rw [← hsince, startedAt] at hstart
  cases hm : w.monitor with
  | none =>
    rw [hm] at hstart
    have : (0 : ℤ) < outageThresholdMs := by decide
    simp at hstart
    omega
  | some m =>
    rw [hm] at hstart
    exact ⟨m, rfl, hstart⟩

theorem Anchored.action (h : Anchored w clock) (hle : clock ≤ run.now)
    (hstep : MonitorStep (w.loadedState run) w.recentRuns run.now decision) {a : MonitorAction}
    (ha : decision.action = some a) : w.Silent a.since run.now := by
  rcases hstep.since_action ha with ⟨o, ho, hsince⟩ | ⟨-, hsince, hlong⟩
  · exact hsince ▸ (h.loaded ho).next hle (.inl rfl)
  · rw [(loadedState_cases w run).silentSince_eq] at hsince
    exact silent_new hsince hlong

theorem Anchored.after (h : Anchored w clock) (hle : clock ≤ run.now)
    (hstep : MonitorStep (w.loadedState run) w.recentRuns run.now decision) {sent : Bool}
    {o : OutageState} (ho : (decision.after sent).outage = some o) : w.Silent o.since run.now := by
  rcases hstep.since_after ho with ⟨o', ho', hsince⟩ | ⟨-, hsince, hlong⟩
  · exact hsince ▸ (h.loaded ho').next hle (.inl rfl)
  · rw [(loadedState_cases w run).silentSince_eq] at hsince
    exact silent_new hsince hlong

end Anchored

theorem Anchored.frame {w' : World ι} {now : ℤ} (h : Anchored w clock) (hle : clock ≤ now)
    (hmonitor : w'.monitor = w.monitor) (hholds : w.SameHolds w' .outage) : Anchored w' now where
  stored m hm o ho := (h.stored m (hmonitor ▸ hm) o ho).next hle (.inl hmonitor)
  held hold hhold := by
    obtain ⟨S, hS, hsilent⟩ := h.held hold (hholds.holds hhold)
    exact ⟨S, hS, hsilent.next hle (.inl hmonitor)⟩

section Keeps

variable [DecidableEq ι] {ownerChatId : Option String}

/-- A watcher run keeps it. -/
theorem Anchored.runWatcher (h : Anchored w clock) (hle : clock ≤ run.now) :
    Anchored (runWatcher ownerChatId w run).1 run.now := by
  cases hread : run.readOk with
  | false =>
    have hframe := (sendUnrecorded_cases ownerChatId w run).frame
    rw [runWatcher_unread ownerChatId w hread]
    exact h.frame hle hframe.1 (hframe.2.2 .outage (by decide))
  | true =>
    obtain ⟨decision, sent, hstep, -, hrecorded⟩ := runWatcher_cases ownerChatId w hread
    generalize (Monitor.runWatcher ownerChatId w run).1 = w' at hrecorded
    rcases hrecorded with ⟨-, rfl⟩ | ⟨-, -, rfl⟩ | @⟨a, -, -, due, -, rfl⟩
    · have hnext {S : ℤ} (hS : w.Silent S run.now) : World.Silent
          { w with monitor := some (nextMonitor ownerChatId decision sent) } S run.now :=
        hS.next le_rfl (.inr ⟨_, rfl, watcherStartedAt_nextMonitor hstep⟩)
      refine ⟨fun m hm o ho => hnext ?_, fun hold hhold => ?_⟩
      · obtain rfl := Option.some.inj hm
        obtain ⟨o', ho', hsince⟩ := exists_since_of_notifiedOutage ho
        exact hsince ▸ h.after hle hstep ho'
      · obtain ⟨S, hS, hsilent⟩ := h.held hold hhold
        exact ⟨S, hS, hnext (hsilent.next hle (.inl rfl))⟩
    · exact h.frame hle rfl ⟨rfl, fun _ => rfl⟩
    · have hmonitor := @monitor_holdAfterUnrecordedSend ι w run _ a
      refine ⟨fun m hm o ho => (h.stored m (hmonitor ▸ hm) o ho).next hle (.inl hmonitor),
        fun hold hhold => ?_⟩
      rcases holds_holdAfterUnrecordedSend hhold with hold' | ⟨-, rfl⟩
      · obtain ⟨S, hS, hsilent⟩ := h.held hold hold'
        exact ⟨S, hS, hsilent.next hle (.inl hmonitor)⟩
      · exact ⟨a.since, rfl, (h.action hle hstep due).next le_rfl (.inl hmonitor)⟩

theorem Anchored.checkWatcher (h : Anchored w clock) (hle : clock ≤ run.now) :
    Anchored (checkWatcher ownerChatId w run).1 run.now := by
  have hframe := checkWatcher_frame ownerChatId w run
  exact h.frame hle hframe.1 (hframe.2 .outage (by decide) (by decide))

theorem keeps_anchored (ownerChatId : Option String) :
    (monitoring ownerChatId).Keeps fun s : Monitoring ι => Anchored s.world s.clock := by
  intro s e hs hleg
  cases e with
  | watcher logged run => exact Anchored.runWatcher ⟨hs.stored, hs.held⟩ hleg
  | check run => exact hs.checkWatcher hleg

end Keeps

/-! ### The outage a watcher run stores -/

/-- **What a watcher run makes of the outage it starts from**, and what it has to say
about it. -/
inductive OutageStep (w : World ι) (run : MonitorRun ι) (action : Option MonitorAction)
    (sent : Option Sent) (before after : Option OutageState) : Prop
  | cleared {S l : ℤ} (start : before = some ⟨S, none⟩)
      (heard : l ∈ heardAt w.monitor w.recentRuns) (ended : S < l) (due : action = none)
      (next : after = none)
  | recovered {S n l : ℤ} {a : MonitorAction} (start : before = some ⟨S, some n⟩)
      (heard : l ∈ heardAt w.monitor w.recentRuns) (ended : S < l) (due : action = some a)
      (kind : a.kind = .recovered) (about : a.since = S)
      (next : after = if sent.isSome then none else some ⟨S, some n⟩)
  | quiet (start : before = none)
      (recent : run.now < silentSince w.monitor w.recentRuns run.now + outageThresholdMs)
      (due : action = none) (next : after = none)
  | down {S : ℤ} {a : MonitorAction}
      (start : before = some ⟨S, none⟩ ∨
        before = none ∧ S = silentSince w.monitor w.recentRuns run.now)
      (lasting : ∀ l ∈ heardAt w.monitor w.recentRuns, l ≤ S) (due : action = some a)
      (kind : a.kind = .down) (about : a.since = S)
      (next : after = some ⟨S, sent.map Sent.sentAt⟩)
  | reminder {S n : ℤ} {a : MonitorAction} (start : before = some ⟨S, some n⟩)
      (lasting : ∀ l ∈ heardAt w.monitor w.recentRuns, l ≤ S)
      (elapsed : n + outageReminderMs ≤ run.now) (due : action = some a)
      (kind : a.kind = .reminder) (about : a.since = S)
      (next : after = some ⟨S, some ((sent.map Sent.sentAt).getD n)⟩)
  | held {S n : ℤ} (start : before = some ⟨S, some n⟩)
      (lasting : ∀ l ∈ heardAt w.monitor w.recentRuns, l ≤ S)
      (notDue : run.now < n + outageReminderMs) (due : action = none)
      (next : after = some ⟨S, some n⟩)

theorem Anchored.outageStep {ownerChatId : Option String}
    {decision : MonitorDecision MonitorState} {sent : Option Sent}
    {notices : List MonitorNotice} (h : Anchored w clock) (hle : clock ≤ run.now)
    (hstep : MonitorStep (w.loadedState run) w.recentRuns run.now decision)
    (hnotified : Notified ownerChatId w run decision.action sent notices) :
    OutageStep w run decision.action sent ((w.loadedState run).bind MonitorState.outage)
      (nextMonitor ownerChatId decision sent).outage := by
  have hloaded := loadedState_cases w run
  have hheard := hloaded.heardAt_eq w.recentRuns
  have hsilence := hloaded.silentSince_eq w.recentRuns run.now
  cases hstep with
  | cleared outage heard after =>
    refine .cleared outage (hheard ▸ heard) after rfl ?_
    rw [hnotified.of_idle.1]
    exact notifiedOutage_unsent none
  | quiet lasting recent =>
    rw [hheard] at lasting
    rw [hsilence] at recent
    cases hout : (w.loadedState run).bind MonitorState.outage with
    | none =>
      refine .quiet rfl recent rfl ?_
      rw [hnotified.of_idle.1]
      exact notifiedOutage_unsent none
    | some o =>
      -- An outage the run starts from has lasted the threshold already.
      have := (h.loaded hout).lasting hle (lasting o hout)
      omega
  | held outage lasting silent notDue =>
    refine .held outage (hheard ▸ lasting) notDue rfl ?_
    rw [hnotified.of_idle.1]
    exact (notifiedOutage_unsent _).trans outage
  | recovered _ outage heard after =>
    refine .recovered outage (hheard ▸ heard) after rfl rfl rfl ?_
    cases sent with
    | none => exact (notifiedOutage_unsent _).trans outage
    | some s => rfl
  | down report current lasting silent about =>
    refine .down (hsilence ▸ current) (hheard ▸ lasting) rfl rfl about ?_
    cases sent with
    | none => rfl
    | some s => rfl
  | reminder report outage lasting silent due about =>
    refine .reminder outage (hheard ▸ lasting) due rfl rfl about ?_
    cases sent with
    | none => exact (notifiedOutage_unsent _).trans outage
    | some s => rfl

section OutageStep

variable {action : Option MonitorAction} {sent : Option Sent} {before after : Option OutageState}
  {S : ℤ}

/-- What a run says is about the outage it starts from, or about a new one. -/
theorem OutageStep.since_action (h : OutageStep w run action sent before after) {a : MonitorAction}
    (ha : action = some a) :
    (∃ o ∈ before, o.since = a.since) ∨
      before = none ∧ a.since = silentSince w.monitor w.recentRuns run.now := by
  cases h with
  | cleared _ _ _ due => simp [ha] at due
  | quiet _ _ due => simp [ha] at due
  | held _ _ _ due => simp [ha] at due
  | recovered start _ _ due _ about =>
    obtain rfl := Option.some.inj (ha.symm.trans due)
    exact .inl ⟨_, start, about.symm⟩
  | reminder start _ _ due _ about =>
    obtain rfl := Option.some.inj (ha.symm.trans due)
    exact .inl ⟨_, start, about.symm⟩
  | down start _ due _ about =>
    obtain rfl := Option.some.inj (ha.symm.trans due)
    rcases start with start | ⟨start, hsince⟩
    · exact .inl ⟨_, start, about.symm⟩
    · exact .inr ⟨start, about.trans hsince⟩

theorem OutageStep.since_eq {x : Option ℤ}
    (h : OutageStep w run action sent (some ⟨S, x⟩) after) {a : MonitorAction}
    (ha : action = some a) : a.since = S := by
  rcases h.since_action ha with ⟨o, ho, hsince⟩ | ⟨hnone, -⟩
  · obtain rfl := Option.some.inj ho
    exact hsince.symm
  · cases hnone

theorem OutageStep.since_eq_silentSince (h : OutageStep w run action sent none after)
    {a : MonitorAction} (ha : action = some a) :
    a.since = silentSince w.monitor w.recentRuns run.now := by
  rcases h.since_action ha with ⟨o, ho, -⟩ | ⟨-, hsince⟩
  · cases ho
  · exact hsince

/-- **A report** is about an outage that lasts, and that was not told within six hours. -/
theorem OutageStep.of_report (h : OutageStep w run action sent before after) {a : MonitorAction}
    (ha : action = some a) (hof : holdOf a = .outage) :
    (∀ l ∈ heardAt w.monitor w.recentRuns, l ≤ a.since) ∧
      (∀ o ∈ before, o.since = a.since ∧
        ∀ n ∈ o.notifiedAt, n + outageReminderMs ≤ run.now) ∧
      ∀ s, sent = some s → after = some ⟨a.since, some s.sentAt⟩ := by
  cases h with
  | cleared _ _ _ due => simp [ha] at due
  | quiet _ _ due => simp [ha] at due
  | held _ _ _ due => simp [ha] at due
  | recovered _ _ _ due kind =>
    obtain rfl := Option.some.inj (ha.symm.trans due)
    simp [holdOf, kind] at hof
  | reminder start lasting elapsed due _ about next =>
    obtain rfl := Option.some.inj (ha.symm.trans due)
    refine ⟨about.symm ▸ lasting, fun o ho => ?_, fun s hs => by rw [next, hs, about]; rfl⟩
    obtain rfl := Option.some.inj (start.symm.trans ho)
    exact ⟨about.symm, by simpa using elapsed⟩
  | down start lasting due _ about next =>
    obtain rfl := Option.some.inj (ha.symm.trans due)
    refine ⟨about.symm ▸ lasting, fun o ho => ?_, fun s hs => by rw [next, hs, about]; rfl⟩
    rcases start with start | ⟨start, -⟩
    · obtain rfl := Option.some.inj (start.symm.trans ho)
      exact ⟨about.symm, by simp⟩
    · cases start.symm.trans ho

/-- **A `recovered`** is about an outage that was told, and has ended. -/
theorem OutageStep.of_recovered (h : OutageStep w run action sent before after)
    {a : MonitorAction} (ha : action = some a) (hof : holdOf a = .recovered) :
    ∃ n, before = some ⟨a.since, some n⟩ ∧
      ∃ l ∈ heardAt w.monitor w.recentRuns, a.since < l ∧ (sent.isSome → after = none) := by
  have hkind := holdOf_eq_recovered hof
  cases h with
  | cleared _ _ _ due => simp [ha] at due
  | quiet _ _ due => simp [ha] at due
  | held _ _ _ due => simp [ha] at due
  | recovered start heard ended due _ about next =>
    obtain rfl := Option.some.inj (ha.symm.trans due)
    rw [about]
    exact ⟨_, start, _, heard, ended, fun hsent => by rw [next, if_pos hsent]⟩
  | reminder _ _ _ due kind =>
    obtain rfl := Option.some.inj (ha.symm.trans due)
    cases hkind.symm.trans kind
  | down _ _ due kind =>
    obtain rfl := Option.some.inj (ha.symm.trans due)
    cases hkind.symm.trans kind

/-- A `down` is about an outage that was not told before. -/
theorem OutageStep.of_down (h : OutageStep w run action sent before after) {a : MonitorAction}
    (ha : action = some a) (hkind : a.kind = .down) : ∀ o ∈ before, o = ⟨a.since, none⟩ := by
  cases h with
  | cleared _ _ _ due => simp [ha] at due
  | quiet _ _ due => simp [ha] at due
  | held _ _ _ due => simp [ha] at due
  | recovered _ _ _ due kind =>
    obtain rfl := Option.some.inj (ha.symm.trans due)
    cases hkind.symm.trans kind
  | reminder _ _ _ due kind =>
    obtain rfl := Option.some.inj (ha.symm.trans due)
    cases hkind.symm.trans kind
  | down start _ due _ about =>
    obtain rfl := Option.some.inj (ha.symm.trans due)
    intro o ho
    rcases start with start | ⟨start, -⟩
    · rw [about]
      exact Option.some.inj (ho.symm.trans start)
    · cases start.symm.trans ho

/-- A healthy run ends a notified outage, which is told. -/
theorem OutageStep.recovered_of_heard {n l : ℤ}
    (h : OutageStep w run action sent (some ⟨S, some n⟩) after)
    (hl : l ∈ heardAt w.monitor w.recentRuns) (hlt : S < l) :
    ∃ a, action = some a ∧ a.kind = .recovered ∧ a.since = S := by
  cases h with
  | cleared start => simp at start
  | quiet start => cases start
  | recovered start _ _ due kind about =>
    obtain ⟨rfl, rfl⟩ := by simpa using start
    exact ⟨_, due, kind, about⟩
  | down start =>
    rcases start with start | ⟨start, -⟩
    · simp at start
    · cases start
  | reminder start lasting =>
    obtain ⟨rfl, rfl⟩ := by simpa using start
    exact absurd (lasting l hl) (not_le.mpr hlt)
  | held start lasting =>
    obtain ⟨rfl, rfl⟩ := by simpa using start
    exact absurd (lasting l hl) (not_le.mpr hlt)

/-- **A run that starts from an outage** sees it end, leaves it as it is, or reports it. -/
theorem OutageStep.of_some {x : Option ℤ} (h : OutageStep w run action sent (some ⟨S, x⟩) after) :
    (∃ l ∈ heardAt w.monitor w.recentRuns, S < l ∧ (after = none ∨ after = some ⟨S, x⟩)) ∨
      (∀ l ∈ heardAt w.monitor w.recentRuns, l ≤ S) ∧
        ((action = none ∧ after = some ⟨S, x⟩ ∧ ∃ n ∈ x, run.now < n + outageReminderMs) ∨
          ∃ a, action = some a ∧ holdOf a = .outage ∧ a.since = S ∧
            after = some ⟨S, (sent.map Sent.sentAt).or x⟩ ∧
            ∀ n ∈ x, n + outageReminderMs ≤ run.now) := by
  cases h with
  | cleared start heard ended _ next =>
    obtain ⟨rfl, rfl⟩ := by simpa using start
    exact .inl ⟨_, heard, ended, .inl next⟩
  | recovered start heard ended _ _ _ next =>
    obtain ⟨rfl, rfl⟩ := by simpa using start
    refine .inl ⟨_, heard, ended, ?_⟩
    split_ifs at next
    · exact .inl next
    · exact .inr next
  | quiet start => cases start
  | down start lasting due kind about next =>
    rcases start with start | ⟨start, -⟩
    · obtain ⟨rfl, rfl⟩ := by simpa using start
      refine .inr ⟨lasting, .inr ⟨_, due, by rw [holdOf, kind], about, ?_, by simp⟩⟩
      rw [next, Option.or_none]
    · cases start
  | reminder start lasting elapsed due kind about next =>
    obtain ⟨rfl, rfl⟩ := by simpa using start
    refine .inr ⟨lasting, .inr ⟨_, due, by rw [holdOf, kind], about, ?_, by simpa using elapsed⟩⟩
    rw [next]
    cases sent <;> rfl
  | held start lasting notDue due next =>
    obtain ⟨rfl, rfl⟩ := by simpa using start
    exact .inr ⟨lasting, .inl ⟨due, next, _, rfl, notDue⟩⟩

/-- **A run that starts from no outage** sees none, or reports one. -/
theorem OutageStep.of_none (h : OutageStep w run action sent none after) :
    (action = none ∧ after = none ∧
        run.now < silentSince w.monitor w.recentRuns run.now + outageThresholdMs) ∨
      ∃ a, action = some a ∧ holdOf a = .outage ∧
        a.since = silentSince w.monitor w.recentRuns run.now ∧
        after = some ⟨a.since, sent.map Sent.sentAt⟩ := by
  cases h with
  | cleared start => cases start
  | recovered start => cases start
  | quiet start recent due next => exact .inl ⟨due, next, recent⟩
  | reminder start => cases start
  | held start => cases start
  | down start lasting due kind about next =>
    rcases start with start | ⟨-, rfl⟩
    · cases start
    · exact .inr ⟨_, due, by rw [holdOf, kind], about, by rw [next, about]⟩

/-- **A run that starts after `S`** – from a later outage, or from none but with a healthy run
since – stays after `S`, and says nothing about it. -/
theorem OutageStep.later (h : OutageStep w run action sent before after)
    (hlater : ∀ o ∈ before, S < o.since)
    (hseen : before = none → ∃ l ∈ heardAt w.monitor w.recentRuns, S < l) :
    (∀ o ∈ after, S < o.since) ∧
      (after = none → ∃ l ∈ heardAt w.monitor w.recentRuns, S < l) ∧
      ∀ a, action = some a → S < a.since := by
  cases h with
  | cleared start heard ended due next =>
    have hS := hlater _ start
    exact ⟨by simp [next], fun _ => ⟨_, heard, hS.trans ended⟩, by simp [due]⟩
  | @recovered S' n l a start heard ended due kind about next =>
    have hS := hlater _ start
    refine ⟨fun o ho => ?_, fun _ => ⟨_, heard, hS.trans ended⟩, fun b hb => ?_⟩
    · rw [next] at ho
      split_ifs at ho
      · cases ho
      · obtain rfl := Option.some.inj ho
        exact hS
    · obtain rfl := Option.some.inj (due.symm.trans hb)
      exact about ▸ hS
  | quiet start recent due next => exact ⟨by simp [next], fun _ => hseen start, by simp [due]⟩
  | @down S' a start lasting due kind about next =>
    have hS : S < S' := by
      -- A new outage starts at the end of the silence before, at a healthy run after `S`.
      rcases start with start | ⟨start, rfl⟩
      · exact hlater _ start
      · obtain ⟨l, hl, hlt⟩ := hseen start
        exact hlt.trans_le (lasting l hl)
    refine ⟨fun o ho => ?_, fun hnone => by simp [next] at hnone, fun b hb => ?_⟩
    · obtain rfl := Option.some.inj (next.symm.trans ho)
      exact hS
    · obtain rfl := Option.some.inj (due.symm.trans hb)
      exact about ▸ hS
  | reminder start lasting elapsed due kind about next =>
    have hS := hlater _ start
    refine ⟨fun o ho => ?_, fun hnone => by simp [next] at hnone, fun b hb => ?_⟩
    · obtain rfl := Option.some.inj (next.symm.trans ho)
      exact hS
    · obtain rfl := Option.some.inj (due.symm.trans hb)
      exact about ▸ hS
  | held start lasting notDue due next =>
    refine ⟨fun o ho => ?_, fun hnone => by simp [next] at hnone, by simp [due]⟩
    obtain rfl := Option.some.inj (next.symm.trans ho)
    exact hlater _ start

end OutageStep

/-! ### Runs that find what Redis holds -/

/-- A watcher run that reads its state and finds the holds that Redis has, with what is known
of the world before it. -/
structure AgreedRun (w : World ι) (clock : ℤ) (run : MonitorRun ι) : Prop where
  anchored : Anchored w clock
  le : clock ≤ run.now
  answered : run.holdAnswers = {}
  read : run.readOk = true
  agrees : MemoryAgrees [.outage, .recovered] w run

namespace AgreedRun

variable {decision : MonitorDecision MonitorState} {sent : Option Sent}
  {ownerChatId : Option String}

/-- **The outage a run starts from** is the stored one, or the one Redis holds a message
about. -/
theorem loaded_cases (h : AgreedRun w clock run) :
    (w.loadedState run).bind MonitorState.outage = w.monitor.bind MonitorState.outage ∨
      ∃ m S t, w.monitor = some m ∧ (∀ o ∈ m.outage, o = ⟨S, none⟩) ∧
        (∀ l ∈ m.lastHealthyAt, l ≤ S) ∧
        (w.loadedState run).bind MonitorState.outage = some ⟨S, some t⟩ ∧
        w.getNoticeHold .outage run.now = some ⟨t, some S⟩ := by
  have hcases := loadedState_cases w run
  generalize w.loadedState run = state at hcases
  cases hcases with
  | stored => exact .inl rfl
  | restored stored untold stale found lasting =>
    rw [h.answered, h.agrees.findHold_eq (by decide)] at found
    exact .inr ⟨_, _, _, stored, untold, lasting, rfl, found⟩

theorem outageStep [DecidableEq ι] {w' : World ι} {notices : List MonitorNotice}
    (h : AgreedRun w clock run) (hran : WatcherRan ownerChatId w run decision sent w' notices) :
    OutageStep w run decision.action sent ((w.loadedState run).bind MonitorState.outage)
      (nextMonitor ownerChatId decision sent).outage :=
  h.anchored.outageStep h.le hran.step hran.notified

theorem not_repeated [DecidableEq ι] {w' : World ι} {notices : List MonitorNotice}
    {kind : NoticeHoldKind} {hold : NoticeHold} {S : ℤ} (h : AgreedRun w clock run)
    (hran : WatcherRan ownerChatId w run decision sent w' notices)
    (hget : w.getNoticeHold kind run.now = some hold) (hsince : hold.since = some S)
    (hkind : kind ∈ [NoticeHoldKind.outage, .recovered]) {a : MonitorAction}
    (due : decision.action = some a) (hof : holdOf a = kind) (about : a.since = S) :
    sent = some ⟨hold.sentAt, true⟩ ∧ notices = [] :=
  h.agrees.not_repeated h.answered hran.notified hkind hget due hof (about ▸ hsince)

end AgreedRun

end Monitor

end CryptoZaloBot
