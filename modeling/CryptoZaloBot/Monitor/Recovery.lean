import CryptoZaloBot.Monitor.Silences

/-!
# Recoveries

An owner who was told of an outage hears of its end, and nobody else does.

Whatever fails, what the service remembers of an outage being told goes back to a `down`
that arrived, and every hold of a `recovered` to a `recovered` that arrived
(`CryptoZaloBot.Monitor.Told`, `CryptoZaloBot.Monitor.told_outputs`).

With a single watcher instance, an outage the owner was told of is never forgotten before a
healthy run is seen: it is stored, or the hold of its message is put back by the very next
run, as the state that could not be saved is stale by then
(`CryptoZaloBot.Monitor.Outstanding`). So the first run that sees a healthy run has a
`recovered` to send; only the hold of an earlier one about the same outage can be in its way
(`CryptoZaloBot.Monitor.recoveries`).
-/

namespace CryptoZaloBot

namespace Monitor

open PriceAlerts (minutes)

variable {ι : Type} {w : World ι} {run : MonitorRun ι} {clock S t : ℤ}
  {decision : MonitorDecision MonitorState} {sent : Option Sent} {ownerChatId : Option String}
  {history notices : List MonitorNotice}

/-! ### What the owner was told -/

/-- **What is remembered was told**: an outage stored as notified or held as reported goes back
to a `down`, and the hold of a `recovered` to that message. -/
structure Told (w : World ι) (history : List MonitorNotice) : Prop where
  recorded : ∀ m ∈ w.monitor, ∀ o ∈ m.outage, o.notifiedAt.isSome → Arrived .down o.since history
  reported : ∀ hold, w.Holds .outage hold → ∃ S, hold.since = some S ∧ Arrived .down S history
  recovered : ∀ hold, w.Holds .recovered hold → ∃ S, hold.since = some S ∧
    ∃ n ∈ history, n.delivered = true ∧ n.Says .recovered S ∧ n.sentAt = hold.sentAt

theorem told_newWorld (runs : List LoggedRun) : Told (newWorld ι runs) [] where
  recorded m hm := by simp [newWorld] at hm
  reported hold h := by simp [newWorld, World.Holds] at h
  recovered hold h := by simp [newWorld, World.Holds] at h

namespace Told

/-- An outage a run starts from as notified was told. -/
theorem loaded (h : Told w history) {o : OutageState}
    (ho : (w.loadedState run).bind MonitorState.outage = some o) (hn : o.notifiedAt.isSome) :
    Arrived .down o.since history := by
  have hcases := loadedState_cases w run
  generalize w.loadedState run = state at ho hcases
  cases hcases with
  | stored =>
    obtain ⟨m, hm, hout⟩ := Option.bind_eq_some_iff.mp ho
    exact h.recorded m hm o hout hn
  | restored stored untold stale found =>
    obtain ⟨S, hS, harrived⟩ := h.reported _ (holds_of_findHold found).1
    obtain rfl := Option.some.inj hS
    obtain rfl := Option.some.inj ho
    exact harrived

variable {action : Option MonitorAction} {before after : Option OutageState}

/-- A report that counts as delivered is about an outage that was told. -/
theorem of_report (h : Told w history)
    (hstep : OutageStep w run action sent ((w.loadedState run).bind MonitorState.outage) after)
    (hnotified : Notified ownerChatId w run action sent notices) {a : MonitorAction}
    (due : action = some a) (hof : holdOf a = .outage) (hsent : sent.isSome) :
    Arrived .down a.since (history ++ notices) := by
  cases hstep with
  | cleared _ _ _ due' => simp [due] at due'
  | quiet _ _ due' => simp [due] at due'
  | held _ _ _ due' => simp [due] at due'
  | recovered _ _ _ due' kind =>
    obtain rfl := Option.some.inj (due.symm.trans due')
    simp [holdOf, kind] at hof
  | reminder start _ _ due' _ about =>
    obtain rfl := Option.some.inj (due.symm.trans due')
    exact about ▸ (h.loaded start rfl).append notices
  | down _ _ due' kind =>
    obtain rfl := Option.some.inj (due.symm.trans due')
    cases hnotified with
    | idle due' => simp [due] at due'
    | muted _ _ _ hsent' => simp [hsent'] at hsent
    | refused _ _ hsent' => simp [hsent'] at hsent
    -- A message that is held counts as delivered, and the hold is about one that arrived.
    | held due' found same =>
      obtain rfl := Option.some.inj (due.symm.trans due')
      obtain ⟨S, hS, harrived⟩ := h.reported _ (hof ▸ (holds_of_findHold found).1)
      obtain rfl := Option.some.inj (same.symm.trans hS)
      exact harrived.append notices
    | delivered due' _ _ out =>
      obtain rfl := Option.some.inj (due.symm.trans due')
      rw [out]
      exact ⟨_, List.mem_append_right _ (List.mem_singleton_self _), rfl, _, rfl, kind, rfl⟩

/-- An outage a run stores as notified was told. -/
theorem of_after (h : Told w history)
    (hstep : OutageStep w run action sent ((w.loadedState run).bind MonitorState.outage) after)
    (hnotified : Notified ownerChatId w run action sent notices) {o : OutageState}
    (ho : after = some o) (hn : o.notifiedAt.isSome) :
    Arrived .down o.since (history ++ notices) := by
  cases id hstep with
  | cleared _ _ _ _ next => simp [ho] at next
  | quiet _ _ _ next => simp [ho] at next
  | held start _ _ _ next =>
    obtain rfl := Option.some.inj (ho.symm.trans next)
    exact (h.loaded start rfl).append notices
  | recovered start _ _ _ _ _ next =>
    split_ifs at next
    · cases ho.symm.trans next
    · obtain rfl := Option.some.inj (ho.symm.trans next)
      exact (h.loaded start rfl).append notices
  | reminder start _ _ _ _ _ next =>
    obtain rfl := Option.some.inj (ho.symm.trans next)
    exact (h.loaded start rfl).append notices
  | @down _ a _ _ due kind about next =>
    obtain rfl := Option.some.inj (ho.symm.trans next)
    have hof : holdOf a = .outage := by rw [holdOf, kind]
    exact about ▸ h.of_report hstep hnotified due hof (by simpa using hn)

theorem frame {w' : World ι} (h : Told w history) (hmonitor : w'.monitor = w.monitor)
    (hholds : ∀ kind ∈ [NoticeHoldKind.outage, .recovered], w.SameHolds w' kind)
    (notices : List MonitorNotice) : Told w' (history ++ notices) where
  recorded m hm o ho hn := (h.recorded m (hmonitor ▸ hm) o ho hn).append notices
  reported hold hhold := by
    obtain ⟨S, hS, harrived⟩ := h.reported hold ((hholds .outage (by decide)).holds hhold)
    exact ⟨S, hS, harrived.append notices⟩
  recovered hold hhold := by
    obtain ⟨S, hS, n, hn, hrest⟩ := h.recovered hold ((hholds .recovered (by decide)).holds hhold)
    exact ⟨S, hS, n, List.mem_append_left _ hn, hrest⟩

variable [DecidableEq ι]

/-- **A watcher run remembers what it told.** -/
theorem ran {w' : World ι} (h : Told w history) (hanchored : Anchored w clock)
    (hle : clock ≤ run.now) (hran : WatcherRan ownerChatId w run decision sent w' notices) :
    Told w' (history ++ notices) := by
  have hstep := hanchored.outageStep hle hran.step hran.notified
  have hsame : ∀ kind ∈ [NoticeHoldKind.outage, .recovered], w.SameHolds w kind :=
    fun _ _ => ⟨rfl, fun _ => rfl⟩
  have hkept := h.frame rfl hsame notices
  rcases hran.recorded with ⟨-, rfl⟩ | ⟨-, -, rfl⟩ | @⟨a, sentAt, -, due, hsent, rfl⟩
  · refine ⟨fun m hm o ho hn => ?_, hkept.reported, hkept.recovered⟩
    obtain rfl := Option.some.inj hm
    exact h.of_after hstep hran.notified ho hn
  · exact hkept
  · refine ⟨fun m hm => hkept.recorded m ((monitor_holdAfterUnrecordedSend a).symm.trans hm),
      fun hold hhold => ?_, fun hold hhold => ?_⟩
    · rcases holds_holdAfterUnrecordedSend hhold with hhold | ⟨hof, rfl⟩
      · exact hkept.reported hold hhold
      · exact ⟨_, rfl, h.of_report hstep hran.notified due hof.symm (by rw [hsent]; rfl)⟩
    · rcases holds_holdAfterUnrecordedSend hhold with hhold | ⟨hof, rfl⟩
      · exact hkept.recovered hold hhold
      · refine ⟨_, rfl, ⟨.about a, run.now, true⟩, ?_, rfl, ⟨a, rfl, ?_, rfl⟩, rfl⟩
        · rw [hran.notified.notices_of_sent due hsent]
          exact List.mem_append_right _ (List.mem_singleton_self _)
        · exact holdOf_eq_recovered hof.symm

/-- Every event of the service keeps it. -/
theorem next {s : Monitoring ι} {e : MonitorEvent ι} (h : Told s.world history)
    (hs : Anchored s.world s.clock) (hleg : (monitoring ownerChatId).legal s e) :
    Told ((monitoring ownerChatId).next s e).world
      (history ++ (monitoring ownerChatId).out s e) := by
  cases e with
  | check run =>
    have hframe := checkWatcher_frame ownerChatId s.world run
    refine h.frame hframe.1 (fun kind hkind => hframe.2 kind ?_ ?_) _
    · rintro rfl
      simp at hkind
    · rintro rfl
      simp at hkind
  | watcher logged run =>
    have hlogged : Told (s.world.recordRuns logged) history :=
      ⟨h.recorded, h.reported, h.recovered⟩
    change Told (runWatcher ownerChatId (s.world.recordRuns logged) run).1
      (history ++ (runWatcher ownerChatId (s.world.recordRuns logged) run).2)
    cases hread : run.readOk with
    | true =>
      obtain ⟨decision, sent, hran⟩ :=
        runWatcher_cases ownerChatId (s.world.recordRuns logged) hread
      exact hlogged.ran ⟨hs.stored, hs.held⟩ hleg hran
    | false =>
      have hframe := (sendUnrecorded_cases ownerChatId (s.world.recordRuns logged) run).frame
      rw [runWatcher_unread ownerChatId _ hread]
      refine hlogged.frame hframe.1 (fun kind hkind => hframe.2.2 kind ?_) _
      rintro rfl
      simp at hkind

end Told

section Outputs

variable [DecidableEq ι]

/-- **Whatever is remembered in any run of the service was told in it.** -/
theorem told_outputs (ownerChatId : Option String) (runs : List LoggedRun) (clock : ℤ)
    {es : List (MonitorEvent ι)}
    (hr : (monitoring ownerChatId).Run (newMonitoring ι runs clock) es) :
    Told ((monitoring ownerChatId).final (newMonitoring ι runs clock) es).world
      ((monitoring ownerChatId).outputs (newMonitoring ι runs clock) es) := by
  let J (s : Monitoring ι) (history : List MonitorNotice) : Prop :=
    Anchored s.world s.clock ∧ Told s.world history
  have hJ : ∀ s history e, J s history → (monitoring ownerChatId).legal s e →
      J ((monitoring ownerChatId).next s e) (history ++ (monitoring ownerChatId).out s e) :=
    fun s history e hs hleg => ⟨keeps_anchored ownerChatId s e hs.1 hleg, hs.2.next hs.1 hleg⟩
  have hstart : J (newMonitoring ι runs clock) [] :=
    ⟨anchored_newWorld runs clock, told_newWorld runs⟩
  simpa using (System.Run.history hJ hstart hr).2

/-- **No `recovered` without a `down`.** -/
theorem Told.of_recovered {s : Monitoring ι} {e : MonitorEvent ι} (h : Told s.world history)
    (hs : Anchored s.world s.clock) (hleg : (monitoring ownerChatId).legal s e)
    {n : MonitorNotice} (hn : n ∈ (monitoring ownerChatId).out s e)
    (hsaid : n.Says .recovered S) : Arrived .down S history := by
  cases e with
  | check run =>
    rcases kind_of_mem_checkWatcher hn hsaid with hkind | hkind
    · cases hkind
    · cases hkind
  | watcher logged run =>
    obtain ⟨a, hmessage, hkind, rfl⟩ := hsaid.exists_about
    change n ∈ (runWatcher ownerChatId (s.world.recordRuns logged) run).2 at hn
    cases hread : run.readOk with
    | true =>
      obtain ⟨decision, sent, hran⟩ :=
        runWatcher_cases ownerChatId (s.world.recordRuns logged) hread
      obtain ⟨b, due, hmessage', -⟩ := hran.notified.mem hn
      obtain rfl := OwnerMessage.about.inj (hmessage.symm.trans hmessage')
      have hanchored : Anchored (s.world.recordRuns logged) s.clock := ⟨hs.stored, hs.held⟩
      have hstep := hanchored.outageStep hleg hran.step hran.notified
      obtain ⟨m, hstart, -⟩ := hstep.of_recovered due (by rw [holdOf, hkind])
      have hlogged : Told (s.world.recordRuns logged) history :=
        ⟨h.recorded, h.reported, h.recovered⟩
      exact hlogged.loaded hstart rfl
    | false =>
      rw [runWatcher_unread ownerChatId _ hread] at hn
      cases hmessage.symm.trans ((sendUnrecorded_cases ownerChatId _ run).message hn)

end Outputs

/-! ### An outage that was told is not forgotten -/

/-- **The mark of a delivered `down`**, with the time of the last watcher run: no healthy run
is known, and the outage is stored as notified, or held while the stored state is older than
the last watcher run. -/
inductive Outstanding (S t : ℤ) (w : World ι) (watchedAt : Option ℤ) : Prop
  | told {m : MonitorState} {n : ℤ} (stored : w.monitor = some m)
      (outage : m.outage = some ⟨S, some n⟩) (lasting : ∀ l ∈ m.lastHealthyAt, l ≤ S)
  | held {m : MonitorState} {u : ℤ} (stored : w.monitor = some m)
      (untold : ∀ o ∈ m.outage, o = ⟨S, none⟩) (lasting : ∀ l ∈ m.lastHealthyAt, l ≤ S)
      (hold : w.HoldsAbout .outage S t) (watched : u ∈ watchedAt)
      (stale : m.lastWatcherRunAt + minutes 4 ≤ u)

theorem Outstanding.frame {w' : World ι} {watchedAt : Option ℤ} (h : Outstanding S t w watchedAt)
    (hmonitor : w'.monitor = w.monitor) (hholds : w'.noticeHolds .outage = w.noticeHolds .outage) :
    Outstanding S t w' watchedAt := by
  cases h with
  | told stored outage lasting => exact .told (hmonitor.trans stored) outage lasting
  | held stored untold lasting hold watched stale =>
    obtain ⟨hold, hhold, hrest⟩ := hold
    exact .held (hmonitor.trans stored) untold lasting ⟨hold, hholds.trans hhold, hrest⟩ watched
      stale

/-- Stored, the state speaks for no healthy run since. -/
theorem Outstanding.lasting {watchedAt : Option ℤ} (h : Outstanding S t w watchedAt) :
    ∀ l ∈ w.monitor.bind MonitorState.lastHealthyAt, l ≤ S := by
  cases h with
  | told stored _ lasting =>
    rw [stored]
    exact lasting
  | held stored _ lasting =>
    rw [stored]
    exact lasting

/-- **A run within the hour starts from the outage**: two intervals after the state was
saved, it is stale. -/
theorem Outstanding.loaded {watchedAt : Option ℤ} (h : Outstanding S t w watchedAt)
    (hagreed : AgreedRun w clock run) (hgap : ∀ u ∈ watchedAt, u + minutes 4 ≤ run.now)
    (hlive : run.now < t + stateUnreadableNoticeMs) :
    ∃ n, (w.loadedState run).bind MonitorState.outage = some ⟨S, some n⟩ ∧
      ((∃ m ∈ w.monitor, m.outage = some ⟨S, some n⟩) ∨ t ≤ n) := by
  cases h with
  | @told m n stored outage lasting =>
    refine ⟨n, ?_, .inl ⟨m, stored, outage⟩⟩
    rw [loadedState_of_told stored outage]
    exact outage
  | @held m u stored untold lasting hold watched stale =>
    obtain ⟨hold, hget, hsince, hle⟩ := hold.live hlive
    obtain ⟨sentAt, since⟩ := hold
    obtain rfl : since = some S := hsince
    refine ⟨sentAt, ?_, .inr hle⟩
    have hfound : w.findHold run.host .outage run.now run.holdAnswers.restore =
        some ⟨sentAt, some S⟩ := by
      rw [hagreed.answered, hagreed.agrees.findHold_eq (by decide), hget]
    have hstale : watcherStateStaleMs < run.now - m.lastWatcherRunAt := by
      have := hgap u watched
      have : watcherStateStaleMs < minutes 4 + minutes 4 := by decide
      omega
    rw [loadedState_of_held stored untold hstale hfound lasting]
    rfl

section Ran

variable [DecidableEq ι] {w' : World ι}

/-- **A `down` that was delivered leaves its mark**, saved or not. -/
theorem Outstanding.of_delivered {watchedAt : Option ℤ} (hagreed : AgreedRun w clock run)
    (hgap : ∀ u ∈ watchedAt, u + minutes 4 ≤ run.now)
    (hheartbeat : ∀ m ∈ w.monitor, ∃ u ∈ watchedAt, m.lastWatcherRunAt ≤ u)
    (hran : WatcherRan ownerChatId w run decision sent w' notices) {a : MonitorAction}
    (due : decision.action = some a) (hkind : a.kind = .down)
    (hsent : sent = some ⟨run.now, false⟩) :
    Outstanding a.since run.now w' (some run.now) := by
  have hstep := hagreed.outageStep hran
  have hof : holdOf a = .outage := by rw [holdOf, hkind]
  obtain ⟨hlasting, -, hnext⟩ := hstep.of_report due hof
  rcases hran.recorded with ⟨-, rfl⟩ | ⟨-, hnothing, -⟩ | @⟨b, _, -, due', -, rfl⟩
  · exact .told rfl (hnext _ hsent) ((lastHealthyAt_nextMonitor hran.step).symm ▸ hlasting)
  · exact absurd hsent (hnothing a _ due)
  · obtain rfl := Option.some.inj (due.symm.trans due')
    -- The run cannot save its state, so that only the hold knows of the outage.
    obtain ⟨⟨m, hm, -⟩, -⟩ := hagreed.anchored.action hagreed.le hran.step due
    obtain ⟨u, hu, hle⟩ := hheartbeat m hm
    refine .held ((monitor_holdAfterUnrecordedSend a).trans hm) (fun o ho => ?_) (fun l hl => ?_)
      (hof ▸ holdsAbout_holdAfterUnrecordedSend w hagreed.answered le_rfl a) rfl ?_
    · have hstart := hstep.of_down due hkind
      rcases hagreed.loaded_cases with hstored | ⟨_, _, _, -, -, -, hout, -⟩
      · rw [hstored, Option.mem_def.mp hm] at hstart
        exact hstart o ho
      · cases hstart _ hout
    · have hstored : l ∈ w.monitor.bind MonitorState.lastHealthyAt := Option.mem_def.mp hm ▸ hl
      obtain ⟨l', hl', hle⟩ := exists_heardAt_of_stored w.recentRuns hstored
      exact hle.trans (hlasting l' hl')
    · have := hgap u hu
      omega

/-- **A run that sees no healthy run keeps the mark.** -/
theorem Outstanding.ran {watchedAt : Option ℤ} (h : Outstanding S t w watchedAt)
    (hagreed : AgreedRun w clock run) (hgap : ∀ u ∈ watchedAt, u + minutes 4 ≤ run.now)
    (hlive : run.now < t + stateUnreadableNoticeMs)
    (hblind : ∀ l ∈ heardAt w.monitor w.recentRuns, l ≤ S)
    (hran : WatcherRan ownerChatId w run decision sent w' notices) :
    Outstanding S t w' (some run.now) := by
  obtain ⟨n, hout, hstored⟩ := h.loaded hagreed hgap hlive
  have hstep := hagreed.outageStep hran
  rw [hout] at hstep
  -- The stored state only gets older.
  have hkept : Outstanding S t w (some run.now) := by
    cases h with
    | told stored outage lasting => exact .told stored outage lasting
    | held stored untold lasting hold watched stale =>
      have := hgap _ watched
      have : 0 ≤ minutes 4 := by decide
      exact .held stored untold lasting hold rfl (by omega)
  rcases hstep.of_some with ⟨l, hl, hlt, -⟩ | ⟨-, hnext⟩
  · have := hblind l hl
    omega
  · rcases hran.recorded with ⟨-, rfl⟩ | ⟨-, -, rfl⟩ | @⟨a, _, -, due, -, rfl⟩
    · have hlasting := (@lastHealthyAt_nextMonitor ι ownerChatId w run decision sent
        hran.step).symm ▸ hblind
      rcases hnext with ⟨-, hnext, -⟩ | ⟨_, -, -, -, hnext, -⟩
      · exact .told rfl hnext hlasting
      · exact .told rfl (hnext.trans (by rw [Option.or_some])) hlasting
    · exact hkept
    · rcases hnext with ⟨hidle, -⟩ | ⟨_, -, -, -, -, hdue⟩
      · simp [due] at hidle
      · rcases hstored with ⟨m, hm, hout⟩ | hle
        · refine .told ((monitor_holdAfterUnrecordedSend a).trans hm) hout fun l hl => ?_
          exact h.lasting l (Option.mem_def.mp hm ▸ hl)
        · -- No reminder is due within the hour.
          have := hdue n rfl
          have : stateUnreadableNoticeMs ≤ outageReminderMs := by decide
          omega

/-- **A run that sees a healthy run has a `recovered` to send**, and only the hold of an
earlier one can be in its way. -/
theorem Outstanding.recovered {watchedAt : Option ℤ} (h : Outstanding S t w watchedAt)
    (hagreed : AgreedRun w clock run) (hgap : ∀ u ∈ watchedAt, u + minutes 4 ≤ run.now)
    (hlive : run.now < t + stateUnreadableNoticeMs) {l : ℤ}
    (hl : l ∈ heardAt w.monitor w.recentRuns) (hlt : S < l) (howner : ownerChatId ≠ none)
    (hran : WatcherRan ownerChatId w run decision sent w' notices) :
    (∃ n ∈ notices, n.Says .recovered S) ∨
      ∃ hold, w.Holds .recovered hold ∧ hold.since = some S ∧
        run.now < hold.sentAt + stateUnreadableNoticeMs := by
  obtain ⟨n, hout, -⟩ := h.loaded hagreed hgap hlive
  have hstep := hagreed.outageStep hran
  rw [hout] at hstep
  obtain ⟨a, due, hkind, rfl⟩ := hstep.recovered_of_heard hl hlt
  have hof : holdOf a = .recovered := by rw [holdOf, hkind]
  cases hran.notified with
  | idle due' => simp [due] at due'
  | muted _ _ noOwner => exact absurd noOwner howner
  | held due' found same =>
    obtain rfl := Option.some.inj (due.symm.trans due')
    obtain ⟨hholds, hnow⟩ := holds_of_findHold found
    exact .inr ⟨_, hof ▸ hholds, same, hnow⟩
  | refused due' _ _ out =>
    obtain rfl := Option.some.inj (due.symm.trans due')
    rw [out]
    exact .inl ⟨_, List.mem_singleton_self _, a, rfl, hkind, rfl⟩
  | delivered due' _ _ out =>
    obtain rfl := Option.some.inj (due.symm.trans due')
    rw [out]
    exact .inl ⟨_, List.mem_singleton_self _, a, rfl, hkind, rfl⟩

end Ran

/-! ### A single instance -/

/-- **A single watcher instance**, whose runs are at least four minutes apart, read their
state, and find Redis in order. -/
def Solo (host : ι) (s : Monitoring ι) : MonitorEvent ι → Prop
  | .watcher _ run =>
    run.host = host ∧ run.readOk = true ∧ run.holdAnswers = {} ∧
      ∀ u ∈ s.watchedAt, u + minutes 4 ≤ run.now
  | .check _ => True

/-- A watcher run that sees a healthy run started after `S`. -/
def Sees (S : ℤ) (s : Monitoring ι) : MonitorEvent ι → Prop
  | .watcher logged _ =>
    ∃ r ∈ (s.world.recordRuns logged).recentRuns, isHealthyRun r ∧ ∃ u ∈ r.startedAt, S < u
  | .check _ => False

/-- What a single instance can rely on: its memory is what Redis holds, and the stored state
is no newer than its last run. -/
structure SoloState (host : ι) (s : Monitoring ι) : Prop where
  anchored : Anchored s.world s.clock
  memory : ∀ kind ∈ [NoticeHoldKind.outage, .recovered],
    s.world.memoryHolds host kind = s.world.noticeHolds kind
  heartbeat : ∀ m ∈ s.world.monitor, ∃ u ∈ s.watchedAt, m.lastWatcherRunAt ≤ u

section Solo

variable [DecidableEq ι] {host : ι} {s : Monitoring ι} {logged : List LoggedRun}

def soloMonitoring (ownerChatId : Option String) (host : ι) :
    System (Monitoring ι) (MonitorEvent ι) MonitorNotice :=
  (monitoring ownerChatId).restrict (Solo host)

theorem SoloState.agreedRun (hs : SoloState host s)
    (hleg : (soloMonitoring ownerChatId host).legal s (.watcher logged run)) :
    AgreedRun (s.world.recordRuns logged) s.clock run where
  anchored := ⟨hs.anchored.stored, hs.anchored.held⟩
  le := hleg.1
  answered := hleg.2.2.2.1
  read := hleg.2.2.1
  agrees kind hkind hold hmem := by
    have hmemory := hs.memory kind hkind
    rw [← hleg.2.1] at hmemory
    change ((s.world.memoryHolds run.host kind).filter _) = some hold at hmem
    rwa [hmemory] at hmem

omit [DecidableEq ι] in
theorem soloState_newMonitoring (host : ι) (runs : List LoggedRun) (clock : ℤ) :
    SoloState host (newMonitoring ι runs clock) where
  anchored := anchored_newWorld runs clock
  memory _ _ := rfl
  heartbeat m hm := by simp [newMonitoring, newWorld] at hm

/-- A hold is taken in both places. -/
theorem memory_holdAfterUnrecordedSend (hanswered : run.holdAnswers = {})
    {kind : NoticeHoldKind} (hmemory : w.memoryHolds run.host kind = w.noticeHolds kind)
    (a : MonitorAction) :
    (w.holdAfterUnrecordedSend run a).memoryHolds run.host kind =
      (w.holdAfterUnrecordedSend run a).noticeHolds kind := by
  have hset : run.holdAnswers.set = true := by rw [hanswered]
  rw [noticeHolds_holdAfterUnrecordedSend hset, memoryHolds_holdAfterUnrecordedSend,
    Function.update_self]
  rcases eq_or_ne kind (holdOf a) with rfl | hne
  · rw [Function.update_self, Function.update_self]
  · rw [Function.update_of_ne hne, Function.update_of_ne hne, hmemory]

theorem keeps_soloState (ownerChatId : Option String) (host : ι) :
    (soloMonitoring ownerChatId host).Keeps (SoloState host) := by
  intro s e hs hleg
  have hanchored := keeps_anchored ownerChatId s e hs.anchored hleg.1
  cases e with
  | check run =>
    have hframe := checkWatcher_frame ownerChatId s.world run
    refine ⟨hanchored, fun kind hkind => ?_, fun m hm => hs.heartbeat m (hframe.1 ▸ hm)⟩
    have hsame := hframe.2 kind (by rintro rfl; simp at hkind) (by rintro rfl; simp at hkind)
    exact (hsame.2 host).trans ((hs.memory kind hkind).trans hsame.1.symm)
  | watcher logged run =>
    have hagreed := hs.agreedRun hleg
    obtain ⟨rfl, hread, hanswered, hgap⟩ := hleg.2
    obtain ⟨decision, sent, hran⟩ :=
      runWatcher_cases ownerChatId (s.world.recordRuns logged) hread
    have hstill (m : MonitorState) (hm : m ∈ s.world.monitor) :
        ∃ u ∈ some run.now, m.lastWatcherRunAt ≤ u := by
      obtain ⟨u, hu, hle⟩ := hs.heartbeat m hm
      have := hgap u hu
      have : 0 ≤ minutes 4 := by decide
      exact ⟨_, rfl, by omega⟩
    refine ⟨hanchored, fun kind hkind => ?_, ?_⟩
    · change (runWatcher ownerChatId _ run).1.memoryHolds _ kind =
        (runWatcher ownerChatId _ run).1.noticeHolds kind
      generalize (runWatcher ownerChatId (s.world.recordRuns logged) run).1 = w' at hran
      rcases hran.recorded with ⟨-, rfl⟩ | ⟨-, -, rfl⟩ | @⟨a, _, -, -, -, rfl⟩
      · exact hs.memory kind hkind
      · exact hs.memory kind hkind
      -- What Redis takes, the instance remembers too.
      · have hmemory : (s.world.recordRuns logged).memoryHolds run.host kind =
            (s.world.recordRuns logged).noticeHolds kind := hs.memory kind hkind
        exact memory_holdAfterUnrecordedSend hanswered hmemory a
    · change ∀ m ∈ (runWatcher ownerChatId _ run).1.monitor, ∃ u ∈ some run.now, _
      generalize (runWatcher ownerChatId (s.world.recordRuns logged) run).1 = w' at hran
      rcases hran.recorded with ⟨-, rfl⟩ | ⟨-, -, rfl⟩ | @⟨a, _, -, -, -, rfl⟩
      · rintro m hm
        obtain rfl := Option.some.inj hm
        exact ⟨_, rfl, (lastWatcherRunAt_nextMonitor hran.step).le⟩
      · exact hstill
      · rw [monitor_holdAfterUnrecordedSend]
        exact hstill

/-- **The mark of a delivered `down` stays** while no healthy run is seen, for an hour. -/
theorem keeps_outstanding (ownerChatId : Option String) (host : ι) (S t : ℤ) :
    ((soloMonitoring ownerChatId host).restrict fun s e => ¬Sees S s e).Keeps fun s =>
      SoloState host s ∧
        (t + stateUnreadableNoticeMs ≤ s.clock ∨ Outstanding S t s.world s.watchedAt) := by
  intro s e ⟨hs, hmark⟩ ⟨hleg, hblind⟩
  refine ⟨keeps_soloState ownerChatId host s e hs hleg, ?_⟩
  have hclock : s.clock ≤ e.now := hleg.1
  rcases hmark with hpast | hmark
  · cases e with
    | check run => exact .inl (hpast.trans hclock)
    | watcher logged run => exact .inl (hpast.trans hclock)
  · cases e with
    | check run =>
      have hframe := checkWatcher_frame ownerChatId s.world run
      exact .inr (hmark.frame hframe.1 (hframe.2 .outage (by decide) (by decide)).1)
    | watcher logged run =>
      by_cases hlive : run.now < t + stateUnreadableNoticeMs
      · obtain ⟨decision, sent, hran⟩ :=
          runWatcher_cases ownerChatId (s.world.recordRuns logged) hleg.2.2.1
        have hlogged : Outstanding S t (s.world.recordRuns logged) s.watchedAt :=
          hmark.frame rfl rfl
        refine .inr (hlogged.ran (hs.agreedRun hleg) hleg.2.2.2.2 hlive (fun l hl => ?_) hran)
        -- No healthy run after `S` is stored, and the run sees none.
        rcases mem_heardAt hl with hstored | ⟨r, hr, hhealthy, hstart⟩
        · exact hlogged.lasting l hstored
        · by_contra hlt
          exact hblind ⟨r, hr, hhealthy, l, hstart, not_le.mp hlt⟩
      · exact .inl (not_lt.mp hlive)

/-- A `down` that was delivered leaves its mark on the service. -/
theorem SoloState.outstanding {e : MonitorEvent ι} (hs : SoloState host s)
    (hleg : (soloMonitoring ownerChatId host).legal s e)
    (hdown : Arrived .down S ((soloMonitoring ownerChatId host).out s e)) :
    ownerChatId ≠ none ∧
      Outstanding S e.now ((soloMonitoring ownerChatId host).next s e).world
        ((soloMonitoring ownerChatId host).next s e).watchedAt := by
  obtain ⟨n, hn, hdelivered, hsaid⟩ := hdown
  cases e with
  | check run =>
    rcases kind_of_mem_checkWatcher hn hsaid with hkind | hkind
    · cases hkind
    · cases hkind
  | watcher logged run =>
    obtain ⟨a, hmessage, hkind, rfl⟩ := hsaid.exists_about
    obtain ⟨decision, sent, hran⟩ :=
      runWatcher_cases ownerChatId (s.world.recordRuns logged) hleg.2.2.1
    obtain ⟨b, due, hmessage', -, -, hsent⟩ := hran.notified.mem hn
    obtain rfl := OwnerMessage.about.inj (hmessage.symm.trans hmessage')
    exact ⟨hran.notified.owner hn, .of_delivered (hs.agreedRun hleg) hleg.2.2.2.2 hs.heartbeat hran
      due hkind (hsent hdelivered)⟩

/-- What a single instance remembers was told. -/
theorem SoloState.told {runs : List LoggedRun} {clock : ℤ} {es : List (MonitorEvent ι)}
    (hr : (soloMonitoring ownerChatId host).Run (newMonitoring ι runs clock) es) :
    Told ((soloMonitoring ownerChatId host).final (newMonitoring ι runs clock) es).world
      ((soloMonitoring ownerChatId host).outputs (newMonitoring ι runs clock) es) := by
  have htold := told_outputs ownerChatId runs clock hr.of_restrict
  rwa [← System.final_restrict (Solo host), ← System.outputs_restrict (Solo host)] at htold

/-- **A run that sees a healthy run after a `down` arrived** attempts a `recovered`, unless an
earlier one is held. -/
theorem Outstanding.attempted {e : MonitorEvent ι} {S t : ℤ} {history : List MonitorNotice}
    (h : Outstanding S t s.world s.watchedAt) (hs : SoloState host s)
    (htold : Told s.world history) (hleg : (soloMonitoring ownerChatId host).legal s e)
    (howner : ownerChatId ≠ none) (hsees : Sees S s e)
    (hwithin : e.now < t + stateUnreadableNoticeMs) :
    (∃ n ∈ (soloMonitoring ownerChatId host).out s e, n.Says .recovered S) ∨
      ∃ n ∈ history, n.delivered = true ∧ n.Says .recovered S ∧
        e.now < n.sentAt + stateUnreadableNoticeMs := by
  cases e with
  | check run => exact hsees.elim
  | watcher logged run =>
    obtain ⟨r, hr, hhealthy, u, hu, hlt⟩ := hsees
    obtain ⟨l, hl, hle⟩ : ∃ l ∈ heardAt s.world.monitor (s.world.recordRuns logged).recentRuns,
        u ≤ l := exists_heardAt_of_healthyAt ⟨r, hr, hhealthy, hu⟩
    obtain ⟨decision, sent, hran⟩ :=
      runWatcher_cases ownerChatId (s.world.recordRuns logged) hleg.2.2.1
    have hlogged : Outstanding S t (s.world.recordRuns logged) s.watchedAt := h.frame rfl rfl
    rcases hlogged.recovered (hs.agreedRun hleg) hleg.2.2.2.2 hwithin hl (hlt.trans_le hle) howner
      hran with hsaid | ⟨hold, hholds, hsince, hnow⟩
    · exact .inl hsaid
    · obtain ⟨S', hS', n, hn, hdelivered, hsaid, hat⟩ := htold.recovered hold hholds
      obtain rfl := Option.some.inj (hsince.symm.trans hS')
      exact .inr ⟨n, hn, hdelivered, hsaid, hat ▸ hnow⟩

/-- **An owner who was told of an outage hears of its end, and nobody else does**, in any run
of a single watcher instance.

If a `down` arrived, and no run of the watcher saw a healthy run since until one does within
the hour, then that run attempts a `recovered`, unless one about the same outage arrived
within the hour before; and a `recovered` is only attempted after a `down` arrived. -/
theorem recoveries (ownerChatId : Option String) (host : ι) (runs : List LoggedRun) (clock : ℤ)
    {es : List (MonitorEvent ι)}
    (hr : (soloMonitoring ownerChatId host).Run (newMonitoring ι runs clock) es) :
    let M := soloMonitoring ownerChatId host
    let s := newMonitoring ι runs clock
    (∀ pre e mid e' post S, es = pre ++ e :: mid ++ e' :: post →
      Arrived .down S (M.out (M.final s pre) e) →
      (M.restrict fun s e => ¬Sees S s e).Run (M.final s (pre ++ [e])) mid →
      Sees S (M.final s (pre ++ e :: mid)) e' → e'.now < e.now + stateUnreadableNoticeMs →
      (∃ n ∈ M.out (M.final s (pre ++ e :: mid)) e', n.Says .recovered S) ∨
        ∃ n ∈ M.outputs s (pre ++ e :: mid), n.delivered = true ∧ n.Says .recovered S ∧
          e'.now < n.sentAt + stateUnreadableNoticeMs) ∧
    ∀ pre e post S, es = pre ++ e :: post →
      (∃ n ∈ M.out (M.final s pre) e, n.Says .recovered S) → Arrived .down S (M.outputs s pre) := by
  intro M s
  have hstate {fs : List (MonitorEvent ι)} (hfs : M.Run s fs) : SoloState host (M.final s fs) :=
    hfs.invariant (keeps_soloState ownerChatId host) (soloState_newMonitoring host runs clock)
  constructor
  · rintro pre e mid e' post S rfl hdown hmid hsees hwithin
    rw [System.run_append, System.run_cons] at hr
    obtain ⟨hbefore, hleg', -⟩ := hr
    have htold := SoloState.told hbefore
    have hs' := hstate hbefore
    rw [System.run_append, System.run_cons] at hbefore
    obtain ⟨howner, hmark⟩ := (hstate hbefore.1).outstanding hbefore.2.1 hdown
    -- The mark of the `down` stays up to the run that sees a healthy run.
    rw [System.final_append] at hmid
    have hkept := hmid.invariant (keeps_outstanding ownerChatId host S e.now)
      ⟨keeps_soloState ownerChatId host _ e (hstate hbefore.1) hbefore.2.1, .inr hmark⟩
    rw [System.final_restrict] at hkept
    have hfinal : M.final s (pre ++ e :: mid) = M.final (M.next (M.final s pre) e) mid :=
      System.final_append M s pre (e :: mid)
    have hle : (M.final s (pre ++ e :: mid)).clock ≤ e'.now := hleg'.1
    rw [← hfinal] at hkept
    rcases hkept.2 with hpast | hmark
    · omega
    · exact hmark.attempted hs' htold hleg' howner hsees hwithin
  · rintro pre e post S rfl ⟨n, hn, hsaid⟩
    rw [System.run_append, System.run_cons] at hr
    exact (SoloState.told hr.1).of_recovered (hstate hr.1).anchored hr.2.1.1 hn hsaid

end Solo

/-! ### Examples -/

instance (s : Monitoring ι) (e : MonitorEvent ι) : Decidable (Sees S s e) :=
  match e with
  | .watcher _ _ => inferInstanceAs (Decidable (∃ r ∈ _, _ ∧ ∃ u ∈ _, S < u))
  | .check _ => .isFalse id

instance [DecidableEq ι] (host : ι) (s : Monitoring ι) (e : MonitorEvent ι) :
    Decidable (Solo host s e) :=
  match e with
  | .watcher _ _ => inferInstanceAs (Decidable (_ ∧ _ ∧ _ ∧ ∀ u ∈ _, _ ≤ _))
  | .check _ => .isTrue trivial

instance [DecidableEq ι] (host : ι) (s : Monitoring ι) (e : MonitorEvent ι) :
    Decidable ((soloMonitoring ownerChatId host).legal s e) :=
  inferInstanceAs (Decidable (_ ∧ Solo host s e))

instance [DecidableEq ι] (host : ι) (s : Monitoring ι) (e : MonitorEvent ι) :
    Decidable (((soloMonitoring ownerChatId host).restrict fun s e => ¬Sees S s e).legal s e) :=
  inferInstanceAs (Decidable (_ ∧ ¬Sees S s e))

/-- A watcher run of the only instance, with its sends accepted. -/
def soloRunAt (minute : ℤ) (logged : List LoggedRun) (saveOk : Bool) : MonitorEvent ℕ :=
  .watcher logged { host := 0, now := minutes minute, saveOk := saveOk }

/-- The `down` about the outage since minute 2 arrives on a run that cannot save its state,
nor can the next one; the run that sees the healthy run of minute 25 tells the owner. -/
theorem recoveries_unsaved :
    let M := soloMonitoring (some "owner") 0
    let s := newMonitoring ℕ [] 0
    let pre := [soloRunAt 1 [] true, soloRunAt 10 [⟨some (minutes 2), some .healthy⟩] true]
    let down := soloRunAt 18 [] false
    let mid := [soloRunAt 23 [] false]
    let recovered := soloRunAt 28 [⟨some (minutes 25), some .healthy⟩] true
    (∃ n ∈ M.out (M.final s (pre ++ down :: mid)) recovered, n.Says .recovered (minutes 2)) ∨
      ∃ n ∈ M.outputs s (pre ++ down :: mid), n.delivered = true ∧
        n.Says .recovered (minutes 2) ∧
        recovered.now < n.sentAt + stateUnreadableNoticeMs := by
  intro M s pre down mid recovered
  have hr : M.Run s (pre ++ down :: mid ++ recovered :: []) := by decide +kernel
  exact (recoveries (some "owner") 0 [] 0 hr).1 pre down mid recovered [] (minutes 2) rfl
    (by decide +kernel) (by decide +kernel) (by decide +kernel) (by decide +kernel)

/-- The outage since minute 2 is told, and its end at minute 30, by a run that cannot save its
state. The healthy run of minute 25 is forgotten, thirty failed runs later, and the owner is
told of the outage again; but when a healthy run is seen once more, the `recovered` of minute
30 is still held. -/
theorem recovered_not_attempted :
    let failed := (List.range 30).map fun i : ℕ =>
      (⟨some (minutes (78 - i)), some .failed⟩ : LoggedRun)
    let M := soloMonitoring (some "owner") 0
    let s := newMonitoring ℕ [] 0
    let pre := [soloRunAt 1 [] true, soloRunAt 10 [⟨some (minutes 2), some .healthy⟩] true,
      soloRunAt 18 [] false, soloRunAt 30 [⟨some (minutes 25), some .healthy⟩] false]
    let down := soloRunAt 79 failed false
    let recovered := soloRunAt 84 [⟨some (minutes 83), some .healthy⟩] false
    M.Run s (pre ++ [down, recovered]) ∧
      failed.length ≤ monitorRunsWindow ∧
      Arrived .down (minutes 2) (M.out (M.final s pre) down) ∧
      Sees (minutes 2) (M.final s (pre ++ [down])) recovered ∧
      recovered.now < down.now + stateUnreadableNoticeMs ∧
      M.out (M.final s (pre ++ [down])) recovered = [] := by
  decide +kernel

end Monitor

end CryptoZaloBot
