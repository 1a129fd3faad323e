import CryptoZaloBot.Base.System
import CryptoZaloBot.Monitor.Rules

/-!
# What the owner is told about an outage

The watcher's rules over time: watcher run after watcher run, each storing the state that
matches what became of its message. Storing and reading the state always succeed here;
`CryptoZaloBot.Monitor.outage_messages` is what the rules alone guarantee then, for any
log of check runs the watcher does not miss an entry of and for any fate of the messages.

The state of an outage is what was told about it. Not told yet, the only message about it
is a `down` (`CryptoZaloBot.Monitor.untold_step`); told, it can be reminded of or ended,
and nothing else makes the watcher forget it (`CryptoZaloBot.Monitor.told_step`); and once
it is over, nothing is said about it any more (`CryptoZaloBot.Monitor.Over.next`).
-/

namespace CryptoZaloBot

namespace Monitor

open PriceAlerts (minutes)

/-! ### Watcher runs -/

/-- A message that was due, and what became of it. -/
structure Attempt where
  action : MonitorAction
  sentAt : ℤ
  delivered : Bool
  deriving DecidableEq

/-- One watcher run, with what happened since the last one and what happens in it. -/
structure Watch where
  now : ℤ
  /-- The check runs logged since the last watcher run. -/
  logged : List LoggedRun
  /-- What the watcher reads of the log. -/
  window : List LoggedRun
  rejectedSince : ℤ → ℕ
  delivered : Bool

/-- The watcher's state, with the whole log and the time of the last watcher run. -/
structure Watched where
  stored : Option MonitorState
  log : List LoggedRun
  clock : ℤ

/-- The outage the watcher remembers. -/
def Watched.outage (s : Watched) : Option OutageState := s.stored.bind MonitorState.outage

/-- What a watcher run decides. -/
def Watched.decision (s : Watched) (w : Watch) : MonitorDecision MonitorState :=
  evaluateMonitor s.stored w.window w.now w.rejectedSince

/-- **The watcher, run after run.** Time does not go back, no check run starts in the
future, and the watcher sees every check run logged since it last looked. -/
def watches : System Watched Watch Attempt where
  legal s w :=
    s.clock ≤ w.now ∧ (∀ run ∈ s.log ++ w.logged, ∀ t ∈ run.startedAt, t ≤ w.now) ∧
      (∀ run ∈ w.logged, run ∈ w.window) ∧ ∀ run ∈ w.window, run ∈ s.log ++ w.logged
  next s w :=
    { stored := some ((s.decision w).after w.delivered)
      log := s.log ++ w.logged
      clock := w.now }
  out s w := ((s.decision w).action.map fun action => ⟨action, w.now, w.delivered⟩).toList

instance (s : Watched) (w : Watch) : Decidable (watches.legal s w) := by
  unfold watches
  infer_instance

section Step

variable {s : Watched} {w : Watch}

@[simp] theorem log_next : (watches.next s w).log = s.log ++ w.logged := rfl

@[simp] theorem clock_next : (watches.next s w).clock = w.now := rfl

theorem decision_step (s : Watched) (w : Watch) :
    MonitorStep s.stored w.window w.now (s.decision w) :=
  evaluateMonitor_step s.stored w.window w.now w.rejectedSince

theorem outage_next : (watches.next s w).outage = ((s.decision w).after w.delivered).outage := rfl

theorem mem_out {a : Attempt} :
    a ∈ watches.out s w ↔
      (s.decision w).action = some a.action ∧ a.sentAt = w.now ∧ a.delivered = w.delivered := by
  obtain ⟨action, sentAt, delivered⟩ := a
  simp only [watches, Option.mem_toList, Option.map_eq_some_iff, Attempt.mk.injEq]
  constructor
  · rintro ⟨action', haction, rfl, rfl, rfl⟩
    exact ⟨haction, rfl, rfl⟩
  · rintro ⟨haction, rfl, rfl⟩
    exact ⟨action, haction, rfl, rfl, rfl⟩

/-- A run sends at most one message. -/
theorem pairwise_out (R : Attempt → Attempt → Prop) : (watches.out s w).Pairwise R := by
  simp only [watches]
  cases (s.decision w).action with
  | none => exact List.Pairwise.nil
  | some action => exact List.pairwise_singleton _ _

theorem stored_next :
    (watches.next s w).stored = some
      { baseState s.stored w.window w.now with outage := (watches.next s w).outage } :=
  congrArg some ((decision_step s w).after_eq w.delivered)

end Step

/-! ### What the state knows -/

/-- **The state is sound.** The newest healthy run it remembers was logged, and bounds all
that the watcher can have missed; an outage starts no earlier than the watcher, and was
silent for the threshold when it was noticed. -/
structure Sound (s : Watched) : Prop where
  logged : ∀ m ∈ s.stored, ∀ l ∈ m.lastHealthyAt, HealthyAt s.log l
  seen : ∀ m ∈ s.stored, ∀ t, HealthyAt s.log t →
    t ≤ m.watcherStartedAt ∨ ∃ l ∈ m.lastHealthyAt, t ≤ l
  started : ∀ m ∈ s.stored, ∀ o ∈ m.outage, m.watcherStartedAt ≤ o.since
  silent : ∀ o ∈ s.outage, o.since + outageThresholdMs ≤ s.clock

theorem sound_of_none {s : Watched} (h : s.stored = none) : Sound s where
  logged m hm := by simp [h] at hm
  seen m hm := by simp [h] at hm
  started m hm := by simp [h] at hm
  silent o ho := by simp [Watched.outage, h] at ho

section Sound

variable {s : Watched} {w : Watch}

/-- A healthy run the watcher has heard of was logged. -/
theorem Sound.healthyAt (hs : Sound s) (hleg : watches.legal s w) {t : ℤ}
    (h : t ∈ heardAt s.stored w.window) : HealthyAt (s.log ++ w.logged) t := by
  rcases mem_heardAt h with h | h
  · obtain ⟨m, hm, hl⟩ := Option.bind_eq_some_iff.mp h
    exact (hs.logged m hm t hl).mono fun _ => List.mem_append_left _
  · exact h.mono hleg.2.2.2

/-- **The watcher has heard of every healthy run** that started after it. -/
theorem Sound.heard (hs : Sound s) (hleg : watches.legal s w) {t : ℤ}
    (h : HealthyAt (s.log ++ w.logged) t) :
    t ≤ startedAt s.stored w.now ∨ ∃ l ∈ heardAt s.stored w.window, t ≤ l := by
  obtain ⟨run, hmem, hrun⟩ := h
  rcases List.mem_append.mp hmem with hmem | hmem
  · rcases hstored : s.stored with - | m
    · exact .inl (hleg.2.1 run (List.mem_append_left _ hmem) t hrun.2)
    · rcases hs.seen m hstored t ⟨run, hmem, hrun⟩ with hle | ⟨l, hl, hle⟩
      · exact .inl hle
      · have hl' : l ∈ (some m).bind MonitorState.lastHealthyAt := hl
        obtain ⟨l', hl', hle'⟩ := exists_heardAt_of_stored w.window hl'
        exact .inr ⟨l', hl', hle.trans hle'⟩
  · exact .inr (exists_heardAt_of_healthyAt ⟨run, hleg.2.2.1 run hmem, hrun⟩)

theorem Sound.le_silentSince (hs : Sound s) (hleg : watches.legal s w) {t : ℤ}
    (h : HealthyAt (s.log ++ w.logged) t) : t ≤ silentSince s.stored w.window w.now := by
  rcases hs.heard hleg h with hle | ⟨l, hl, hle⟩
  · exact hle.trans startedAt_le_silentSince
  · exact hle.trans (Monitor.le_silentSince hl)

/-- An outage starts no earlier than the watcher. -/
theorem Sound.startedAt_le (hs : Sound s) {o : OutageState} (ho : o ∈ s.outage) :
    startedAt s.stored w.now ≤ o.since := by
  obtain ⟨m, hm, hout⟩ := Option.bind_eq_some_iff.mp ho
  rw [startedAt, hm]
  exact hs.started m hm o hout

/-- **A lasting outage has lasted**: it never drops back below the threshold. -/
theorem Sound.lasting (hs : Sound s) (hleg : watches.legal s w) {o : OutageState}
    (ho : o ∈ s.outage) (hlasting : ∀ l ∈ heardAt s.stored w.window, l ≤ o.since) :
    silentSince s.stored w.window w.now + outageThresholdMs ≤ w.now := by
  have hle : silentSince s.stored w.window w.now ≤ o.since :=
    silentSince_le (hs.startedAt_le ho) hlasting
  have hsilent := hs.silent o ho
  have hclock : s.clock ≤ w.now := hleg.1
  omega

/-- The outage a run stores started no earlier than the watcher, and long enough ago. -/
theorem Sound.outage_next (hs : Sound s) (hleg : watches.legal s w) {o : OutageState}
    (ho : o ∈ (watches.next s w).outage) :
    startedAt s.stored w.now ≤ o.since ∧ o.since + outageThresholdMs ≤ w.now := by
  rcases (decision_step s w).since_after ho with ⟨o', ho', hsince⟩ | ⟨-, hsince, hsilent⟩
  · have hold := hs.silent o' ho'
    have hclock : s.clock ≤ w.now := hleg.1
    exact ⟨hsince ▸ hs.startedAt_le ho', by omega⟩
  · exact ⟨hsince ▸ startedAt_le_silentSince, hsilent⟩

theorem keeps_sound : watches.Keeps Sound := by
  intro s w hs hleg
  refine ⟨?_, ?_, ?_, fun o ho => (hs.outage_next hleg ho).2⟩
  all_goals
    intro m hm
    rw [stored_next] at hm
    obtain rfl := Option.some.inj hm
  · exact fun l hl => hs.healthyAt hleg hl
  · exact fun t ht => hs.heard hleg ht
  · exact fun o ho => (hs.outage_next hleg ho).1

end Sound

/-! ### One outage -/

/-- **The outage is over**: a healthy run was seen since, and if an outage is remembered it
is a later one. -/
def Over (S : ℤ) (s : Watched) : Prop :=
  ∃ m ∈ s.stored, (∃ l ∈ m.lastHealthyAt, S < l) ∧ ∀ o ∈ m.outage, S < o.since

section Outage

variable {s : Watched} {w : Watch} {S t : ℤ}

/-- What is remembered or new in a run after the outage started after it. -/
theorem Over.lt (h : Over S s) {r : ℤ}
    (hr : (∃ o ∈ s.outage, o.since = r) ∨ r = silentSince s.stored w.window w.now) : S < r := by
  obtain ⟨m, hm, ⟨l, hl, hlt⟩, hout⟩ := h
  rcases hr with ⟨o, ho, rfl⟩ | rfl
  · rw [Watched.outage, Option.mem_def.mp hm] at ho
    exact hout o ho
  · have hstored : l ∈ s.stored.bind MonitorState.lastHealthyAt := by
      rw [Option.mem_def.mp hm]
      exact hl
    obtain ⟨l', hl', hle⟩ := exists_heardAt_of_stored w.window hstored
    exact (hlt.trans_le hle).trans_le (le_silentSince hl')

/-- **Over is over.** -/
theorem Over.next (h : Over S s) : Over S (watches.next s w) := by
  refine ⟨_, stored_next, ?_, fun o ho => ?_⟩
  · obtain ⟨m, hm, ⟨l, hl, hlt⟩, -⟩ := h
    have hstored : l ∈ s.stored.bind MonitorState.lastHealthyAt := by
      rw [Option.mem_def.mp hm]
      exact hl
    obtain ⟨l', hl', hle⟩ := exists_heardAt_of_stored w.window hstored
    exact ⟨l', hl', hlt.trans_le hle⟩
  · exact h.lt (((decision_step s w).since_after ho).imp_right fun hnew => hnew.2.1)

/-- Nothing is said about an outage that is over. -/
theorem Over.since_ne (h : Over S s) {a : Attempt} (ha : a ∈ watches.out s w) :
    a.action.since ≠ S :=
  (h.lt (((decision_step s w).since_action (mem_out.mp ha).1).imp_right fun hnew => hnew.2.1)).ne'

/-- **What a run can do about an outage the owner was told of.** -/
inductive ToldStep (S t : ℤ) (s : Watched) (w : Watch) : Prop
  | silent (out : watches.out s w = [])
      (kept : (watches.next s w).outage = some ⟨S, some t⟩)
  | reminded (a : Attempt) (out : watches.out s w = [a]) (kind : a.action.kind = .reminder)
      (about : a.action.since = S) (due : t + outageReminderMs ≤ a.sentAt)
      (kept : (watches.next s w).outage = some ⟨S, some (if a.delivered then a.sentAt else t)⟩)
  | retried (a : Attempt) (out : watches.out s w = [a]) (kind : a.action.kind = .recovered)
      (about : a.action.since = S) (refused : a.delivered = false)
      (kept : (watches.next s w).outage = some ⟨S, some t⟩)
  | ended (a : Attempt) (out : watches.out s w = [a]) (kind : a.action.kind = .recovered)
      (about : a.action.since = S) (delivered : a.delivered = true)
      (isOver : Over S (watches.next s w))

theorem out_of_action {action : MonitorAction} (h : (s.decision w).action = some action) :
    watches.out s w = [⟨action, w.now, w.delivered⟩] := by
  change ((s.decision w).action.map _).toList = _
  rw [h]
  rfl

theorem out_of_none (h : (s.decision w).action = none) : watches.out s w = [] := by
  change ((s.decision w).action.map _).toList = _
  rw [h]
  rfl

/-- **An outage the owner was told of is not forgotten**, and nothing is said about it but
that it lasts or that it ended. -/
theorem told_step (hs : Sound s) (hleg : watches.legal s w) (ho : s.outage = some ⟨S, some t⟩) :
    ToldStep S t s w := by
  have hstep := decision_step s w
  generalize hd : s.decision w = decision at hstep
  cases hstep with
  | cleared outage => simp [Watched.outage, outage] at ho
  | quiet lasting recent =>
    -- The outage has lasted the threshold, so the silence is not short.
    have := hs.lasting hleg ho (lasting _ ho)
    omega
  | @recovered since n healthyAt recoveredAt outage heard after =>
    obtain ⟨rfl, rfl⟩ : since = S ∧ n = t := by simpa using outage.symm.trans ho
    have hout := out_of_action (s := s) (w := w) (by rw [hd])
    have hafter := outage_next (s := s) (w := w)
    rw [hd] at hafter
    -- Only a `recovered` that arrives ends the outage.
    cases hw : w.delivered with
    | false =>
      rw [hw] at hout hafter
      exact .retried _ hout rfl rfl rfl (hafter.trans ho)
    | true =>
      rw [hw] at hout hafter
      refine .ended _ hout rfl rfl rfl ⟨_, stored_next, ⟨healthyAt, heard, after⟩, ?_⟩
      rintro o (hnext : (watches.next s w).outage = some o)
      simp [hafter] at hnext
  | down report current =>
    rcases current with hcur | ⟨hcur, -⟩
    · simp [Watched.outage, hcur] at ho
    · simp [Watched.outage, hcur] at ho
  | @reminder since n report outage lasting silent due about =>
    obtain ⟨rfl, rfl⟩ : since = S ∧ n = t := by simpa using outage.symm.trans ho
    have hout := out_of_action (s := s) (w := w) (by rw [hd])
    have hafter := outage_next (s := s) (w := w)
    rw [hd] at hafter
    refine .reminded _ hout rfl about due (hafter.trans ?_)
    cases hw : w.delivered with
    | false => exact ho
    | true => rfl
  | held outage =>
    refine .silent (out_of_none (by rw [hd]; rfl)) ?_
    rw [outage_next, hd, MonitorDecision.after_none]
    exact ho

/-- **What a run can do about an outage the owner was not told of.** -/
inductive UntoldStep (S : ℤ) (s : Watched) (w : Watch) : Prop
  | told (a : Attempt) (out : watches.out s w = [a]) (kind : a.action.kind = .down)
      (about : a.action.since = S) (delivered : a.delivered = true)
      (told : (watches.next s w).outage = some ⟨S, some a.sentAt⟩)
  | untold
      (out : ∀ a ∈ watches.out s w, a.action.since = S →
        a.action.kind = .down ∧ a.delivered = false)
      (untold : ∀ t, (watches.next s w).outage ≠ some ⟨S, some t⟩)

/-- **The first message about an outage is a `down`.** -/
theorem untold_step (ho : ∀ t, s.outage ≠ some ⟨S, some t⟩) : UntoldStep S s w := by
  have hstep := decision_step s w
  have hafter := outage_next (s := s) (w := w)
  generalize hd : s.decision w = decision at hstep hafter
  -- A run about another outage, or one that is silent, leaves `S` untold.
  have hkept (h : ∀ a ∈ watches.out s w, a.action.since ≠ S)
      (hnext : ∀ t, (watches.next s w).outage ≠ some ⟨S, some t⟩) : UntoldStep S s w :=
    .untold (fun a ha hS => absurd hS (h a ha)) hnext
  have hquiet (h : (s.decision w).action = none) : ∀ a ∈ watches.out s w, a.action.since ≠ S := by
    simp [out_of_none h]
  cases hstep with
  | cleared =>
    refine hkept (hquiet (by rw [hd]; rfl)) fun t ht => ?_
    simp [hafter] at ht
  | quiet =>
    refine hkept (hquiet (by rw [hd]; rfl)) fun t ht => ?_
    simp [hafter] at ht
  | held outage =>
    refine hkept (hquiet (by rw [hd]; rfl)) fun t ht => ?_
    rw [hafter, MonitorDecision.after_none] at ht
    exact ho t ht
  | @recovered since n healthyAt recoveredAt outage =>
    have hne : since ≠ S := fun h => ho n (h ▸ outage)
    refine hkept (fun a ha => ?_) fun t ht => ?_
    · rw [out_of_action (by rw [hd])] at ha
      obtain rfl := List.mem_singleton.mp ha
      exact hne
    · cases hw : w.delivered with
      | false => exact ho t (by rw [← ht, hafter, hw]; rfl)
      | true => simp [hafter, hw] at ht
  | @reminder since n report outage _ _ _ about =>
    have hne : since ≠ S := fun h => ho n (h ▸ outage)
    refine hkept (fun a ha => ?_) fun t ht => ?_
    · rw [out_of_action (by rw [hd])] at ha
      obtain rfl := List.mem_singleton.mp ha
      exact about.trans_ne hne
    · cases hw : w.delivered with
      | false => exact ho t (by rw [← ht, hafter, hw]; rfl)
      | true =>
        rw [hafter, hw, MonitorDecision.after_true] at ht
        exact hne (by simpa using congrArg (Option.map OutageState.since) ht)
  | @down since report current _ _ about =>
    have hout := out_of_action (s := s) (w := w) (by rw [hd])
    cases hw : w.delivered with
    | false =>
      rw [hw] at hout hafter
      refine .untold (fun a ha _ => ?_) fun t ht => ?_
      · rw [hout] at ha
        obtain rfl := List.mem_singleton.mp ha
        exact ⟨rfl, rfl⟩
      · simp [hafter] at ht
    | true =>
      rw [hw] at hout hafter
      rcases eq_or_ne since S with rfl | hne
      · exact .told _ hout rfl about rfl hafter
      · refine hkept (fun a ha => ?_) fun t ht => ?_
        · rw [hout] at ha
          obtain rfl := List.mem_singleton.mp ha
          exact about.trans_ne hne
        · rw [hafter, MonitorDecision.after_true] at ht
          exact hne (by simpa using congrArg (Option.map OutageState.since) ht)

end Outage

/-! ### The messages about an outage -/

/-- What the owner received about an outage, in order. -/
def messagesAbout (S : ℤ) (attempts : List Attempt) : List MonitorActionKind :=
  (attempts.filter fun a => a.action.since = S ∧ a.delivered = true).map (·.action.kind)

/-- What was told about an outage, and what the watcher knows of that. -/
inductive Telling (S : ℤ) (s : Watched) : List MonitorActionKind → Prop
  | untold (h : ∀ t, s.outage ≠ some ⟨S, some t⟩) : Telling S s []
  | told (n : ℕ) {t : ℤ} (h : s.outage = some ⟨S, some t⟩) :
      Telling S s (.down :: List.replicate n .reminder)
  | ended (n : ℕ) (h : Over S s) : Telling S s (.down :: List.replicate n .reminder ++ [.recovered])

@[simp] theorem messagesAbout_append (S : ℤ) (as bs : List Attempt) :
    messagesAbout S (as ++ bs) = messagesAbout S as ++ messagesAbout S bs := by
  simp [messagesAbout]

theorem messagesAbout_eq_nil {S : ℤ} {as : List Attempt}
    (h : ∀ a ∈ as, a.action.since = S → a.delivered = false) : messagesAbout S as = [] := by
  rw [messagesAbout, List.map_eq_nil_iff, List.filter_eq_nil_iff]
  intro a ha
  rw [decide_eq_true_eq, not_and, Bool.not_eq_true]
  exact h a ha

theorem messagesAbout_singleton {S : ℤ} {a : Attempt} (habout : a.action.since = S)
    (hdelivered : a.delivered = true) : messagesAbout S [a] = [a.action.kind] := by
  simp [messagesAbout, habout, hdelivered]

theorem Telling.next {S : ℤ} {s : Watched} {w : Watch} {told : List MonitorActionKind}
    (h : Telling S s told) (hs : Sound s) (hleg : watches.legal s w) :
    Telling S (watches.next s w) (told ++ messagesAbout S (watches.out s w)) := by
  cases h with
  | untold ho =>
    cases untold_step (w := w) ho with
    | told a out kind about delivered told =>
      rw [out, messagesAbout_singleton about delivered, kind]
      exact .told 0 told
    | untold out untold =>
      rw [messagesAbout_eq_nil fun a ha hS => (out a ha hS).2]
      exact .untold untold
  | told n ho =>
    cases told_step hs hleg ho with
    | silent out kept =>
      rw [out, messagesAbout_eq_nil (by simp), List.append_nil]
      exact .told n kept
    | retried a out kind about refused kept =>
      rw [out, messagesAbout_eq_nil (by simp [refused]), List.append_nil]
      exact .told n kept
    | reminded a out kind about due kept =>
      cases hdelivered : a.delivered with
      | false =>
        rw [out, messagesAbout_eq_nil (by simp [hdelivered]), List.append_nil]
        exact .told n kept
      | true =>
        rw [out, messagesAbout_singleton about hdelivered, kind, List.cons_append,
          ← List.replicate_succ']
        exact .told (n + 1) kept
    | ended a out kind about delivered isOver =>
      rw [out, messagesAbout_singleton about delivered, kind]
      exact .ended n isOver
  | ended n ho =>
    rw [messagesAbout_eq_nil fun a ha hS => absurd hS (ho.since_ne ha), List.append_nil]
    exact .ended n ho.next

/-- **Down, reminders, recovered**: what was told about an outage, at any point of a run. -/
theorem telling_outputs {s : Watched} {ws : List Watch} (hs : s.stored = none)
    (hr : watches.Run s ws) (S : ℤ) :
    Telling S (watches.final s ws) (messagesAbout S (watches.outputs s ws)) := by
  let J : Watched → List Attempt → Prop := fun s h => Sound s ∧ Telling S s (messagesAbout S h)
  have hstart : J s [] := ⟨sound_of_none hs, .untold fun t => by simp [Watched.outage, hs]⟩
  have hstep : ∀ s h w, J s h → watches.legal s w →
      J (watches.next s w) (h ++ watches.out s w) := by
    rintro s h w ⟨hsound, htelling⟩ hleg
    refine ⟨keeps_sound s w hsound hleg, ?_⟩
    rw [messagesAbout_append]
    exact htelling.next hsound hleg
  exact (System.Run.history hstep hstart hr).2

/-- A message that an outage started or lasts. -/
def Attempt.Reports (a : Attempt) : Prop :=
  a.delivered = true ∧ (a.action.kind = .down ∨ a.action.kind = .reminder)

/-- A report's mark on the state: the next one is due no earlier than six hours later. -/
def ReportedSince (a : Attempt) (s : Watched) : Prop :=
  a.Reports → (∃ t, s.outage = some ⟨a.action.since, some t⟩ ∧ a.sentAt ≤ t) ∨
    Over a.action.since s

theorem Attempt.Reports.outage_next {a : Attempt} {s : Watched} {w : Watch} (h : a.Reports)
    (hs : Sound s) (hleg : watches.legal s w) (ha : a ∈ watches.out s w) :
    (watches.next s w).outage = some ⟨a.action.since, some a.sentAt⟩ := by
  obtain ⟨hdelivered, hkind⟩ := h
  by_cases htold : ∃ t, s.outage = some ⟨a.action.since, some t⟩
  · obtain ⟨t, ho⟩ := htold
    cases told_step hs hleg ho with
    | silent out => simp [out] at ha
    | reminded b out kind about due kept =>
      rw [out] at ha
      obtain rfl := List.mem_singleton.mp ha
      rwa [if_pos hdelivered] at kept
    | retried b out kind about refused =>
      rw [out] at ha
      obtain rfl := List.mem_singleton.mp ha
      simp [hdelivered] at refused
    | ended b out kind =>
      rw [out] at ha
      obtain rfl := List.mem_singleton.mp ha
      simp [kind] at hkind
  · push Not at htold
    cases untold_step (w := w) htold with
    | told b out kind about delivered told =>
      rw [out] at ha
      obtain rfl := List.mem_singleton.mp ha
      exact told
    | untold out =>
      rw [(out a ha rfl).2] at hdelivered
      cases hdelivered

/-- **The mark stays.** -/
theorem ReportedSince.next {a : Attempt} {s : Watched} {w : Watch} (h : ReportedSince a s)
    (hs : Sound s) (hleg : watches.legal s w) : ReportedSince a (watches.next s w) := by
  intro hreports
  rcases h hreports with ⟨t, ho, hle⟩ | hover
  · cases told_step hs hleg ho with
    | silent out kept => exact .inl ⟨t, kept, hle⟩
    | retried b out kind about refused kept => exact .inl ⟨t, kept, hle⟩
    | reminded b out kind about due kept =>
      refine .inl ⟨_, kept, ?_⟩
      have : (0 : ℤ) ≤ outageReminderMs := by decide
      split_ifs
      · omega
      · exact hle
    | ended b out kind about delivered isOver => exact .inr isOver
  · exact .inr hover.next

/-- **Reports of one outage are six hours apart.** -/
theorem reports_apart {s : Watched} {ws : List Watch} (hs : s.stored = none)
    (hr : watches.Run s ws) :
    (watches.outputs s ws).Pairwise fun a b => a.Reports → b.Reports →
      a.action.since = b.action.since → a.sentAt + outageReminderMs ≤ b.sentAt := by
  refine System.Run.outputs_pairwise (I := Sound) (A := ReportedSince) keeps_sound
    (fun s w _ _ => pairwise_out _) ?_ (fun a s w hsound hmark hleg => hmark.next hsound hleg) ?_
    (sound_of_none hs) hr
  · intro s w hsound hleg a ha hreports
    exact .inl ⟨a.sentAt, hreports.outage_next hsound hleg ha, le_rfl⟩
  · intro a s w hsound hmark hleg b hb hreports hreports' hsame
    rcases hmark hreports with ⟨t, ho, hle⟩ | hover
    · cases told_step hsound hleg ho with
      | silent out => simp [out] at hb
      | reminded c out kind about due =>
        rw [out] at hb
        obtain rfl := List.mem_singleton.mp hb
        omega
      | retried c out kind =>
        rw [out] at hb
        obtain rfl := List.mem_singleton.mp hb
        simp [Attempt.Reports, kind] at hreports'
      | ended c out kind =>
        rw [out] at hb
        obtain rfl := List.mem_singleton.mp hb
        simp [Attempt.Reports, kind] at hreports'
    · exact absurd hsame.symm (hover.since_ne hb)

/-! ### The promise to the owner -/

/-- The watcher's start does not move. -/
theorem startedAt_final {s : Watched} {ws : List Watch} {m : MonitorState} (hm : s.stored = some m)
    (now : ℤ) : startedAt (watches.final s ws).stored now = m.watcherStartedAt := by
  induction ws generalizing s m with
  | nil =>
    rw [System.final_nil, hm]
    rfl
  | cons w ws ih =>
    rw [System.final_cons, ih stored_next]
    change startedAt s.stored w.now = _
    rw [hm]
    rfl

/-- It is the time of the first watcher run. -/
theorem startedAt_eq_head {s : Watched} (hs : s.stored = none) (ws : List Watch) (w first : Watch)
    (hfirst : (ws ++ [w]).head? = some first) :
    startedAt (watches.final s ws).stored w.now = first.now := by
  cases ws with
  | nil =>
    obtain rfl : w = first := by simpa using hfirst
    rw [System.final_nil, hs]
    rfl
  | cons v ws =>
    obtain rfl : v = first := by simpa using hfirst
    rw [System.final_cons, startedAt_final stored_next]
    change startedAt s.stored v.now = _
    rw [hs]
    rfl

/-- **A `down` is not sent early**: no healthy run started in the last 15 minutes. -/
theorem silent_of_down {s : Watched} {w : Watch} (hs : Sound s) (hleg : watches.legal s w)
    {a : Attempt} (ha : a ∈ watches.out s w) (hkind : a.action.kind = .down) {t : ℤ}
    (ht : HealthyAt (s.log ++ w.logged) t) : t + outageThresholdMs ≤ w.now := by
  have haction := (mem_out.mp ha).1
  have hstep := decision_step s w
  generalize s.decision w = decision at hstep haction
  have hle := hs.le_silentSince hleg ht
  cases hstep with
  | down report current lasting silent => omega
  | cleared => simp at haction
  | quiet => simp at haction
  | held => simp at haction
  | recovered =>
    rw [← Option.some.inj haction] at hkind
    cases hkind
  | reminder =>
    rw [← Option.some.inj haction] at hkind
    cases hkind

/-- **A `down` is not missed**: after 15 minutes of silence the owner was told, or is. -/
theorem down_of_silent {s : Watched} {w : Watch} (hs : Sound s) (hleg : watches.legal s w)
    (hstart : startedAt s.stored w.now + outageThresholdMs ≤ w.now)
    (hsilent : ∀ t, HealthyAt (s.log ++ w.logged) t → t + outageThresholdMs ≤ w.now)
    (hlasting : ∀ o ∈ s.outage, ∀ t, HealthyAt (s.log ++ w.logged) t → t ≤ o.since) :
    (∃ S t, s.outage = some ⟨S, some t⟩) ∨ ∃ a ∈ watches.out s w, a.action.kind = .down := by
  have hstep := decision_step s w
  generalize hd : s.decision w = decision at hstep
  cases hstep with
  | cleared outage heard after =>
    exact absurd (hlasting _ outage _ (hs.healthyAt hleg heard)) (not_le.mpr after)
  | quiet _ recent =>
    rcases silentSince_eq s.stored w.window w.now with h | h
    · omega
    · have := hsilent _ (hs.healthyAt hleg h)
      omega
  | recovered _ outage => exact .inl ⟨_, _, outage⟩
  | reminder _ outage => exact .inl ⟨_, _, outage⟩
  | held outage => exact .inl ⟨_, _, outage⟩
  | down report =>
    refine .inr ⟨⟨.down report, w.now, w.delivered⟩, ?_, rfl⟩
    rw [out_of_action (by rw [hd])]
    exact List.mem_singleton_self _

/-- **A `recovered` is only tried once a `down` arrived.** -/
theorem down_of_recovered {s : Watched} {ws : List Watch} {w : Watch} (hs : s.stored = none)
    (hr : watches.Run s ws) {a : Attempt} (ha : a ∈ watches.out (watches.final s ws) w)
    (hkind : a.action.kind = .recovered) :
    ∃ d ∈ watches.outputs s ws, d.delivered = true ∧ d.action.kind = .down ∧
      d.action.since = a.action.since := by
  have hof {n : ℕ} {told : List MonitorActionKind}
      (h : messagesAbout a.action.since (watches.outputs s ws) =
        .down :: List.replicate n .reminder ++ told) :
      ∃ d ∈ watches.outputs s ws, d.delivered = true ∧ d.action.kind = .down ∧
        d.action.since = a.action.since := by
    have hdown : .down ∈ messagesAbout a.action.since (watches.outputs s ws) := by simp [h]
    obtain ⟨d, hd, hdkind⟩ := List.mem_map.mp hdown
    obtain ⟨hmem, hd⟩ := List.mem_filter.mp hd
    obtain ⟨habout, hdelivered⟩ := of_decide_eq_true hd
    exact ⟨d, hmem, hdelivered, hdkind, habout⟩
  have htelling := telling_outputs hs hr a.action.since
  generalize htold : messagesAbout a.action.since (watches.outputs s ws) = told at htelling
  cases htelling with
  | told n => exact hof (htold.trans (List.append_nil _).symm)
  | ended n => exact hof htold
  | untold ho =>
    cases untold_step (w := w) ho with
    | told b out kind =>
      rw [out] at ha
      obtain rfl := List.mem_singleton.mp ha
      simp [kind] at hkind
    | untold out =>
      rw [(out a ha rfl).1] at hkind
      cases hkind

/-- **The promise to the owner**, over any sequence of watcher runs that starts with no
stored state. The messages about an outage are a `down`, reminders, and a `recovered` that
is not even tried before the `down` arrived; reports are six hours apart; a `down` is
neither sent early nor missed; and an outage the owner was told of is remembered until a
`recovered` arrives. -/
theorem outage_messages {s : Watched} {ws : List Watch} (hs : s.stored = none)
    (hr : watches.Run s ws) :
    (∀ S, ∃ n, messagesAbout S (watches.outputs s ws) <+:
      .down :: List.replicate n .reminder ++ [.recovered]) ∧
    ((watches.outputs s ws).Pairwise fun a b => a.Reports → b.Reports →
      a.action.since = b.action.since → a.sentAt + outageReminderMs ≤ b.sentAt) ∧
    ∀ pre w post, ws = pre ++ w :: post →
      (∀ a ∈ watches.out (watches.final s pre) w, a.action.kind = .recovered →
        ∃ d ∈ watches.outputs s pre, d.delivered = true ∧ d.action.kind = .down ∧
          d.action.since = a.action.since) ∧
      (∀ a ∈ watches.out (watches.final s pre) w, a.action.kind = .down →
        ∀ t, HealthyAt ((watches.final s pre).log ++ w.logged) t →
          t + outageThresholdMs ≤ w.now) ∧
      ((∀ first ∈ (pre ++ [w]).head?, first.now + outageThresholdMs ≤ w.now) →
        (∀ t, HealthyAt ((watches.final s pre).log ++ w.logged) t →
          t + outageThresholdMs ≤ w.now) →
        (∀ o ∈ (watches.final s pre).outage,
          ∀ t, HealthyAt ((watches.final s pre).log ++ w.logged) t → t ≤ o.since) →
        (∃ S t, (watches.final s pre).outage = some ⟨S, some t⟩) ∨
          ∃ a ∈ watches.out (watches.final s pre) w, a.action.kind = .down) ∧
      ∀ S t, (watches.final s pre).outage = some ⟨S, some t⟩ →
        (∃ t', (watches.final s (pre ++ [w])).outage = some ⟨S, some t'⟩) ∨
          ∃ a ∈ watches.out (watches.final s pre) w, a.action.kind = .recovered ∧
            a.action.since = S ∧ a.delivered = true := by
  refine ⟨fun S => ?_, reports_apart hs hr, ?_⟩
  · have htelling := telling_outputs hs hr S
    -- What was said of the outage so far is a prefix of the whole story.
    generalize messagesAbout S (watches.outputs s ws) = told at htelling
    cases htelling with
    | untold => exact ⟨0, List.nil_prefix⟩
    | told n => exact ⟨n, List.prefix_append _ _⟩
    | ended n => exact ⟨n, List.prefix_rfl⟩
  · rintro pre w post rfl
    rw [System.run_append] at hr
    obtain ⟨hpre, hleg, -⟩ := hr
    have hsound : Sound (watches.final s pre) :=
      System.Run.invariant keeps_sound (sound_of_none hs) hpre
    refine ⟨fun a ha hkind => down_of_recovered hs hpre ha hkind,
      fun a ha hkind t ht => silent_of_down hsound hleg ha hkind ht,
      fun hstart hsilent hlasting => ?_, fun S t ho => ?_⟩
    · cases hfirst : (pre ++ [w]).head? with
      | none => simp at hfirst
      | some first =>
        refine down_of_silent hsound hleg ?_ hsilent hlasting
        rw [startedAt_eq_head hs pre w first hfirst]
        exact hstart first hfirst
    · rw [System.final_append]
      cases told_step hsound hleg ho with
      | silent out kept => exact .inl ⟨_, kept⟩
      | reminded a out kind about due kept => exact .inl ⟨_, kept⟩
      | retried a out kind about refused kept => exact .inl ⟨_, kept⟩
      | ended a out kind about delivered =>
        exact .inr ⟨a, by simp [out], kind, about, delivered⟩

/-! An outage of seven hours: silence from the first minute on, and a healthy run at last. -/

def watchAt (minute : ℤ) (logged : List LoggedRun) (delivered : Bool) : Watch where
  now := minutes minute
  logged := logged
  window := logged
  rejectedSince _ := 0
  delivered := delivered

theorem outage_messages_sevenHours :
    let failed : LoggedRun := ⟨some (minutes 10), some .failed⟩
    let healthy : LoggedRun := ⟨some (minutes 420), some .healthy⟩
    let ws := [watchAt 0 [] true, watchAt 15 [failed] false, watchAt 20 [] true,
      watchAt 379 [] true, watchAt 380 [] true, watchAt 421 [healthy] false, watchAt 426 [] true]
    let attempts := watches.outputs ⟨none, [], 0⟩ ws
    messagesAbout 0 attempts = [.down, .reminder, .recovered] ∧
      attempts.Pairwise fun a b => a.Reports → b.Reports →
        a.action.since = b.action.since → a.sentAt + outageReminderMs ≤ b.sentAt :=
  ⟨by decide +kernel, (outage_messages rfl (by decide +kernel)).2.1⟩

end Monitor

end CryptoZaloBot
