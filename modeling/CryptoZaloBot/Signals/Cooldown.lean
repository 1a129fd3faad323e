import CryptoZaloBot.Signals.Told

/-!
# An hour between messages

A chat is to get at most one proactive message an hour. What the code keeps of a message
is the *start* of the run that sent it, while the message goes out later in that run,
after the prices were looked up and other chats had their turn. An hour after the start
of a run is therefore less than an hour after its messages: a run that starts then, and
is quicker, sends the next one too early
(`CryptoZaloBot.Signals.messages_not_always_apart`).

What matters is the delay between the start of a run and its message to a chat: the
messages are an hour apart exactly if each run with a message for a chat whose delay is
shorter than that of the chat's last message starts that much later than the cooldown asks
(`CryptoZaloBot.Signals.messages_apart`). A run that picks nothing for the chat, or whose
send is not accepted, is free to start and end at any time.
-/

namespace CryptoZaloBot

namespace Signals

/-- How long after the start of its run a message went out. -/
def SignalAttempt.delay (m : SignalAttempt) : ℤ := m.sentAt - m.runAt

/-- How long after its start a run gets to the chat. -/
def SignalsRun.delayTo (run : SignalsRun) (chatId : String) : ℤ :=
  (run.env chatId).sentAt - run.startedAt

instance (casing : Prices.Casing) (run : SignalsRun) (loaded : SentStates)
    (signals : List CoinSignal) (entry : String × List String) :
    Decidable (IsReached casing run loaded signals entry) :=
  decidable_of_iff (entry.1 ∉ run.disabled ∧ pickedFor casing run signals loaded entry ≠ [] ∧
      isBackedOff (loaded.previous entry.1) run.startedAt = false ∧
      (run.env entry.1).elapsedMs ≤ signalsSendBudgetMs)
    ⟨fun ⟨enabled, picked, notBackedOff, budget⟩ => ⟨enabled, picked, notBackedOff, budget⟩,
      fun h => ⟨h.enabled, h.picked, h.notBackedOff, h.budget⟩⟩

/-- **The run has a message for the chat** of an entry: it gets to the chat's turn, picks a
coin, is held back by no gate, and the send is accepted. -/
def HasMessage (casing : Prices.Casing) (run : SignalsRun) (loaded : SentStates)
    (entry : String × List String) : Prop :=
  run.lock = .acquired ∧ run.storesRead = true ∧ (run.env entry.1).send = .delivered ∧
    ∃ signals ∈ run.lookup (watchedSymbols casing run), IsReached casing run loaded signals entry

instance (casing : Prices.Casing) (run : SignalsRun) (loaded : SentStates)
    (entry : String × List String) : Decidable (HasMessage casing run loaded entry) :=
  inferInstanceAs (Decidable (_ ∧ _ ∧ _ ∧ ∃ signals ∈ run.lookup (watchedSymbols casing run), _))

/-- **A quicker run starts later**: if it has a message for a chat and gets to it quicker
than the run that sent the chat its last message did, it starts at least that much after
the chat's cooldown. -/
def LaterIfQuicker (casing : Prices.Casing) (p : SignalsState × List SignalAttempt)
    (run : SignalsRun) : Prop :=
  ∀ entry ∈ run.watchlists.entries, HasMessage casing run p.1.sentStates entry →
    ∀ m ∈ (deliveredTo entry.1 p.2).getLast?, run.delayTo entry.1 < m.delay →
      m.delay - run.delayTo entry.1 ≤ run.startedAt - (m.runAt + sendCooldownMs)

instance (casing : Prices.Casing) (p : SignalsState × List SignalAttempt) (run : SignalsRun) :
    Decidable (LaterIfQuicker casing p run) :=
  inferInstanceAs (Decidable (∀ entry ∈ run.watchlists.entries, _ → _))

/-- The messages of a chat are an hour apart. -/
def HourApart (messages : List SignalAttempt) : Prop :=
  messages.Pairwise fun m m' => m.sentAt + sendCooldownMs ≤ m'.sentAt

instance (messages : List SignalAttempt) : Decidable (HourApart messages) :=
  inferInstanceAs (Decidable (messages.Pairwise _))

theorem hourApart_append_singleton {messages : List SignalAttempt} {m : SignalAttempt} :
    HourApart (messages ++ [m]) ↔ HourApart messages ∧
      ∀ last ∈ messages.getLast?, last.sentAt + sendCooldownMs ≤ m.sentAt := by
  constructor
  · intro h
    obtain ⟨hmessages, -, hacross⟩ := List.pairwise_append.mp h
    refine ⟨hmessages, fun last hlast => ?_⟩
    exact hacross last (List.mem_of_getLast? hlast) m (List.mem_singleton_self m)
  · rintro ⟨h, hlast⟩
    refine List.pairwise_append.mpr ⟨h, List.pairwise_singleton _ _, ?_⟩
    intro m' hm' m'' hm''
    rw [List.mem_singleton.mp hm'']
    rcases List.eq_nil_or_concat' messages with rfl | ⟨before, last, rfl⟩
    · cases hm'
    · have hnext := hlast last (by simp)
      rcases List.mem_append.mp hm' with hm' | hm'
      · have hbefore := (List.pairwise_append.mp h).2.2 m' hm' last (List.mem_singleton_self last)
        have hpos : (0 : ℤ) ≤ sendCooldownMs := by decide
        omega
      · rwa [List.mem_singleton.mp hm']

section Step

variable {casing : Prices.Casing} {s : SignalsState} {h : List SignalAttempt}
  {run : SignalsRun} {chatId : String}

/-- A run with a message for a chat sends it. -/
theorem delivered_of_hasMessage {loaded : SentStates} {entry : String × List String}
    (hentry : entry ∈ run.watchlists.entries) (hmessage : HasMessage casing run loaded entry) :
    ∃ m, deliveredTo entry.1 (checkSignals casing run loaded).attempts = [m] ∧
      m.runAt = run.startedAt ∧ m.delay = run.delayTo entry.1 := by
  obtain ⟨hlock, hread, hsend, signals, hlookup, hreached⟩ := hmessage
  have hdue : IsDue casing run loaded entry.1 signals entry.2 :=
    ⟨hlock, hread, hlookup, hentry, hreached⟩
  refine ⟨attemptTo run entry.1 (pickedFor casing run signals loaded entry), ?_, rfl, rfl⟩
  rw [deliveredTo_eq_filter, attempt_of_due hdue]
  exact List.filter_eq_self.mpr fun a ha => by
    rw [List.mem_singleton.mp ha]
    exact decide_eq_true hsend

/-- **The message of a run** is that of a chat it has a message for, and the cooldown of the
chat is over when the run starts. -/
theorem exists_hasMessage_of_delivered {loaded : SentStates} {m : SignalAttempt}
    (hm : m ∈ deliveredTo chatId (checkSignals casing run loaded).attempts) :
    (∃ watchlist, (chatId, watchlist) ∈ run.watchlists.entries ∧
      HasMessage casing run loaded (chatId, watchlist)) ∧
    isCoolingDown (loaded.previous chatId) run.startedAt = false := by
  obtain ⟨hattempt, hchat⟩ := List.mem_filter.mp hm
  obtain ⟨rfl, hdelivered⟩ := of_decide_eq_true hchat
  obtain ⟨signals, watchlist, due, heq⟩ := exists_due_of_attempt hattempt
  refine ⟨⟨watchlist, due.listed, due.lock, due.storesRead, ?_, signals, due.lookup,
    due.reached⟩, isCoolingDown_of_due due⟩
  exact (congrArg SignalAttempt.outcome heq).symm.trans hdelivered

/-- **One run** keeps the messages apart: the cooldown is over when it starts, and if it is
quicker it starts that much later. -/
theorem HourApart.checkSignals (hapart : HourApart (deliveredTo chatId h))
    (htold : ChatTold (s.sentStates.previous chatId) (deliveredTo chatId h) s.endedAt)
    (hlater : LaterIfQuicker casing (s, h) run) :
    HourApart (deliveredTo chatId h ++
      deliveredTo chatId (Signals.checkSignals casing run s.sentStates).attempts) := by
  cases hsent : deliveredTo chatId (Signals.checkSignals casing run s.sentStates).attempts with
  | nil => rwa [List.append_nil]
  | cons m rest =>
    have hm : m ∈ deliveredTo chatId (Signals.checkSignals casing run s.sentStates).attempts :=
      hsent ▸ List.mem_cons_self
    obtain ⟨⟨watchlist, hentry, hmessage⟩, hcooled⟩ := exists_hasMessage_of_delivered hm
    obtain ⟨m', hsent', hrun, hdelay⟩ := delivered_of_hasMessage hentry hmessage
    rw [← hsent, hsent']
    refine hourApart_append_singleton.mpr ⟨hapart, fun last hlast => ?_⟩
    have hstart : last.runAt + sendCooldownMs ≤ run.startedAt := by
      refine isCoolingDown_eq_false.mp hcooled last.runAt ?_
      rw [htold.lastSent, hlast]
      rfl
    have hbound := hlater (chatId, watchlist) hentry hmessage last hlast
    rw [← hdelay] at hbound
    rw [SignalAttempt.delay, SignalAttempt.delay] at hbound
    omega

/-- A run that is quicker and starts too early sends too early. -/
theorem laterIfQuicker_of_hourApart
    (hapart : ∀ chatId, HourApart (deliveredTo chatId h ++
      deliveredTo chatId (Signals.checkSignals casing run s.sentStates).attempts)) :
    LaterIfQuicker casing (s, h) run := by
  intro entry hentry hmessage last hlast _
  obtain ⟨m, hsent, hrun, hdelay⟩ := delivered_of_hasMessage hentry hmessage
  have happ := hapart entry.1
  rw [hsent] at happ
  have hbound := (hourApart_append_singleton.mp happ).2 last hlast
  rw [← hdelay, SignalAttempt.delay, SignalAttempt.delay]
  omega

end Step

/-- Each chat's state goes with its history, and its messages are an hour apart. -/
def Paced (p : SignalsState × List SignalAttempt) : Prop :=
  ∀ chatId, ChatTold (p.1.sentStates.previous chatId) (deliveredTo chatId p.2) p.1.endedAt ∧
    HourApart (deliveredTo chatId p.2)

theorem keeps_paced (casing : Prices.Casing) :
    ((signalsRuns casing).recorded.restrict (LaterIfQuicker casing)).Keeps Paced := by
  rintro ⟨s, h⟩ run hs ⟨⟨hclock, ⟨hends, -⟩, hsaved⟩, hlater⟩ chatId
  obtain ⟨htold, hapart⟩ := hs chatId
  show ChatTold _ (deliveredTo chatId (h ++ _)) _ ∧ HourApart (deliveredTo chatId (h ++ _))
  rw [deliveredTo_append]
  exact ⟨htold.checkSignals hclock hends hsaved, hapart.checkSignals htold hlater⟩

/-- **Messages are an hour apart exactly if a quicker run starts later.** -/
theorem messages_apart (casing : Prices.Casing) (clock : ℤ) (runs : List SignalsRun)
    (hrun : (signalsRuns casing).Run (.fresh clock) runs) :
    (∀ chatId, HourApart (deliveredTo chatId
        ((signalsRuns casing).outputs (.fresh clock) runs))) ↔
      ((signalsRuns casing).recorded.restrict (LaterIfQuicker casing)).Run
        (.fresh clock, []) runs := by
  constructor
  · intro hapart
    refine System.run_restrict_iff.mpr ⟨(System.run_recorded _ _ _).mpr hrun, ?_⟩
    rintro pre run post rfl
    rw [System.final_recorded, List.nil_append]
    refine laterIfQuicker_of_hourApart fun chatId => ?_
    have hall := hapart chatId
    rw [System.outputs_append, System.outputs_cons, ← List.append_assoc, deliveredTo_append,
      deliveredTo_append] at hall
    exact (List.pairwise_append.mp hall).1
  · intro hlater chatId
    have hstart : Paced (.fresh clock, []) := fun chatId => ⟨.fresh clock, List.Pairwise.nil⟩
    have hfinal := System.Run.invariant (keeps_paced casing) hstart hlater
    rw [System.final_restrict, System.final_recorded] at hfinal
    exact (hfinal chatId).2

/-- A slow run, an early one without news, and a quick one that starts 29 seconds after the
cooldown. -/
def pacedRuns : List SignalsRun :=
  [btcRun 0 30000 9, btcRun hourMs 1000 9, btcRun (hourMs + 29000) 1000 15]

theorem messages_apart_of_pacedRuns :
    HourApart (deliveredTo "chat"
      ((signalsRuns Prices.asciiCasing).outputs (.fresh 0) pacedRuns)) :=
  (messages_apart Prices.asciiCasing 0 pacedRuns (by decide +kernel)).mpr (by decide +kernel) "chat"

/-- Thirty seconds into a run the chat gets a message; the run an hour later gets to it
within one second. -/
theorem messages_not_always_apart :
    ¬∀ (casing : Prices.Casing) (clock : ℤ) (runs : List SignalsRun),
      (signalsRuns casing).Run (.fresh clock) runs → ∀ chatId,
        HourApart (deliveredTo chatId ((signalsRuns casing).outputs (.fresh clock) runs)) := by
  intro h
  have hapart := h Prices.asciiCasing 0 [btcRun 0 30000 9, btcRun hourMs 1000 15]
    (by decide +kernel) "chat"
  revert hapart
  decide +kernel

end Signals

end CryptoZaloBot
