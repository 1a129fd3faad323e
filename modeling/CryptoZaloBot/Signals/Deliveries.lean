import CryptoZaloBot.Base.System
import CryptoZaloBot.Signals.Check
import CryptoZaloBot.Signals.Records

/-!
# Recorded verdicts and delivered messages

Three paths record verdicts: the reply to `/tinhieu`, the daily digest and the periodic
check. A record is to say that the chat got the verdict, at that time and that price. The digest
and the check record what a message carried once Zalo accepted it; the reply records it in any
case (`CryptoZaloBot.Signals.replyActions`), so that a refused reply leaves a record of a
verdict nobody saw (`CryptoZaloBot.Signals.records_not_always_delivered`).

Any number of replies, digests and checks are under way here, and the steps of one –
sends and records – fall anywhere between those of the others
(`CryptoZaloBot.Signals.verdictBot`). A task is *backed* (`CryptoZaloBot.Signals.Backed`): what
it records after a message that was delivered is what the message said. So each record has its
message, as long as a refused reply finds its records made already
(`CryptoZaloBot.Signals.records_of_delivered`).
-/

namespace CryptoZaloBot

namespace Signals

open PriceAlerts (SendOutcome)

/-! ### Messages and steps -/

/-- `isStrong` of the formatter: the line of the coin carries its verdict. -/
def carriesVerdict (signal : CoinSignal) : Bool :=
  signal.result.strong && !signal.result.insufficientData && signal.result.verdict.isSome

/-- A delivered message, by the signals it was made of, and the time they are for. -/
structure SignalMessage where
  chatId : String
  signals : List CoinSignal
  now : ℤ
  deriving DecidableEq

/-- The message carries a verdict for a coin. -/
def SignalMessage.Carries (m : SignalMessage) (symbol : String) (verdict : RecordedVerdict) :
    Prop :=
  ∃ signal ∈ m.signals, carriesVerdict signal = true ∧ signal.symbol = symbol ∧
    signal.result.verdict.bind Verdict.recorded? = some verdict

instance (m : SignalMessage) (symbol : String) (verdict : RecordedVerdict) :
    Decidable (m.Carries symbol verdict) :=
  inferInstanceAs (Decidable (∃ signal ∈ m.signals, _))

/-- **The message says what a record says**: the verdict for the coin, at that price and time. -/
def SignalMessage.Shows (m : SignalMessage) (record : SignalRecord) : Prop :=
  m.now = record.at_ ∧ ∃ signal ∈ m.signals, carriesVerdict signal = true ∧
    signal.symbol = record.symbol ∧
    signal.result.verdict.bind Verdict.recorded? = some record.verdict ∧
    signal.result.priceUsd = record.priceUsd

instance (m : SignalMessage) (record : SignalRecord) : Decidable (m.Shows record) :=
  inferInstanceAs (Decidable (_ ∧ ∃ signal ∈ m.signals, _))

/-- The chat got a message that says what the record says. -/
def WasTold (messages : List SignalMessage) (chatId : String) (record : SignalRecord) : Prop :=
  ∃ m ∈ messages, m.chatId = chatId ∧ m.Shows record

instance (messages : List SignalMessage) (chatId : String) (record : SignalRecord) :
    Decidable (WasTold messages chatId record) :=
  inferInstanceAs (Decidable (∃ m ∈ messages, _))

/-- One step of a reply, a digest or a check. -/
inductive SignalAction where
  | send (chatId : String) (signals : List CoinSignal) (now : ℤ) (outcome : SendOutcome)
  /-- `recordSentVerdicts`, where it succeeds, and what became of the send before. -/
  | record (chatId : String) (signals : List CoinSignal) (now : ℤ) (sent : SendOutcome)
  deriving DecidableEq

/-! ### The three paths -/

/-- A `/tinhieu`, and how its surroundings answer. -/
structure SignalReply where
  chatId : String
  now : ℤ
  /-- The signals to show; `none` for an error or a chat without a watchlist. -/
  signals : Option (List CoinSignal)
  /-- The coin is tracked, so that its verdict can be scored. -/
  tracked : Bool
  send : SendOutcome
  /-- The verdicts can be recorded. -/
  recordOk : Bool

/-- What a reply records: nothing of the send but an error keeps it from that. -/
def SignalReply.recorded (reply : SignalReply) : Option (List CoinSignal) :=
  reply.signals.filter fun _ => reply.tracked && reply.recordOk && decide (reply.send ≠ .threw)

/-- **`replyWithSignals`.** -/
def replyActions (reply : SignalReply) : List SignalAction :=
  .send reply.chatId (reply.signals.getD []) reply.now reply.send ::
    reply.recorded.toList.map fun signals => .record reply.chatId signals reply.now reply.send

/-- What happens when the digest of a subscriber is sent. -/
structure DigestEnv where
  /-- The prices of the watchlist were found. -/
  priced : Bool
  /-- The part with the signals could be built. -/
  sectionBuilt : Bool
  send : SendOutcome
  recordOk : Bool
  deriving DecidableEq

/-- A daily digest: its subscribers with their watchlists, and the signals of all their
coins; `none` if these could not be computed. -/
structure DigestRun where
  now : ℤ
  subscribers : List (String × List String)
  signals : Option (List CoinSignal)
  env : String → DigestEnv

/-- The signals in the digest of one subscriber: `signalsPart`. -/
def shownTo (digest : DigestRun) (subscriber : String × List String) : List CoinSignal :=
  if (digest.env subscriber.1).sectionBuilt then
    subscriber.2.filterMap (bySymbol (digest.signals.getD [])).get?
  else []

/-- **`sendToSubscriber`.** -/
def digestActions (digest : DigestRun) (subscriber : String × List String) :
    List SignalAction :=
  let env := digest.env subscriber.1
  let shown := shownTo digest subscriber
  if env.priced then
    .send subscriber.1 shown digest.now env.send ::
      if env.send = .delivered ∧ shown ≠ [] ∧ env.recordOk then
        [.record subscriber.1 shown digest.now env.send]
      else []
  else []

/-- The steps of one chat in a check. -/
def attemptActions (a : SignalAttempt) : List SignalAction :=
  .send a.chatId a.picked a.runAt a.outcome ::
    if a.recorded then [.record a.chatId a.picked a.runAt a.outcome] else []

/-- What can be under way. -/
inductive Job where
  | reply (reply : SignalReply)
  | digest (digest : DigestRun)
  /-- A check, and what each chat was told before it. -/
  | check (run : SignalsRun) (loaded : SentStates)

def Job.actions (casing : Prices.Casing) : Job → List SignalAction
  | .reply r => replyActions r
  | .digest d => d.subscribers.flatMap (digestActions d)
  | .check run loaded => (checkSignals casing run loaded).attempts.flatMap attemptActions

/-- The signal is one `evaluateSignal` gives. -/
def CoinSignal.Evaluated (signal : CoinSignal) : Prop :=
  ∃ points nowPrice now thresholds, signal.result = evaluateSignal points nowPrice now thresholds

/-- All signals of the job come from `evaluateSignal`. -/
def Job.Evaluated : Job → Prop
  | .reply r => ∀ signal ∈ r.signals.getD [], signal.Evaluated
  | .digest d => ∀ signal ∈ d.signals.getD [], signal.Evaluated
  | .check run _ => ∀ symbols, ∀ signal ∈ (run.lookup symbols).getD [], signal.Evaluated

/-! ### The bot -/

/-- The stored records, and what is left of each task. -/
structure BotState where
  records : String → RecordHash
  tasks : List (List SignalAction)

/-- Nothing is recorded, nothing is under way. -/
def BotState.fresh : BotState where
  records _ := .empty
  tasks := []

inductive BotEvent where
  | start (job : Job)
  /-- The next step of a task. -/
  | step (task : ℕ)

/-- The next step of a task, and what is left after it. -/
def BotState.pending (s : BotState) (task : ℕ) : Option (SignalAction × List SignalAction) :=
  match s.tasks[task]? with
  | some (action :: rest) => some (action, rest)
  | _ => none

/-- The records after a step. -/
def perform (luaSort : LuaSort) (records : String → RecordHash) :
    SignalAction → String → RecordHash
  | .send _ _ _ _ => records
  | .record chatId signals now _ => Function.update records chatId
      (recordVerdicts luaSort (records chatId) (recordsOf signals now) now)

/-- The message a step delivers. -/
def SignalAction.message? : SignalAction → Option SignalMessage
  | .send chatId signals now .delivered => some { chatId, signals, now }
  | _ => none

/-- **Replies, digests and checks, step by step**; the messages that are delivered are
the outputs. -/
def verdictBot (casing : Prices.Casing) (luaSort : LuaSort) :
    System BotState BotEvent SignalMessage where
  legal s
    | .start job => job.Evaluated
    | .step task => (s.pending task).isSome
  next s
    | .start job => { s with tasks := s.tasks ++ [job.actions casing] }
    | .step task =>
      match s.pending task with
      | none => s
      | some (action, rest) =>
        { records := perform luaSort s.records action, tasks := s.tasks.set task rest }
  out s
    | .start _ => []
    | .step task => ((s.pending task).bind fun p => p.1.message?).toList

/-! ### Steps that record what was delivered -/

/-- The messages after a step. -/
def heardAfter (told : List SignalMessage) (action : SignalAction) : List SignalMessage :=
  told ++ action.message?.toList

/-- **What is left of a task is backed**: what it records after a delivered message was told to
its chat, by the messages so far or by the task itself. -/
def Backed (told : List SignalMessage) : List SignalAction → Prop
  | [] => True
  | action :: rest =>
    (∀ chatId signals now, action = .record chatId signals now .delivered →
      ∀ r ∈ recordsOf signals now, WasTold told chatId r) ∧
    Backed (heardAfter told action) rest

theorem WasTold.mono {told told' : List SignalMessage} (hsub : told ⊆ told')
    {chatId : String} {record : SignalRecord}
    (h : WasTold told chatId record) : WasTold told' chatId record := by
  obtain ⟨m, hm, hshows⟩ := h
  exact ⟨m, hsub hm, hshows⟩

/-- More messages back no less. -/
theorem Backed.mono {told told' : List SignalMessage} {actions : List SignalAction}
    (h : Backed told actions) (hsub : told ⊆ told') : Backed told' actions := by
  induction actions generalizing told told' with
  | nil => trivial
  | cons action rest ih =>
    refine ⟨fun chatId signals now heq r hr => (h.1 chatId signals now heq r hr).mono hsub, ?_⟩
    refine ih h.2 (List.append_subset.mpr ⟨fun m hm => ?_, List.subset_append_right _ _⟩)
    exact List.mem_append_left _ (hsub hm)

/-- A send before backed steps. -/
theorem backed_send {told : List SignalMessage} {rest : List SignalAction} (chatId : String)
    (signals : List CoinSignal) (now : ℤ) (outcome : SendOutcome)
    (h : Backed (heardAfter told (.send chatId signals now outcome)) rest) :
    Backed told (.send chatId signals now outcome :: rest) :=
  ⟨fun _ _ _ heq => (nomatch heq), h⟩

/-- **`evaluateSignal` gives no verdict that a message does not carry.** -/
theorem carriesVerdict_of_recorded {signal : CoinSignal} (hsignal : signal.Evaluated)
    {verdict : RecordedVerdict}
    (h : signal.result.verdict.bind Verdict.recorded? = some verdict) :
    carriesVerdict signal = true := by
  obtain ⟨points, nowPrice, now, thresholds, heq⟩ := hsignal
  obtain ⟨v, hv, -⟩ := Option.bind_eq_some_iff.mp h
  rw [heq] at hv
  obtain ⟨hstrong, hdata⟩ := strong_of_verdict hv
  simp [carriesVerdict, heq, hstrong, hdata, hv]

/-- What a delivered message was made of is what it tells. -/
theorem wasTold_of_delivered {told : List SignalMessage} {chatId : String}
    {signals : List CoinSignal} (hsignals : ∀ signal ∈ signals, signal.Evaluated) {now : ℤ}
    {r : SignalRecord} (hr : r ∈ recordsOf signals now) :
    WasTold (heardAfter told (.send chatId signals now .delivered)) chatId r := by
  obtain ⟨signal, hmem, hverdict, heq⟩ := mem_recordsOf.mp hr
  refine ⟨⟨chatId, signals, now⟩, List.mem_append_right told (List.mem_singleton_self _), rfl, ?_⟩
  rw [heq]
  exact ⟨rfl, signal, hmem, carriesVerdict_of_recorded (hsignals signal hmem) hverdict, rfl,
    hverdict, rfl⟩

/-- **A record right after its message** is backed, whatever became of that. -/
theorem backed_record {told : List SignalMessage} {chatId : String}
    {signals : List CoinSignal} (hsignals : ∀ signal ∈ signals, signal.Evaluated) {now : ℤ}
    {outcome : SendOutcome} {rest : List SignalAction} (h : Backed told rest) :
    Backed (heardAfter told (.send chatId signals now outcome))
      (.record chatId signals now outcome :: rest) := by
  refine ⟨fun c g n heq r hr => ?_, h.mono fun m hm => ?_⟩
  · obtain ⟨rfl, rfl, rfl, rfl⟩ := SignalAction.record.inj heq
    exact wasTold_of_delivered hsignals hr
  · exact List.mem_append_left _ (List.mem_append_left _ hm)

/-- A send that nothing follows. -/
theorem Backed.heardAfter {told : List SignalMessage} {rest : List SignalAction}
    (h : Backed told rest) (action : SignalAction) : Backed (heardAfter told action) rest :=
  h.mono (List.subset_append_left told _)

/-- Blocks that are backed on their own. -/
theorem backed_flatMap {α : Type*} {told : List SignalMessage} {block : α → List SignalAction}
    {xs : List α} (h : ∀ x ∈ xs, ∀ rest, Backed told rest → Backed told (block x ++ rest)) :
    Backed told (xs.flatMap block) := by
  induction xs with
  | nil => trivial
  | cons x xs ih =>
    rw [List.flatMap_cons]
    exact h x List.mem_cons_self _ (ih fun y hy => h y (List.mem_cons_of_mem x hy))

/-! ### The three paths are backed -/

theorem mem_bySymbol {signals : List CoinSignal} {symbol : String} {signal : CoinSignal}
    (h : (bySymbol signals).get? symbol = some signal) : signal ∈ signals :=
  (get?_bySymbol h).1

theorem backed_digest (told : List SignalMessage) {digest : DigestRun}
    (hsignals : ∀ signal ∈ digest.signals.getD [], signal.Evaluated) :
    Backed told (digest.subscribers.flatMap (digestActions digest)) := by
  refine backed_flatMap fun subscriber _ rest hrest => ?_
  have hshown : ∀ signal ∈ shownTo digest subscriber, signal.Evaluated := by
    intro signal hmem
    rw [shownTo] at hmem
    split at hmem
    · obtain ⟨symbol, -, hget⟩ := List.mem_filterMap.mp hmem
      exact hsignals signal (mem_bySymbol hget)
    · cases hmem
  rw [digestActions]
  split
  · rw [List.cons_append]
    refine backed_send _ _ _ _ ?_
    split
    · exact backed_record hshown hrest
    · exact hrest.heardAfter _
  · exact hrest

theorem backed_check (casing : Prices.Casing) (told : List SignalMessage) {run : SignalsRun}
    {loaded : SentStates}
    (hsignals : ∀ symbols, ∀ signal ∈ (run.lookup symbols).getD [], signal.Evaluated) :
    Backed told ((checkSignals casing run loaded).attempts.flatMap attemptActions) := by
  refine backed_flatMap fun a ha rest hrest => ?_
  obtain ⟨signals, watchlist, due, heq⟩ := exists_due_of_attempt ha
  have hpicked : ∀ signal ∈ a.picked, signal.Evaluated := by
    intro signal hmem
    rw [heq] at hmem
    obtain ⟨symbol, -, hget⟩ := List.mem_filterMap.mp (mem_selectCoinsToAlert.mp hmem).2.1
    refine hsignals (watchedSymbols casing run) signal ?_
    rw [due.lookup]
    exact mem_bySymbol hget
  rw [attemptActions, List.cons_append]
  refine backed_send _ _ _ _ ?_
  split
  · exact backed_record hpicked hrest
  · exact hrest.heardAfter _

theorem backed_reply {told : List SignalMessage} {reply : SignalReply}
    (hsignals : ∀ signal ∈ reply.signals.getD [], signal.Evaluated) :
    Backed told (replyActions reply) := by
  rw [replyActions]
  refine backed_send _ _ _ _ ?_
  cases hrecorded : reply.recorded with
  | none => trivial
  | some signals =>
    have hsome : reply.signals = some signals := Option.eq_some_of_filter_eq_some hrecorded
    rw [hsome, Option.getD_some] at hsignals ⊢
    exact backed_record hsignals trivial

theorem backed_actions (casing : Prices.Casing) (told : List SignalMessage) {job : Job}
    (hjob : job.Evaluated) : Backed told (job.actions casing) := by
  cases job with
  | reply r => exact backed_reply hjob
  | digest d => exact backed_digest told hjob
  | check run loaded => exact backed_check casing told hjob

/-! ### Records without a message -/

/-- **What is recorded was sent, or is recorded already**: after a send that was not accepted each
verdict finds a record of its coin, verdict and day. -/
def SentOrKnown (records : String → RecordHash) : SignalAction → Prop
  | .send _ _ _ _ => True
  | .record chatId signals now sent => sent = .delivered ∨
      ∀ r ∈ recordsOf signals now, ((records chatId).get? r.field).isSome = true

instance (records : String → RecordHash) : ∀ action, Decidable (SentOrKnown records action)
  | .send _ _ _ _ => .isTrue trivial
  | .record _ _ _ sent => inferInstanceAs (Decidable (sent = .delivered ∨ _))

/-- The next step of the task is sent or known. -/
def RepliesAccepted (s : BotState) : BotEvent → Prop
  | .start _ => True
  | .step task => ∀ p ∈ s.pending task, SentOrKnown s.records p.1

instance (s : BotState) : ∀ e, Decidable (RepliesAccepted s e)
  | .start _ => .isTrue trivial
  | .step task => inferInstanceAs (Decidable (∀ p ∈ s.pending task, SentOrKnown s.records p.1))

/-- Each record has a message behind it, and each task is backed. -/
structure Receipts (p : BotState × List SignalMessage) : Prop where
  records : ∀ chatId field value, (p.1.records chatId).get? field = some value →
    WasTold p.2 chatId (recordOf (field, value)) ∧ (recordOf (field, value)).field = field
  tasks : ∀ task ∈ p.1.tasks, Backed p.2 task

section Bot

variable {casing : Prices.Casing} {luaSort : LuaSort} {p : BotState × List SignalMessage}

/-- A step of a backed task records what was delivered. -/
theorem Receipts.perform (h : Receipts p) {action : SignalAction} {rest : List SignalAction}
    (hbacked : Backed p.2 (action :: rest)) (hknown : SentOrKnown p.1.records action)
    (chatId : String) (field : RecordField) (value : RecordValue)
    (hfield : (Signals.perform luaSort p.1.records action chatId).get? field = some value) :
    WasTold (heardAfter p.2 action) chatId (recordOf (field, value)) ∧
      (recordOf (field, value)).field = field := by
  have hbefore : (p.1.records chatId).get? field = some value →
      WasTold (heardAfter p.2 action) chatId (recordOf (field, value)) ∧
        (recordOf (field, value)).field = field := fun hold =>
    (h.records chatId field value hold).imp_left (WasTold.mono (List.subset_append_left _ _))
  cases action with
  | send => exact hbefore hfield
  | record chat signals now sent =>
    by_cases hchat : chatId = chat
    · subst hchat
      rw [Signals.perform, Function.update_self] at hfield
      rcases hknown with rfl | hknown
      · rcases get?_recordVerdicts hfield with hold | ⟨r, hr, hrfield, hrvalue⟩
        · exact hbefore hold
        · rw [SignalRecord.recordOf_eq hrfield hrvalue]
          exact ⟨(hbacked.1 chatId signals now rfl r hr).mono (List.subset_append_left _ _),
            hrfield⟩
      · exact hbefore (get?_recordVerdicts_of_known hknown hfield)
    · rw [Signals.perform, Function.update_of_ne hchat] at hfield
      exact hbefore hfield

theorem pending_eq_some {s : BotState} {task : ℕ} {action : SignalAction}
    {rest : List SignalAction} (h : s.pending task = some (action, rest)) :
    action :: rest ∈ s.tasks := by
  rw [BotState.pending] at h
  split at h
  · rename_i heq
    obtain ⟨rfl, rfl⟩ := Prod.mk.inj (Option.some.inj h)
    exact List.mem_of_getElem? heq
  · cases h

/-- **Every step keeps the receipts.** -/
theorem Receipts.next {s : BotState} {told : List SignalMessage} {e : BotEvent}
    (h : Receipts (s, told))
    (hleg : ((verdictBot casing luaSort).restrict RepliesAccepted).legal s e) :
    Receipts ((verdictBot casing luaSort).next s e,
      told ++ (verdictBot casing luaSort).out s e) := by
  obtain ⟨hlegal, haccepted⟩ := hleg
  cases e with
  | start job =>
    have hstart : Receipts (⟨s.records, s.tasks ++ [job.actions casing]⟩, told) := by
      refine ⟨h.records, fun task htask => ?_⟩
      rcases List.mem_append.mp htask with htask | htask
      · exact h.tasks task htask
      · rw [List.mem_singleton.mp htask]
        exact backed_actions casing told hlegal
    simpa [verdictBot] using hstart
  | step task =>
    obtain ⟨⟨action, rest⟩, hpending⟩ := Option.isSome_iff_exists.mp hlegal
    have hbacked := h.tasks _ (pending_eq_some hpending)
    have hstep : Receipts (⟨Signals.perform luaSort s.records action, s.tasks.set task rest⟩,
        heardAfter told action) := by
      refine ⟨h.perform hbacked (haccepted _ hpending), fun task' htask' => ?_⟩
      rcases List.mem_or_eq_of_mem_set htask' with hmem | rfl
      · exact (h.tasks task' hmem).heardAfter action
      · exact hbacked.2
    simpa [verdictBot, hpending, heardAfter] using hstep

end Bot

/-- **Records tell of delivered messages**, in every run in which a reply that was not accepted
records only verdicts that are recorded already: each record is of the coin, the verdict, the price
and the time of a message that its chat got. -/
theorem records_of_delivered (casing : Prices.Casing) (luaSort : LuaSort)
    (events : List BotEvent)
    (hrun : ((verdictBot casing luaSort).restrict RepliesAccepted).Run .fresh events)
    (chatId : String) (field : RecordField) (value : RecordValue)
    (hfield : (((verdictBot casing luaSort).final .fresh events).records chatId).get? field =
      some value) :
    WasTold ((verdictBot casing luaSort).outputs .fresh events) chatId (recordOf (field, value)) ∧
      (recordOf (field, value)).field = field := by
  have hstart : Receipts (.fresh, []) :=
    ⟨fun _ _ _ h => (nomatch h), fun _ h => absurd h List.not_mem_nil⟩
  have hfinal := System.Run.history (M := (verdictBot casing luaSort).restrict RepliesAccepted)
    (J := fun s told => Receipts (s, told)) (fun _ _ _ h hleg => h.next hleg) hstart hrun
  rw [System.final_restrict, System.outputs_restrict, List.nil_append] at hfinal
  exact hfinal.records chatId field value hfield

def flatHistory : List PricePoint := [⟨0, .finite 100⟩, ⟨7 * dayMs, .finite 100⟩]

/-- A price that fell by ten percent in a day, to the bottom of its range. -/
def dip : CoinSignal where
  symbol := "btc"
  result := evaluateSignal flatHistory (.finite 90) (8 * dayMs) defaultThresholds

/-- A `/tinhieu btc` about it. -/
def dipReply (send : SendOutcome) : SignalReply where
  chatId := "chat"
  now := 8 * dayMs
  signals := some [dip]
  tracked := true
  send := send
  recordOk := true

/-- The reply is sent, and its verdict recorded. -/
def dipEvents (send : SendOutcome) : List BotEvent :=
  [.start (.reply (dipReply send)), .step 0, .step 0]

/-- A second reply of the day is refused. -/
def dipAgain : List BotEvent :=
  dipEvents .delivered ++ [.start (.reply (dipReply .refused)), .step 1, .step 1]

theorem dip_evaluated (send : SendOutcome) : (Job.reply (dipReply send)).Evaluated := by
  intro signal hsignal
  rw [List.mem_singleton.mp hsignal]
  exact ⟨flatHistory, .finite 90, 8 * dayMs, defaultThresholds, rfl⟩

theorem records_of_delivered_dip :
    WasTold ((verdictBot Prices.asciiCasing insertionLuaSort).outputs .fresh dipAgain) "chat"
        ⟨"btc", .buy, .finite 90, 8 * dayMs⟩ ∧
      (recordOf (⟨"btc", .buy, 8⟩, ⟨.finite 90, 8 * dayMs⟩)).field = ⟨"btc", .buy, 8⟩ :=
  records_of_delivered Prices.asciiCasing insertionLuaSort dipAgain
    ⟨⟨dip_evaluated _, trivial⟩, ⟨rfl, by decide +kernel⟩, ⟨rfl, by decide +kernel⟩,
      ⟨dip_evaluated _, trivial⟩, ⟨rfl, by decide +kernel⟩, ⟨rfl, by decide +kernel⟩, trivial⟩
    "chat" ⟨"btc", .buy, 8⟩ ⟨.finite 90, 8 * dayMs⟩ (by decide +kernel)

/-- Zalo refuses the reply, and its verdict is recorded all the same. -/
theorem records_not_always_delivered :
    ¬∀ (casing : Prices.Casing) (luaSort : LuaSort) (events : List BotEvent),
      (verdictBot casing luaSort).Run .fresh events → ∀ chatId (field : RecordField),
        ((((verdictBot casing luaSort).final .fresh events).records chatId).get? field).isSome →
        ∃ m ∈ (verdictBot casing luaSort).outputs .fresh events, m.chatId = chatId ∧
          m.Carries field.symbol field.verdict := by
  intro h
  have htold := h Prices.asciiCasing insertionLuaSort (dipEvents .refused)
    ⟨dip_evaluated _, rfl, rfl, trivial⟩ "chat" ⟨"btc", .buy, 8⟩
    (by decide +kernel)
  revert htold
  decide +kernel

end Signals

end CryptoZaloBot
