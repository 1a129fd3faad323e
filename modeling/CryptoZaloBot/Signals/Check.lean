import CryptoZaloBot.Base.InsertionMap
import CryptoZaloBot.PriceAlerts.Check
import CryptoZaloBot.Prices.Lookup
import CryptoZaloBot.Signals.Repeat

/-!
# Signals runs

`SignalsController.checkSignals`: every half hour the watched coins are priced and
evaluated, and each chat is sent at most one message about the coins it should know
about. Everything around a run is arbitrary: which prices could be looked up and what
was made of them, which sends are accepted, which writes succeed, how long it all takes.

A run reads what each chat was told once, before its loop, and the turn of a chat
depends on that chat alone (`CryptoZaloBot.Signals.chatTurn`). The one rule across chats
is `CryptoZaloBot.Signals.recordRefusals`: a refusal counts only if some other message
was accepted. What a run does to a chat is told once, in
`CryptoZaloBot.Signals.chatChange_checkSignals`.
-/

namespace CryptoZaloBot

namespace Signals

open PriceAlerts (SendOutcome)

/-- The send phase of one run stops after this long. -/
def signalsSendBudgetMs : ℤ := 20000

/-! ### A run and its surroundings -/

/-- What happens when the turn of a chat comes. -/
structure ChatEnv where
  /-- The time since the run's send phase started. -/
  elapsedMs : ℤ
  send : SendOutcome
  sentAt : ℤ
  /-- What the chat was told could be written. -/
  stateSaved : Bool
  /-- The verdicts it was sent could be recorded. -/
  verdictsRecorded : Bool
  /-- A refusal could be written. -/
  refusalSaved : Bool
  deriving DecidableEq

inductive LockAnswer where
  | acquired
  /-- A previous run still holds the lock. -/
  | held
  | failed
  deriving DecidableEq

/-- One run: when it starts and ends, what it reads, and what its surroundings answer. -/
structure SignalsRun where
  startedAt : ℤ
  endedAt : ℤ
  lock : LockAnswer
  /-- What the run reads first could be read. -/
  storesRead : Bool
  /-- The mirrored watchlists, by chat. -/
  watchlists : InsertionMap String (List String)
  /-- Coins tracked without being on a watchlist. -/
  extras : List String
  /-- The chats that turned proactive signals off. -/
  disabled : List String
  /-- The signals of the coins that could be priced; `none` if the lookup or the
  evaluation failed. -/
  lookup : List String → Option (List CoinSignal)
  env : String → ChatEnv

/-- One send. -/
structure SignalAttempt where
  chatId : String
  picked : List CoinSignal
  /-- The start of the run. -/
  runAt : ℤ
  sentAt : ℤ
  outcome : SendOutcome
  /-- Its verdicts were recorded. -/
  recorded : Bool
  deriving DecidableEq

inductive SignalRunOutcome where
  | healthy
  | skipped
  | failed
  deriving DecidableEq

structure SignalRunSummary where
  outcome : SignalRunOutcome
  coins : ℕ := 0
  chatsAlerted : ℕ := 0
  failures : ℕ := 0
  deferred : ℕ := 0
  deriving DecidableEq

/-- What each chat was last told, as stored. -/
abbrev SentStates := String → Option ChatSignalState

def SentStates.previous (states : SentStates) (chatId : String) : ChatSignalState :=
  (states chatId).getD freshState

/-- `setSentState`, once for each entry. -/
def setSentStates (states : SentStates) (entries : List (String × ChatSignalState)) :
    SentStates :=
  writeAll Prod.fst (fun entry => some entry.2) states entries

/-! ### The turn of a chat -/

/-- What the turn of a chat leads to. -/
structure Turn where
  attempt : Option SignalAttempt := none
  written : Option ChatSignalState := none
  refused : Bool := false
  chatsAlerted : ℕ := 0
  failures : ℕ := 0
  deferred : ℕ := 0

section Turn

variable (casing : Prices.Casing) (run : SignalsRun) (signals : List CoinSignal)
  (loaded : SentStates)

/-- `bySymbol`. -/
def bySymbol : InsertionMap String CoinSignal :=
  .ofList (signals.map fun signal => (signal.symbol, signal))

/-- The signals of a chat, in the order of its watchlist. -/
def chatSignals (watchlist : List String) : List CoinSignal :=
  watchlist.filterMap fun symbol => (bySymbol signals).get? (casing.toLowerCase symbol)

/-- The coins picked for a chat. -/
def pickedFor (entry : String × List String) : List CoinSignal :=
  selectCoinsToAlert (chatSignals casing signals entry.2) (loaded.previous entry.1) run.startedAt

/-- **`alertChat`**, and what the loop makes of its errors. State and verdict records are
written only once Zalo accepted the message. -/
def alertChat (chatId : String) (picked : List CoinSignal) (previous : ChatSignalState) : Turn :=
  let env := run.env chatId
  let attempt : SignalAttempt :=
    { chatId, picked, runAt := run.startedAt, sentAt := env.sentAt, outcome := env.send,
      recorded := false }
  match env.send with
  | .threw => { attempt := some attempt, failures := 1 }
  | .refused => { attempt := some attempt, refused := true, failures := 1 }
  | .delivered =>
    if env.stateSaved then
      -- Failed bookkeeping is logged, and does not undo the message.
      { attempt := some { attempt with recorded := env.verdictsRecorded }
        written := some (recordSent previous picked run.startedAt)
        chatsAlerted := 1 }
    else { attempt := some attempt, chatsAlerted := 1, failures := 1 }

/-- **One turn of the loop.** -/
def chatTurn (entry : String × List String) : Turn :=
  let picked := pickedFor casing run signals loaded entry
  if entry.1 ∈ run.disabled then {}
  else if picked = [] then {}
  else if isBackedOff (loaded.previous entry.1) run.startedAt then {}
  else if signalsSendBudgetMs < (run.env entry.1).elapsedMs then { deferred := 1 }
  else alertChat run entry.1 picked (loaded.previous entry.1)

end Turn

/-! ### The run -/

/-- What the loop carries along. -/
structure SendLoop where
  sentStates : SentStates
  attempts : List SignalAttempt
  /-- The refused chats, with what they were told before. -/
  refused : List (String × ChatSignalState)
  summary : SignalRunSummary

section Run

variable (casing : Prices.Casing) (run : SignalsRun) (loaded : SentStates)

/-- The loop after the turn of a chat. -/
def sendToChat (signals : List CoinSignal) (loop : SendLoop) (entry : String × List String) :
    SendLoop :=
  let turn := chatTurn casing run signals loaded entry
  { sentStates := setSentStates loop.sentStates (turn.written.toList.map (entry.1, ·))
    attempts := loop.attempts ++ turn.attempt.toList
    refused := loop.refused ++ if turn.refused then [(entry.1, loaded.previous entry.1)] else []
    summary :=
      { loop.summary with
        chatsAlerted := loop.summary.chatsAlerted + turn.chatsAlerted
        failures := loop.summary.failures + turn.failures
        deferred := loop.summary.deferred + turn.deferred } }

/-- **`recordRefusals`**: when no message at all was accepted, Zalo may be down, and no
chat is blamed. -/
def recordRefusals (loop : SendLoop) : SendLoop :=
  if loop.summary.chatsAlerted = 0 then loop
  else
    { loop with
      sentStates := setSentStates loop.sentStates
        ((loop.refused.filter fun entry => (run.env entry.1).refusalSaved).map fun entry =>
          (entry.1, recordFailed entry.2 run.startedAt)) }

/-- The coins of a run. -/
def watchedSymbols : List String :=
  unique ((run.watchlists.entries.flatMap Prod.snd ++ run.extras).map casing.toLowerCase)

/-- **`runCheck`.** If the lookup fails nothing is sent and nothing is saved. -/
def runCheck : SendLoop :=
  let symbols := watchedSymbols casing run
  let start : SendLoop :=
    { sentStates := loaded, attempts := [], refused := []
      summary := { outcome := .healthy, coins := symbols.length } }
  if symbols = [] then start
  else
    match run.lookup symbols with
    | none => { start with summary := { start.summary with outcome := .failed } }
    | some signals =>
      recordRefusals run (run.watchlists.entries.foldl (sendToChat casing run loaded signals) start)

/-- **`checkSignals`.** -/
def checkSignals : SendLoop :=
  let stopped (outcome : SignalRunOutcome) : SendLoop :=
    { sentStates := loaded, attempts := [], refused := [], summary := { outcome } }
  match run.lock with
  | .held => stopped .skipped
  | .failed => stopped .failed
  | .acquired => if run.storesRead then runCheck casing run loaded else stopped .failed

end Run

/-! ### The signals of a chat -/

theorem get?_bySymbol {signals : List CoinSignal} {symbol : String} {signal : CoinSignal}
    (h : (bySymbol signals).get? symbol = some signal) :
    signal ∈ signals ∧ signal.symbol = symbol := by
  obtain ⟨g, hg, heq⟩ := List.mem_map.mp (InsertionMap.mem_of_get?_ofList h)
  obtain ⟨rfl, rfl⟩ := Prod.mk.inj heq
  exact ⟨hg, rfl⟩

/-- A chat sees one signal per coin. -/
theorem chatSignals_functional {casing : Prices.Casing} {signals : List CoinSignal}
    {watchlist : List String} {g g' : CoinSignal} (h : g ∈ chatSignals casing signals watchlist)
    (h' : g' ∈ chatSignals casing signals watchlist) (heq : g.symbol = g'.symbol) : g = g' := by
  obtain ⟨symbol, -, hget⟩ := List.mem_filterMap.mp h
  obtain ⟨symbol', -, hget'⟩ := List.mem_filterMap.mp h'
  rw [← (get?_bySymbol hget).2, heq, (get?_bySymbol hget').2] at hget
  exact Option.some.inj (hget.symm.trans hget')

/-! ### When a chat is sent a message -/

section Due

variable (casing : Prices.Casing) (run : SignalsRun) (loaded : SentStates)

/-- **The gates of a chat's turn**: it is not turned off, a coin is picked for it, and
neither its refusals nor the send budget hold it back. -/
structure IsReached (signals : List CoinSignal) (entry : String × List String) : Prop where
  enabled : entry.1 ∉ run.disabled
  picked : pickedFor casing run signals loaded entry ≠ []
  notBackedOff : isBackedOff (loaded.previous entry.1) run.startedAt = false
  budget : (run.env entry.1).elapsedMs ≤ signalsSendBudgetMs

/-- **A chat is due a message**: the run gets as far as its turn, and through its
gates. -/
structure IsDue (chatId : String) (signals : List CoinSignal) (watchlist : List String) :
    Prop where
  lock : run.lock = .acquired
  storesRead : run.storesRead = true
  lookup : run.lookup (watchedSymbols casing run) = some signals
  listed : (chatId, watchlist) ∈ run.watchlists.entries
  reached : IsReached casing run loaded signals (chatId, watchlist)

/-- The send of a chat that is due. -/
def attemptTo (chatId : String) (picked : List CoinSignal) : SignalAttempt :=
  let env := run.env chatId
  { chatId, picked, runAt := run.startedAt, sentAt := env.sentAt, outcome := env.send
    recorded := decide (env.send = .delivered) && env.stateSaved && env.verdictsRecorded }

/-- What a chat counts as told after it was due, if some message of the run was
`accepted`. -/
def stateAfter (chatId : String) (picked : List CoinSignal) (accepted : Bool) :
    Option ChatSignalState :=
  let env := run.env chatId
  let previous := loaded.previous chatId
  match env.send with
  | .threw => loaded chatId
  | .refused =>
    if accepted && env.refusalSaved then some (recordFailed previous run.startedAt)
    else loaded chatId
  | .delivered =>
    if env.stateSaved then some (recordSent previous picked run.startedAt) else loaded chatId

/-- Some message of the run was accepted. -/
def SendLoop.accepted (loop : SendLoop) : Bool :=
  loop.attempts.any fun a => a.outcome = .delivered

end Due

section Turns

variable {casing : Prices.Casing} {run : SignalsRun} {loaded : SentStates}
  {signals : List CoinSignal}

theorem attempt_alertChat (chatId : String) (picked : List CoinSignal)
    (previous : ChatSignalState) :
    (alertChat run chatId picked previous).attempt = some (attemptTo run chatId picked) := by
  rw [alertChat, attemptTo]
  cases hsend : (run.env chatId).send with
  | threw => rfl
  | refused => rfl
  | delivered =>
    cases hsaved : (run.env chatId).stateSaved with
    | true => simp
    | false => simp

/-- **The turn of a chat** is its alert, behind the gates. -/
theorem chatTurn_of_reached {entry : String × List String}
    (h : IsReached casing run loaded signals entry) :
    chatTurn casing run signals loaded entry =
      alertChat run entry.1 (pickedFor casing run signals loaded entry)
        (loaded.previous entry.1) := by
  obtain ⟨henabled, hpicked, hbacked, hbudget⟩ := h
  rw [chatTurn, if_neg henabled, if_neg hpicked, hbacked]
  exact if_neg (not_lt.mpr hbudget)

/-- A chat held back by a gate is left alone. -/
theorem chatTurn_of_not_reached {entry : String × List String}
    (h : ¬IsReached casing run loaded signals entry) :
    ∃ deferred, chatTurn casing run signals loaded entry = { deferred } := by
  rw [chatTurn]
  by_cases henabled : entry.1 ∈ run.disabled
  · exact ⟨0, if_pos henabled⟩
  rw [if_neg henabled]
  by_cases hpicked : pickedFor casing run signals loaded entry = []
  · exact ⟨0, if_pos hpicked⟩
  rw [if_neg hpicked]
  cases hbacked : isBackedOff (loaded.previous entry.1) run.startedAt with
  | true => exact ⟨0, rfl⟩
  | false =>
    refine ⟨1, if_pos (not_le.mp fun hbudget => ?_)⟩
    exact h ⟨henabled, hpicked, hbacked, hbudget⟩

/-- A turn counts a chat as alerted when its message was accepted. -/
theorem chatsAlerted_chatTurn (entry : String × List String) :
    (chatTurn casing run signals loaded entry).chatsAlerted = 0 ↔
      ∀ a ∈ (chatTurn casing run signals loaded entry).attempt, a.outcome ≠ .delivered := by
  by_cases hreach : IsReached casing run loaded signals entry
  · rw [chatTurn_of_reached hreach, attempt_alertChat, alertChat]
    cases hsend : (run.env entry.1).send with
    | threw => simp [attemptTo, hsend]
    | refused => simp [attemptTo, hsend]
    | delivered => cases (run.env entry.1).stateSaved <;> simp [attemptTo, hsend]
  · obtain ⟨deferred, hturn⟩ := chatTurn_of_not_reached hreach
    simp [hturn]

/-! ### The loop -/

theorem attempts_foldl (entries : List (String × List String)) (loop : SendLoop) :
    (entries.foldl (sendToChat casing run loaded signals) loop).attempts =
      loop.attempts ++
        entries.filterMap fun e => (chatTurn casing run signals loaded e).attempt := by
  induction entries generalizing loop with
  | nil => simp
  | cons e entries ih =>
    rw [List.foldl_cons, ih, sendToChat, List.filterMap_cons]
    cases (chatTurn casing run signals loaded e).attempt <;> simp

theorem sentStates_foldl (entries : List (String × List String)) (loop : SendLoop) :
    (entries.foldl (sendToChat casing run loaded signals) loop).sentStates =
      setSentStates loop.sentStates (entries.filterMap fun e =>
        (chatTurn casing run signals loaded e).written.map (e.1, ·)) := by
  induction entries generalizing loop with
  | nil => rfl
  | cons e entries ih =>
    rw [List.foldl_cons, ih, sendToChat, List.filterMap_cons]
    cases (chatTurn casing run signals loaded e).written <;> rfl

theorem mem_refused_foldl {entries : List (String × List String)} {loop : SendLoop}
    {r : String × ChatSignalState} :
    r ∈ (entries.foldl (sendToChat casing run loaded signals) loop).refused ↔
      r ∈ loop.refused ∨ ∃ e ∈ entries, (chatTurn casing run signals loaded e).refused = true ∧
        r = (e.1, loaded.previous e.1) := by
  induction entries generalizing loop with
  | nil => simp
  | cons e entries ih =>
    rw [List.foldl_cons, ih, sendToChat]
    cases hrefused : (chatTurn casing run signals loaded e).refused <;> simp [hrefused, or_assoc]

theorem chatsAlerted_foldl {entries : List (String × List String)} {loop : SendLoop} :
    (entries.foldl (sendToChat casing run loaded signals) loop).summary.chatsAlerted = 0 ↔
      loop.summary.chatsAlerted = 0 ∧
        ∀ e ∈ entries, (chatTurn casing run signals loaded e).chatsAlerted = 0 := by
  induction entries generalizing loop with
  | nil => simp
  | cons e entries ih =>
    rw [List.foldl_cons, ih, sendToChat]
    simp [and_assoc]

theorem attempts_recordRefusals (loop : SendLoop) :
    (recordRefusals run loop).attempts = loop.attempts := by
  rw [recordRefusals]
  split <;> rfl

theorem accepted_recordRefusals (entries : List (String × List String)) {loop : SendLoop}
    (hnil : loop.attempts = []) (hzero : loop.summary.chatsAlerted = 0) :
    (recordRefusals run (entries.foldl (sendToChat casing run loaded signals) loop)).accepted =
      decide ((entries.foldl (sendToChat casing run loaded signals)
        loop).summary.chatsAlerted ≠ 0) := by
  rw [SendLoop.accepted, attempts_recordRefusals, attempts_foldl, hnil, List.nil_append,
    Bool.eq_iff_iff, decide_eq_true_iff, ne_eq, chatsAlerted_foldl, List.any_eq_true]
  constructor
  · rintro ⟨a, ha, hdelivered⟩ ⟨-, hnone⟩
    obtain ⟨e, he, hattempt⟩ := List.mem_filterMap.mp ha
    exact (chatsAlerted_chatTurn e).mp (hnone e he) a hattempt (of_decide_eq_true hdelivered)
  · intro h
    by_contra hnone
    refine h ⟨hzero, fun e he => (chatsAlerted_chatTurn e).mpr fun a ha hdelivered => hnone ?_⟩
    exact ⟨a, List.mem_filterMap.mpr ⟨e, he, ha⟩, decide_eq_true hdelivered⟩

/-! ### What the loop does to a chat -/

variable (casing run loaded signals) in
/-- The turn of a chat; without a watchlist it has none. -/
def turnOf (chatId : String) : Turn :=
  match run.watchlists.get? chatId with
  | none => {}
  | some watchlist => chatTurn casing run signals loaded (chatId, watchlist)

variable (casing loaded signals) in
theorem turnOf_of_mem {entry : String × List String} (h : entry ∈ run.watchlists.entries) :
    turnOf casing run loaded signals entry.1 = chatTurn casing run signals loaded entry := by
  rw [turnOf, InsertionMap.mem_entries.mp h]

/-- A chat whose turn leaves a trace is listed. -/
theorem mem_of_turnOf {c : String} (h : turnOf casing run loaded signals c ≠ {}) :
    ∃ e ∈ run.watchlists.entries, e.1 = c := by
  rw [turnOf] at h
  split at h
  · exact absurd rfl h
  · rename_i watchlist hget
    exact ⟨(c, watchlist), InsertionMap.mem_entries.mpr hget, rfl⟩

/-- The sends to a chat are those of its turn. -/
theorem filter_attempts_foldl (loop : SendLoop) (hnil : loop.attempts = []) (chatId : String) :
    (run.watchlists.entries.foldl (sendToChat casing run loaded signals) loop).attempts.filter
        (·.chatId = chatId) = (turnOf casing run loaded signals chatId).attempt.toList := by
  have hkey : ∀ e a, (chatTurn casing run signals loaded e).attempt = some a → a.chatId = e.1 := by
    intro e a ha
    by_cases hreach : IsReached casing run loaded signals e
    · rw [chatTurn_of_reached hreach, attempt_alertChat] at ha
      rw [← Option.some.inj ha]
      rfl
    · obtain ⟨deferred, hturn⟩ := chatTurn_of_not_reached hreach
      rw [hturn] at ha
      cases ha
  rw [attempts_foldl, hnil, List.nil_append,
    InsertionMap.filter_filterMap_entries run.watchlists hkey, turnOf]
  cases run.watchlists.get? chatId <;> rfl

/-- The loop writes what the turn of a chat writes. -/
theorem sentStates_foldl_apply (loop : SendLoop) (chatId : String) :
    (run.watchlists.entries.foldl (sendToChat casing run loaded signals) loop).sentStates chatId =
      (turnOf casing run loaded signals chatId).written.or (loop.sentStates chatId) := by
  rw [sentStates_foldl, setSentStates]
  have hturn : ∀ w ∈ run.watchlists.entries.filterMap (fun e =>
      (chatTurn casing run signals loaded e).written.map (e.1, ·)), w.1 = chatId →
      (turnOf casing run loaded signals chatId).written = some w.2 := by
    rintro w hw rfl
    obtain ⟨e, he, hwrite⟩ := List.mem_filterMap.mp hw
    obtain ⟨state, hwritten, rfl⟩ := Option.map_eq_some_iff.mp hwrite
    rw [turnOf_of_mem casing loaded signals he, hwritten]
  cases hwritten : (turnOf casing run loaded signals chatId).written with
  | none =>
    refine writeAll_of_forall_ne _ fun w hw heq => ?_
    have := hturn w hw heq
    rw [hwritten] at this
    cases this
  | some state =>
    refine writeAll_of_mem _ ?_ fun w hw heq => ?_
    · obtain ⟨e, he, rfl⟩ := mem_of_turnOf (c := chatId) fun h => by
        rw [h] at hwritten
        cases hwritten
      refine ⟨(e.1, state), List.mem_filterMap.mpr ⟨e, he, ?_⟩, rfl⟩
      rw [← turnOf_of_mem casing loaded signals he, hwritten]
      rfl
    · rw [← hturn w hw heq, hwritten]
      rfl

variable (casing run loaded signals) in
/-- **What the refusals add**: a refused chat, if some message was accepted and the
refusal could be written. -/
theorem sentStates_recordRefusals (loop : SendLoop) (hnil : loop.refused = [])
    (chatId : String) :
    (recordRefusals run (run.watchlists.entries.foldl
        (sendToChat casing run loaded signals) loop)).sentStates chatId =
      if (run.watchlists.entries.foldl (sendToChat casing run loaded signals)
            loop).summary.chatsAlerted ≠ 0 ∧
          (turnOf casing run loaded signals chatId).refused = true ∧
          (run.env chatId).refusalSaved = true then
        some (recordFailed (loaded.previous chatId) run.startedAt)
      else (turnOf casing run loaded signals chatId).written.or (loop.sentStates chatId) := by
  rw [recordRefusals]
  by_cases hzero : (run.watchlists.entries.foldl (sendToChat casing run loaded signals)
      loop).summary.chatsAlerted = 0
  · rw [if_pos hzero, if_neg fun h => h.1 hzero, sentStates_foldl_apply]
  rw [if_neg hzero]
  dsimp only
  by_cases hrefused : (turnOf casing run loaded signals chatId).refused = true ∧
      (run.env chatId).refusalSaved = true
  · rw [if_pos ⟨hzero, hrefused⟩]
    obtain ⟨href, hsaved⟩ := hrefused
    refine writeAll_of_mem _ ?_ fun w hw heq => ?_
    · obtain ⟨e, he, rfl⟩ := mem_of_turnOf (c := chatId) fun h => by rw [h] at href; cases href
      refine ⟨_, List.mem_map.mpr ⟨(e.1, loaded.previous e.1), ?_, rfl⟩, rfl⟩
      refine List.mem_filter.mpr ⟨mem_refused_foldl.mpr (Or.inr ⟨e, he, ?_, rfl⟩), hsaved⟩
      rw [← turnOf_of_mem casing loaded signals he, href]
    · obtain ⟨r, hr, rfl⟩ := List.mem_map.mp hw
      rw [List.mem_filter, mem_refused_foldl, hnil] at hr
      obtain ⟨e, he, -, rfl⟩ := hr.1.resolve_left List.not_mem_nil
      obtain rfl : e.1 = chatId := heq
      rfl
  · rw [if_neg fun h => hrefused h.2, ← sentStates_foldl_apply]
    refine writeAll_of_forall_ne _ fun w hw heq => hrefused ?_
    obtain ⟨r, hr, rfl⟩ := List.mem_map.mp hw
    obtain ⟨hr, hsaved⟩ := List.mem_filter.mp hr
    rw [mem_refused_foldl, hnil] at hr
    obtain ⟨e, he, href, rfl⟩ := hr.resolve_left List.not_mem_nil
    obtain rfl : e.1 = chatId := heq
    exact ⟨by rw [turnOf_of_mem casing loaded signals he, href], hsaved⟩

end Turns

/-! ### What a run does to a chat -/

section ChatChange

variable (casing : Prices.Casing) (run : SignalsRun) (loaded : SentStates)

/-- **What one run does to a chat**: it is due and is sent one message, or it is left
alone. -/
inductive ChatChange (chatId : String) (result : SendLoop) : Prop
  | due {signals : List CoinSignal} {watchlist : List String}
      (due : IsDue casing run loaded chatId signals watchlist)
      (sent : result.attempts.filter (·.chatId = chatId) =
        [attemptTo run chatId (pickedFor casing run signals loaded (chatId, watchlist))])
      (state : result.sentStates chatId = stateAfter run loaded chatId
        (pickedFor casing run signals loaded (chatId, watchlist)) result.accepted)
  | quiet (due : ∀ signals watchlist, ¬IsDue casing run loaded chatId signals watchlist)
      (sent : result.attempts.filter (·.chatId = chatId) = [])
      (state : result.sentStates chatId = loaded chatId)

variable {casing run loaded}

/-- A run whose loop does not start. -/
theorem ChatChange.of_stopped {chatId : String} {result : SendLoop}
    (hstop : ∀ signals watchlist, ¬IsDue casing run loaded chatId signals watchlist)
    (hattempts : result.attempts = []) (hstates : result.sentStates = loaded) :
    ChatChange casing run loaded chatId result :=
  .quiet hstop (by rw [hattempts]; rfl) (by rw [hstates])

/-- Without a coin to look up no coin is picked. -/
theorem chatSignals_of_watchedSymbols {chatId : String} {watchlist : List String}
    (hnil : watchedSymbols casing run = [])
    (hlisted : (chatId, watchlist) ∈ run.watchlists.entries) (signals : List CoinSignal) :
    chatSignals casing signals watchlist = [] := by
  refine List.filterMap_eq_nil_iff.mpr fun symbol hsymbol => ?_
  have hwatched : casing.toLowerCase symbol ∈ watchedSymbols casing run := by
    rw [watchedSymbols, mem_unique]
    refine List.mem_map_of_mem (List.mem_append_left _ ?_)
    exact List.mem_flatMap.mpr ⟨(chatId, watchlist), hlisted, hsymbol⟩
  rw [hnil] at hwatched
  exact absurd hwatched List.not_mem_nil

/-- A run with signals, told chat by chat. -/
theorem chatChange_loop {signals : List CoinSignal} {start : SendLoop} (chatId : String)
    (hlock : run.lock = .acquired) (hread : run.storesRead = true)
    (hlookup : run.lookup (watchedSymbols casing run) = some signals)
    (hstates : start.sentStates = loaded) (hattempts : start.attempts = [])
    (hrefused : start.refused = []) (hzero : start.summary.chatsAlerted = 0) :
    ChatChange casing run loaded chatId (recordRefusals run
      (run.watchlists.entries.foldl (sendToChat casing run loaded signals) start)) := by
  have hsent : (recordRefusals run (run.watchlists.entries.foldl
      (sendToChat casing run loaded signals) start)).attempts.filter (·.chatId = chatId) =
      (turnOf casing run loaded signals chatId).attempt.toList := by
    rw [attempts_recordRefusals, filter_attempts_foldl start hattempts]
  have hstate := sentStates_recordRefusals casing run loaded signals start hrefused chatId
  by_cases hreach : ∃ e ∈ run.watchlists.entries, e.1 = chatId ∧
      IsReached casing run loaded signals e
  · obtain ⟨⟨c, watchlist⟩, hlisted, rfl, hreach⟩ := hreach
    -- What becomes of the chat's state follows the outcome of its one send.
    have hturn := (turnOf_of_mem casing loaded signals hlisted).trans (chatTurn_of_reached hreach)
    rw [hturn] at hsent hstate
    refine .due ⟨hlock, hread, hlookup, hlisted, hreach⟩ ?_ ?_
    · rw [hsent, attempt_alertChat]
      rfl
    · rw [hstate, stateAfter, accepted_recordRefusals _ hattempts hzero, alertChat, hstates]
      cases hsend : (run.env c).send with
      | threw => simp
      | refused => simp [Bool.and_eq_true]
      | delivered => cases (run.env c).stateSaved <;> simp
  · have hturn : ∃ deferred, turnOf casing run loaded signals chatId = { deferred } := by
      rw [turnOf]
      split
      · exact ⟨0, rfl⟩
      · rename_i watchlist hget
        exact chatTurn_of_not_reached fun h =>
          hreach ⟨_, InsertionMap.mem_entries.mpr hget, rfl, h⟩
    obtain ⟨deferred, hturn⟩ := hturn
    rw [hturn] at hsent hstate
    refine .quiet (fun signals' watchlist due => hreach ?_) hsent ?_
    · obtain rfl := Option.some.inj (hlookup.symm.trans due.lookup)
      exact ⟨_, due.listed, rfl, due.reached⟩
    · simpa [hstates] using hstate

variable (casing run loaded) in
/-- **A run, told chat by chat.** -/
theorem chatChange_checkSignals (chatId : String) :
    ChatChange casing run loaded chatId (checkSignals casing run loaded) := by
  rw [checkSignals]
  cases hlock : run.lock with
  | held => exact .of_stopped (fun _ _ due => by simp [due.lock] at hlock) rfl rfl
  | failed => exact .of_stopped (fun _ _ due => by simp [due.lock] at hlock) rfl rfl
  | acquired =>
    dsimp only
    cases hread : run.storesRead with
    | false => exact .of_stopped (fun _ _ due => by simp [due.storesRead] at hread) rfl rfl
    | true =>
      rw [if_pos rfl, runCheck]
      dsimp only
      by_cases hnil : watchedSymbols casing run = []
      · rw [if_pos hnil]
        refine .of_stopped (fun signals watchlist due => due.reached.picked ?_) rfl rfl
        rw [pickedFor, chatSignals_of_watchedSymbols hnil due.listed, selectCoinsToAlert]
        split <;> rfl
      · rw [if_neg hnil]
        cases hlookup : run.lookup (watchedSymbols casing run) with
        | none => exact .of_stopped (fun _ _ due => by simp [due.lookup] at hlookup) rfl rfl
        | some signals => exact chatChange_loop chatId hlock hread hlookup rfl rfl rfl rfl

/-! ### What a run promises -/

theorem isCoolingDown_of_due {chatId : String} {signals : List CoinSignal}
    {watchlist : List String} (due : IsDue casing run loaded chatId signals watchlist) :
    isCoolingDown (loaded.previous chatId) run.startedAt = false :=
  isCoolingDown_of_picked due.reached.picked

/-- Each send is the one its chat was due. -/
theorem exists_due_of_attempt {a : SignalAttempt}
    (ha : a ∈ (checkSignals casing run loaded).attempts) :
    ∃ signals watchlist, IsDue casing run loaded a.chatId signals watchlist ∧
      a = attemptTo run a.chatId (pickedFor casing run signals loaded (a.chatId, watchlist)) := by
  have hmem : a ∈ (checkSignals casing run loaded).attempts.filter (·.chatId = a.chatId) :=
    List.mem_filter.mpr ⟨ha, decide_eq_true rfl⟩
  cases chatChange_checkSignals casing run loaded a.chatId with
  | due due sent state =>
    rw [sent, List.mem_singleton] at hmem
    exact ⟨_, _, due, hmem⟩
  | quiet due sent state =>
    rw [sent] at hmem
    cases hmem

/-- A chat is sent one message. -/
theorem attempt_unique {a b : SignalAttempt} (ha : a ∈ (checkSignals casing run loaded).attempts)
    (hb : b ∈ (checkSignals casing run loaded).attempts) (heq : a.chatId = b.chatId) : a = b := by
  have ha' : a ∈ (checkSignals casing run loaded).attempts.filter (·.chatId = b.chatId) :=
    List.mem_filter.mpr ⟨ha, decide_eq_true heq⟩
  have hb' : b ∈ (checkSignals casing run loaded).attempts.filter (·.chatId = b.chatId) :=
    List.mem_filter.mpr ⟨hb, decide_eq_true rfl⟩
  cases chatChange_checkSignals casing run loaded b.chatId with
  | due due sent state =>
    rw [sent, List.mem_singleton] at ha' hb'
    exact ha'.trans hb'.symm
  | quiet due sent state =>
    rw [sent] at ha'
    cases ha'

/-- A chat that is due is sent its message. -/
theorem attempt_of_due {chatId : String} {signals : List CoinSignal} {watchlist : List String}
    (due : IsDue casing run loaded chatId signals watchlist) :
    (checkSignals casing run loaded).attempts.filter (·.chatId = chatId) =
      [attemptTo run chatId (pickedFor casing run signals loaded (chatId, watchlist))] := by
  cases chatChange_checkSignals casing run loaded chatId with
  | due due' sent state =>
    obtain rfl := Option.some.inj (due.lookup.symm.trans due'.lookup)
    have hlist := (InsertionMap.mem_entries.mp due.listed).symm.trans
      (InsertionMap.mem_entries.mp due'.listed)
    obtain rfl := Option.some.inj hlist
    exact sent
  | quiet none => exact absurd due (none signals watchlist)

/-- Other surroundings of the sends leave a chat due, as long as the budget lasts. -/
theorem IsDue.of_env {chatId : String} {signals : List CoinSignal} {watchlist : List String}
    (due : IsDue casing run loaded chatId signals watchlist) {env : String → ChatEnv}
    (hbudget : (env chatId).elapsedMs ≤ signalsSendBudgetMs) :
    IsDue casing { run with env } loaded chatId signals watchlist where
  lock := due.lock
  storesRead := due.storesRead
  lookup := due.lookup
  listed := due.listed
  reached := ⟨due.reached.enabled, due.reached.picked, due.reached.notBackedOff, hbudget⟩

/-- What a chat is sent in a run. -/
def SendLoop.sentTo (loop : SendLoop) (chatId : String) : List (List CoinSignal) :=
  (loop.attempts.filter (·.chatId = chatId)).map SignalAttempt.picked

/-- The state that `CryptoZaloBot.Signals.SentStates.previous` reads. -/
theorem previous_of_eq {states states' : SentStates} {chatId : String}
    (h : states chatId = states' chatId) : states.previous chatId = states'.previous chatId := by
  rw [SentStates.previous, SentStates.previous, h]

theorem previous_of_eq_some {states : SentStates} {chatId : String} {state : ChatSignalState}
    (h : states chatId = some state) : states.previous chatId = state := by
  rw [SentStates.previous, h]
  rfl

/-- **What a chat counts as told** changes only with a message it got. -/
theorem delivered_of_told {chatId : String}
    (h : ((checkSignals casing run loaded).sentStates.previous chatId).told ≠
      (loaded.previous chatId).told) :
    ∃ a ∈ (checkSignals casing run loaded).attempts,
      a.chatId = chatId ∧ a.outcome = .delivered := by
  cases chatChange_checkSignals casing run loaded chatId with
  | quiet due sent state => exact absurd (by rw [previous_of_eq state]) h
  | due due sent state =>
    have hmem := List.mem_filter.mp (sent ▸ List.mem_singleton_self _)
    refine ⟨_, hmem.1, rfl, ?_⟩
    rw [stateAfter] at state
    show (run.env chatId).send = .delivered
    cases hsend : (run.env chatId).send with
    | delivered => rfl
    | threw =>
      rw [hsend] at state
      exact absurd (by rw [previous_of_eq state]) h
    | refused =>
      rw [hsend] at state
      dsimp only at state
      split at state
      · exact absurd (by rw [previous_of_eq_some state, told_recordFailed]) h
      · exact absurd (by rw [previous_of_eq state]) h

/-- **A chat is blamed for a refusal** only if another one got its message. -/
theorem refused_of_failures {chatId : String}
    (h : (loaded.previous chatId).failures.getD 0 <
      ((checkSignals casing run loaded).sentStates.previous chatId).failures.getD 0) :
    (∃ a ∈ (checkSignals casing run loaded).attempts,
        a.chatId = chatId ∧ a.outcome = .refused) ∧
      ∃ b ∈ (checkSignals casing run loaded).attempts,
        b.chatId ≠ chatId ∧ b.outcome = .delivered := by
  cases chatChange_checkSignals casing run loaded chatId with
  | quiet due sent state =>
    rw [previous_of_eq state] at h
    exact absurd h (lt_irrefl _)
  | due due sent state =>
    have hmem := List.mem_filter.mp (sent ▸ List.mem_singleton_self _)
    rw [stateAfter] at state
    cases hsend : (run.env chatId).send with
    | threw =>
      rw [hsend] at state
      rw [previous_of_eq state] at h
      exact absurd h (lt_irrefl _)
    | delivered =>
      rw [hsend] at state
      dsimp only at state
      split at state
      · rw [previous_of_eq_some state] at h
        exact absurd h (Nat.not_lt_zero _)
      · rw [previous_of_eq state] at h
        exact absurd h (lt_irrefl _)
    | refused =>
      refine ⟨⟨_, hmem.1, rfl, hsend⟩, ?_⟩
      rw [hsend] at state
      dsimp only at state
      split at state
      · rename_i hcounted
        obtain ⟨b, hb, hdelivered⟩ := List.any_eq_true.mp (Bool.and_eq_true_iff.mp hcounted).1
        refine ⟨b, hb, ?_, of_decide_eq_true hdelivered⟩
        rintro rfl
        -- The accepted message can't be the chat's own, which was refused.
        have hb' := sent ▸ List.mem_filter.mpr ⟨hb, decide_eq_true rfl⟩
        rw [List.mem_singleton] at hb'
        rw [hb', attemptTo] at hdelivered
        exact absurd (hsend.symm.trans (of_decide_eq_true hdelivered)) (by decide)
      · rw [previous_of_eq state] at h
        exact absurd h (lt_irrefl _)

/-- **The messages of a chat** do not depend on what becomes of any send. -/
theorem sentTo_of_env {env : String → ChatEnv} {chatId : String}
    (hbudget : (run.env chatId).elapsedMs ≤ signalsSendBudgetMs)
    (hbudget' : (env chatId).elapsedMs ≤ signalsSendBudgetMs) :
    (checkSignals casing { run with env } loaded).sentTo chatId =
      (checkSignals casing run loaded).sentTo chatId := by
  rw [SendLoop.sentTo, SendLoop.sentTo]
  cases chatChange_checkSignals casing run loaded chatId with
  | due due sent state =>
    rw [sent, attempt_of_due (due.of_env hbudget')]
    rfl
  | quiet none sent state =>
    cases chatChange_checkSignals casing { run with env } loaded chatId with
    | due due => exact absurd (due.of_env hbudget) (none _ _)
    | quiet none' sent' state' => rw [sent, sent']

end ChatChange

/-- **The chats of a run are isolated from each other.** Each is sent at most one message,
with the coins picked for it, and none if it turned signals off, is backed off or cooling
down, or has no coin picked. What it counts as told changes only if it got its message;
it is blamed for a refusal only if another chat got one. A failed lookup sends and changes
nothing. And as long as the send budget lasts, what a chat is sent does not depend on what
becomes of any send. -/
theorem checkSignals_isolates_chats (casing : Prices.Casing) (run : SignalsRun)
    (loaded : SentStates) :
    (∀ chatId, ((checkSignals casing run loaded).sentTo chatId).length ≤ 1) ∧
    (∀ a ∈ (checkSignals casing run loaded).attempts,
      a.chatId ∉ run.disabled ∧
      isBackedOff (loaded.previous a.chatId) run.startedAt = false ∧
      isCoolingDown (loaded.previous a.chatId) run.startedAt = false ∧
      a.picked ≠ [] ∧
      ∃ signals watchlist, run.lookup (watchedSymbols casing run) = some signals ∧
        (a.chatId, watchlist) ∈ run.watchlists.entries ∧
        a.picked = selectCoinsToAlert (chatSignals casing signals watchlist)
          (loaded.previous a.chatId) run.startedAt) ∧
    (∀ chatId, ((checkSignals casing run loaded).sentStates.previous chatId).told ≠
        (loaded.previous chatId).told →
      ∃ a ∈ (checkSignals casing run loaded).attempts,
        a.chatId = chatId ∧ a.outcome = .delivered) ∧
    (∀ chatId, (loaded.previous chatId).failures.getD 0 <
        ((checkSignals casing run loaded).sentStates.previous chatId).failures.getD 0 →
      (∃ a ∈ (checkSignals casing run loaded).attempts,
        a.chatId = chatId ∧ a.outcome = .refused) ∧
      ∃ b ∈ (checkSignals casing run loaded).attempts,
        b.chatId ≠ chatId ∧ b.outcome = .delivered) ∧
    (run.lookup (watchedSymbols casing run) = none →
      (checkSignals casing run loaded).attempts = [] ∧
      (checkSignals casing run loaded).sentStates = loaded) ∧
    (∀ (env : String → ChatEnv) (chatId : String),
      (run.env chatId).elapsedMs ≤ signalsSendBudgetMs →
      (env chatId).elapsedMs ≤ signalsSendBudgetMs →
      (checkSignals casing { run with env } loaded).sentTo chatId =
        (checkSignals casing run loaded).sentTo chatId) := by
  refine ⟨fun chatId => ?_, fun a ha => ?_, fun chatId => delivered_of_told,
    fun chatId => refused_of_failures, fun hfailed => ⟨?_, ?_⟩,
    fun env chatId => sentTo_of_env⟩
  · rw [SendLoop.sentTo, List.length_map]
    cases chatChange_checkSignals casing run loaded chatId with
    | due due sent state => rw [sent]; rfl
    | quiet due sent state => rw [sent]; exact Nat.zero_le 1
  · obtain ⟨signals, watchlist, due, heq⟩ := exists_due_of_attempt ha
    have hpicked : a.picked = pickedFor casing run signals loaded (a.chatId, watchlist) :=
      congrArg SignalAttempt.picked heq
    exact ⟨due.reached.enabled, due.reached.notBackedOff, isCoolingDown_of_due due,
      hpicked ▸ due.reached.picked, signals, watchlist, due.lookup, due.listed, hpicked⟩
  · refine List.eq_nil_iff_forall_not_mem.mpr fun a ha => ?_
    obtain ⟨signals, watchlist, due, -⟩ := exists_due_of_attempt ha
    exact nomatch hfailed.symm.trans due.lookup
  · funext chatId
    cases chatChange_checkSignals casing run loaded chatId with
    | due due => exact nomatch hfailed.symm.trans due.lookup
    | quiet due sent state => exact state

end Signals

end CryptoZaloBot
