import CryptoZaloBot.Controllers.Digest
import Mathlib.Data.List.Basic

/-!
# Failures in a digest run

What the services answer during one run is laid out in advance
(`CryptoZaloBot.Controllers.RunAnswers`): the answers that all chats share, and for every turn of
the loop the answers to the calls of that turn. Any of them may be a failure.

What a chat is sent is then a function of the shared answers and those of its own turn
(`CryptoZaloBot.Controllers.digestMessage`), and the run is one such message after the other
(`CryptoZaloBot.Controllers.sendDailyDigest_run`). No turn can skip another: every turn makes one
lookup, ends in one of the two counters, and never throws.
-/

namespace CryptoZaloBot

namespace Controllers

open Portfolio (HoldingsResult PortfolioTrade)
open Prices (CoinMarketData HoldingPrice)
open Signals (CoinSignal)
open Subscribers (Subscriber)

/-! ### Answers -/

/-- **What the calls of one turn are answered**; an answer of the price lookup that comes from the
cache counts as one of the price sources. -/
structure TurnAnswers where
  prices : List String → Except ServiceError (List CoinMarketData)
  portfolioSection : HoldingsResult → InsertionMap String HoldingPrice → Except ServiceError String
  signalsSection : List CoinSignal → Except ServiceError String
  /-- Whether Zalo accepts the digest. -/
  delivered : Message → Bool
  verdictsRecorded : Except ServiceError Unit
  usageRecorded : Except ServiceError Unit

/-- **What the calls of one run are answered.** -/
structure RunAnswers where
  invokedAt : ℤ
  subscribers : Except ServiceError (List Subscriber)
  trades : Except ServiceError (InsertionMap String (List PortfolioTrade))
  mirrored : Except ServiceError Unit
  signals : Except ServiceError (List CoinSignal)
  /-- The answers of every turn, by its position in the run. -/
  turn : ℕ → TurnAnswers

/-- The price lookups made so far, one for every turn. -/
abbrev Lookups : Type := List (List String)

namespace RunAnswers

variable (answers : RunAnswers)

/-- A call that is answered the same all through the run. -/
def shared {α : Type} (r : Except ServiceError α) : Action Lookups ServiceError α :=
  fun lookups => (r, lookups)

/-- A call after the lookup of the turn. -/
def ofTurn {α : Type} (r : TurnAnswers → Except ServiceError α) : Action Lookups ServiceError α :=
  fun lookups => (r (answers.turn (lookups.length - 1)), lookups)

/-- The services of a run. A digest calls no others. -/
def services : Services Lookups where
  dateNow _ := answers.invokedAt
  listActive := shared answers.subscribers
  listTradesForChats _ := shared answers.trades
  replaceWatchlists _ := shared answers.mirrored
  getSignalsForSymbols _ _ := shared answers.signals
  getPricesBySymbols symbols := fun lookups =>
    ((answers.turn lookups.length).prices symbols, lookups ++ [symbols])
  formatPortfolioDigestSection holdings prices :=
    answers.ofTurn (·.portfolioSection holdings prices)
  formatSignalDigestSection signals := answers.ofTurn (·.signalsSection signals)
  sendTextMessage _ message := fun lookups =>
    ((answers.turn (lookups.length - 1)).delivered message, lookups)
  recordSentVerdicts _ _ _ := answers.ofTurn (·.verdictsRecorded)
  recordUsage _ _ _ := answers.ofTurn (·.usageRecorded)
  getTopMarkets := .throw .unexpected
  subscribe _ _ := .throw .unexpected
  unsubscribe _ := .throw .unexpected
  findActiveByChatId _ := .throw .unexpected
  updateWatchlist _ _ := .throw .unexpected
  createAlert _ _ _ _ := .throw .unexpected
  listAlertsByChat _ := .throw .unexpected
  deleteAlertByIndex _ _ := .throw .unexpected
  recordTrade _ _ _ _ _ _ := .throw .unexpected
  deleteTrade _ _ := .throw .unexpected
  clearTrades _ := .throw .unexpected
  listTrades _ := .throw .unexpected
  listTradesPage _ _ := .throw .unexpected
  getSignalFor _ _ := .throw .unexpected
  backtest _ _ := .throw .unexpected
  scorecard _ _ := .throw .unexpected
  setEnabled _ _ := .throw .unexpected
  setWatchlist _ _ := .throw .unexpected
  removeWatchlist _ := .throw .unexpected

/-- The active subscribers of a run: nobody if they can't be loaded. -/
def active : List Subscriber :=
  match answers.subscribers with
  | .ok subscribers => subscribers
  | .error _ => []

/-- A chat's trades: none if they can't be loaded. -/
def tradesOf (chatId : String) : List PortfolioTrade :=
  match answers.trades with
  | .ok trades => (trades.get? chatId).getD []
  | .error _ => []

/-- The signals by coin. -/
def signalsBySymbol : Option (InsertionMap String CoinSignal) :=
  if unique (answers.active.flatMap (·.watchlist)) = [] then some InsertionMap.empty
  else
    match answers.signals with
    | .ok signals => some (InsertionMap.ofList (signals.map fun signal => (signal.symbol, signal)))
    | .error _ => none

/-- **Two runs that differ in other chats only**: what is shared is the same, and so are the
trades and the turns of the chat. -/
structure AgreeAt (other : RunAnswers) (chatId : String) : Prop where
  invokedAt : other.invokedAt = answers.invokedAt
  subscribers : other.subscribers = answers.subscribers
  signals : other.signals = answers.signals
  trades : other.tradesOf chatId = answers.tradesOf chatId
  turn : ∀ (i : ℕ) (subscriber : Subscriber), answers.active[i]? = some subscriber →
    subscriber.chatId = chatId → other.turn i = answers.turn i

end RunAnswers

/-! ### What a turn sends -/

section Turns

variable (casing : Prices.Casing) (turn : TurnAnswers)

/-- The coins a chat holds, unless its trades can't be replayed. -/
def coinsHeld (trades : List PortfolioTrade) : Option (List String) :=
  match Portfolio.computeHoldings trades with
  | .ok holdings => some (holdings.holdings.map (·.symbol))
  | .error _ => none

/-- The coins a turn looks up. -/
def lookedUp (subscriber : Subscriber) (trades : List PortfolioTrade) : List String :=
  subscriber.watchlist ++ extraSymbols subscriber.watchlist ((coinsHeld trades).getD [])

/-- What a digest says about a portfolio. -/
def portfolioShown (trades : List PortfolioTrade) (held : Option (List String))
    (coins : List CoinMarketData) : Option PortfolioPart :=
  match held with
  | none => some .unavailable
  | some held =>
    if held = [] then none
    else
      match holdingsOf trades with
      | .error _ => some .unavailable
      | .ok holdings =>
        match turn.portfolioSection holdings (Prices.pricesBySymbol casing coins held) with
        | .ok text => some (.built text)
        | .error _ => some .unavailable

/-- What a digest says about signals. -/
def signalsShown (subscriber : Subscriber)
    (signalsBySymbol : Option (InsertionMap String CoinSignal)) : SignalsPart :=
  match signalsBySymbol with
  | none => ⟨none, []⟩
  | some signalsBySymbol =>
    let shown := subscriber.watchlist.filterMap signalsBySymbol.get?
    if shown = [] then ⟨none, shown⟩
    else
      match turn.signalsSection shown with
      | .ok text => ⟨some text, shown⟩
      | .error _ => ⟨none, []⟩

/-- **The digest of one chat**, if there is one: it takes a price lookup that finds something. -/
def digestMessage (subscriber : Subscriber) (trades : List PortfolioTrade)
    (signalsBySymbol : Option (InsertionMap String CoinSignal)) (cronTrackingLine : Option ℤ) :
    Option Message :=
  match turn.prices (lookedUp subscriber trades) with
  | .error _ => none
  | .ok coins =>
    let held := coinsHeld trades
    let listed := listedCoins casing coins subscriber.watchlist
      (extraSymbols subscriber.watchlist (held.getD []))
    if listed = [] then none
    else some (.dailyDigest listed cronTrackingLine (portfolioShown casing turn trades held coins)
      (signalsShown turn subscriber signalsBySymbol).part)

/-- What is sent at one position of the run. -/
def digestAt (answers : RunAnswers) (trades : String → List PortfolioTrade)
    (signalsBySymbol : Option (InsertionMap String CoinSignal)) (cronTrackingLine : Option ℤ)
    (position : Subscriber × ℕ) : Option (String × Message) :=
  (digestMessage casing (answers.turn position.2) position.1 (trades position.1.chatId)
    signalsBySymbol cronTrackingLine).map (position.1.chatId, ·)

/-- The coins a digest lists contain those of the watchlist. -/
theorem watchlistCoins_subset_listedCoins (coins : List CoinMarketData)
    (watchlist extra : List String) :
    watchlistCoins casing coins watchlist ⊆ listedCoins casing coins watchlist extra := by
  rw [listedCoins]
  split_ifs
  · exact List.filter_subset_self _
  · exact List.Subset.refl _

end Turns

/-! ### What a turn does -/

/-- The counters of a run that have to add up. -/
def DigestRunSummary.tally (run : DigestRunSummary) : ℕ × ℕ × ℕ :=
  (run.subscribers, run.sent, run.failed)

theorem DigestRunSummary.of_tally_eq {run run' : DigestRunSummary} (h : run'.tally = run.tally) :
    run'.subscribers = run.subscribers ∧ run'.sent + run'.failed = run.sent + run.failed := by
  simp only [tally, Prod.mk.injEq] at h
  obtain ⟨hsubscribers, hsent, hfailed⟩ := h
  exact ⟨hsubscribers, by omega⟩

/-- A part of a turn that comes to `r`, and neither sends nor looks up nor tallies anything. -/
def Gives {α : Type} (answers : RunAnswers) (turn : TurnAnswers) (r : Except ServiceError α)
    (x : DigestAction Lookups α) : Prop :=
  ∀ (w : World Lookups) (run : DigestRunSummary), answers.turn (w.services.length - 1) = turn →
    ∃ run', x (w, run) = (r, (w, run')) ∧ run'.tally = run.tally

section Gives

variable {α β : Type} {answers : RunAnswers} {turn : TurnAnswers} {x : DigestAction Lookups α}
  {f : α → DigestAction Lookups β} {handler : ServiceError → DigestAction Lookups α}

theorem Gives.pure (a : α) :
    Gives answers turn (.ok a) (Pure.pure a : DigestAction Lookups α) :=
  fun _ run _ => ⟨run, rfl, rfl⟩

theorem Gives.count {change : DigestRunSummary → DigestRunSummary}
    (h : ∀ run, (change run).tally = run.tally) :
    Gives answers turn (.ok ()) (count change : DigestAction Lookups Unit) :=
  fun _ run _ => ⟨change run, rfl, h run⟩

theorem Gives.ofExcept {r r' : Except ServiceError α} (h : r = r') :
    Gives answers turn r' (Action.ofExcept r : DigestAction Lookups α) := by
  subst h
  cases r <;> exact fun _ run _ => ⟨run, rfl, rfl⟩

theorem Gives.call (q : TurnAnswers → Except ServiceError α) {r : Except ServiceError α}
    (h : q turn = r) : Gives answers turn r (Controllers.call (answers.ofTurn q)).first := by
  rintro w run rfl
  exact ⟨run, by rw [← h]; rfl, rfl⟩

/-- A call that all chats share. -/
theorem Gives.shared (r : Except ServiceError α) :
    Gives answers turn r (Controllers.call (RunAnswers.shared r)).first :=
  fun _ run _ => ⟨run, rfl, rfl⟩

theorem Gives.bind {r : Except ServiceError β} {a : α} (hx : Gives answers turn (.ok a) x)
    (hf : Gives answers turn r (f a)) : Gives answers turn r (x >>= f) := by
  intro w run hturn
  obtain ⟨run₁, hrun₁, htally₁⟩ := hx w run hturn
  obtain ⟨run₂, hrun₂, htally₂⟩ := hf w run₁ hturn
  exact ⟨run₂, (Action.bind_run_ok hrun₁).trans hrun₂, htally₂.trans htally₁⟩

theorem Gives.bind_error {e : ServiceError} (hx : Gives answers turn (.error e) x) :
    Gives answers turn (.error e) (x >>= f) := by
  intro w run hturn
  obtain ⟨run₁, hrun₁, htally₁⟩ := hx w run hturn
  exact ⟨run₁, Action.bind_run_error hrun₁, htally₁⟩

theorem Gives.tryCatch {a : α} (hx : Gives answers turn (.ok a) x) :
    Gives answers turn (.ok a) (x.tryCatch handler) := by
  intro w run hturn
  obtain ⟨run₁, hrun₁, htally₁⟩ := hx w run hturn
  exact ⟨run₁, Action.tryCatch_run_ok hrun₁, htally₁⟩

theorem Gives.tryCatch_error {e : ServiceError} {r : Except ServiceError α}
    (hx : Gives answers turn (.error e) x) (h : Gives answers turn r (handler e)) :
    Gives answers turn r (x.tryCatch handler) := by
  intro w run hturn
  obtain ⟨run₁, hrun₁, htally₁⟩ := hx w run hturn
  obtain ⟨run₂, hrun₂, htally₂⟩ := h w run₁ hturn
  exact ⟨run₂, (Action.tryCatch_run_error hrun₁).trans hrun₂, htally₂.trans htally₁⟩

end Gives

section TurnParts

variable (casing : Prices.Casing) (answers : RunAnswers) {turn : TurnAnswers}

theorem gives_heldSymbols (trades : List PortfolioTrade) :
    Gives answers turn (.ok (coinsHeld trades)) (heldSymbols trades) := by
  rw [heldSymbols, coinsHeld]
  cases Portfolio.computeHoldings trades with
  | ok holdings => exact .pure _
  | error error => exact .bind (.count fun _ => rfl) (.pure _)

theorem gives_portfolioPart (trades : List PortfolioTrade) (held : Option (List String))
    (coins : List CoinMarketData) :
    Gives answers turn (.ok (portfolioShown casing turn trades held coins))
      (portfolioPart casing answers.services trades held coins) := by
  cases held with
  | none => exact .pure _
  | some held =>
    rw [portfolioShown, portfolioPart, portfolioSection]
    split_ifs
    · exact .pure _
    have hfail : Gives answers turn (.ok (some PortfolioPart.unavailable))
        (do
          count fun run => { run with portfolioFailures := run.portfolioFailures + 1 }
          pure (some .unavailable)) := .bind (.count fun _ => rfl) (.pure _)
    cases holdingsOf trades with
    | error error => exact .tryCatch_error (.bind_error (.ofExcept rfl)) hfail
    | ok holdings =>
      dsimp only
      cases hsection : turn.portfolioSection holdings
          (Prices.pricesBySymbol casing coins held) with
      | error error =>
        exact .tryCatch_error (.bind (.ofExcept rfl)
          (.bind_error (.call (·.portfolioSection holdings _) hsection))) hfail
      | ok text =>
        exact .tryCatch (.bind (.ofExcept rfl)
          (.bind (.call (·.portfolioSection holdings _) hsection)
            (.bind (.count fun _ => rfl) (.pure _))))

theorem gives_signalsPart (subscriber : Subscriber)
    (signalsBySymbol : Option (InsertionMap String CoinSignal)) :
    Gives answers turn (.ok (signalsShown turn subscriber signalsBySymbol))
      (signalsPart answers.services subscriber signalsBySymbol) := by
  cases signalsBySymbol with
  | none => exact .pure _
  | some signalsBySymbol =>
    rw [signalsShown, signalsPart]
    split_ifs
    · exact .pure _
    cases hsection : turn.signalsSection
        (subscriber.watchlist.filterMap signalsBySymbol.get?) with
    | error error =>
      exact .tryCatch_error (.bind_error (.call (·.signalsSection _) hsection))
        (.bind (.count fun _ => rfl) (.pure _))
    | ok text => exact .tryCatch (.bind (.call (·.signalsSection _) hsection) (.pure _))

/-- Bookkeeping changes nothing, whether it fails or not. -/
theorem gives_recordSignalsSent (chatId : String) (shown : List CoinSignal) (now : ℤ) :
    Gives answers turn (.ok ()) (recordSignalsSent answers.services chatId shown now) := by
  rw [recordSignalsSent]
  cases hverdicts : turn.verdictsRecorded with
  | error error =>
    exact .tryCatch_error (.bind_error (.call (·.verdictsRecorded) hverdicts)) (.pure _)
  | ok _ =>
    have hfirst : Gives answers turn (.ok _) (call (answers.ofTurn (·.verdictsRecorded))).first :=
      .call (·.verdictsRecorded) hverdicts
    cases husage : turn.usageRecorded with
    | error error =>
      exact .tryCatch_error (.bind hfirst (.call (·.usageRecorded) husage)) (.pure _)
    | ok _ => exact .tryCatch (.bind hfirst (.call (·.usageRecorded) husage))

/-- What follows a send counts it once. -/
theorem afterDigest_run (chatId : String) (signals : SignalsPart) (now : ℤ) (delivered : Bool)
    (w : World Lookups) (run : DigestRunSummary) :
    ∃ run', afterDigest answers.services chatId signals now delivered (w, run) =
        (.ok (), (w, run')) ∧
      run'.subscribers = run.subscribers ∧ run'.sent + run'.failed = run.sent + run.failed + 1 := by
  cases delivered with
  | false => exact ⟨_, rfl, rfl, rfl⟩
  | true =>
    have hrest : Gives answers (answers.turn (w.services.length - 1)) (.ok ())
        (if signals.part.any (· ≠ "") then do
          count fun run => { run with signalSections := run.signalSections + 1 }
          recordSignalsSent answers.services chatId signals.shown now
        else pure ()) := by
      split_ifs
      · exact .bind (.count fun _ => rfl) (gives_recordSignalsSent answers chatId signals.shown now)
      · exact .pure _
    obtain ⟨run', hrun, htally⟩ := hrest w { run with sent := run.sent + 1 } rfl
    obtain ⟨hsubscribers, hcounted⟩ := DigestRunSummary.of_tally_eq htally
    exact ⟨run', hrun, hsubscribers, hcounted.trans (Nat.add_right_comm ..)⟩

/-- A turn that goes wrong before its digest is sent is counted as failed. -/
theorem sendToSubscriber_run_error {subscriber : Subscriber} {trades : List PortfolioTrade}
    {signalsBySymbol : Option (InsertionMap String CoinSignal)} {now : ℤ}
    {cronTrackingLine : Option ℤ} {w w' : World Lookups} {run run' : DigestRunSummary}
    {e : ServiceError} (htally : run'.tally = run.tally)
    (h : digestOf casing answers.services subscriber trades signalsBySymbol now cronTrackingLine
      (w, run) = (.error e, (w', run'))) :
    ∃ run', sendToSubscriber casing answers.services subscriber trades signalsBySymbol now
        cronTrackingLine (w, run) = (.ok (), (w', run')) ∧
      run'.subscribers = run.subscribers ∧ run'.sent + run'.failed = run.sent + run.failed + 1 := by
  obtain ⟨hsubscribers, hcounted⟩ := DigestRunSummary.of_tally_eq htally
  refine ⟨_, Action.tryCatch_run_error h, hsubscribers, ?_⟩
  change run'.sent + (run'.failed + 1) = _
  omega

/-- **One turn**: one lookup, at most one message, one more in the counters. -/
theorem sendToSubscriber_run (subscriber : Subscriber) (trades : List PortfolioTrade)
    (signalsBySymbol : Option (InsertionMap String CoinSignal)) (now : ℤ)
    (cronTrackingLine : Option ℤ) (w : World Lookups) (run : DigestRunSummary) :
    ∃ run', sendToSubscriber casing answers.services subscriber trades signalsBySymbol now
        cronTrackingLine (w, run) =
        (.ok (), (⟨w.services ++ [lookedUp subscriber trades],
          w.sent ++ ((digestMessage casing (answers.turn w.services.length) subscriber trades
            signalsBySymbol cronTrackingLine).map (subscriber.chatId, ·)).toList⟩, run')) ∧
      run'.subscribers = run.subscribers ∧ run'.sent + run'.failed = run.sent + run.failed + 1 := by
  obtain ⟨run₁, hheld, htally₁⟩ := gives_heldSymbols answers trades w run rfl
  -- The lookup is what this turn leaves in the world; the parts after it read the same turn.
  set w₁ : World Lookups := { w with services := w.services ++ [lookedUp subscriber trades] }
    with hw₁
  have hturn : answers.turn (w₁.services.length - 1) = answers.turn w.services.length := by
    simp [hw₁]
  set turn := answers.turn w.services.length
  have hlookup : (call (answers.services.getPricesBySymbols
      (lookedUp subscriber trades))).first (w, run₁) =
      (turn.prices (lookedUp subscriber trades), (w₁, run₁)) := rfl
  rw [digestMessage]
  cases hprices : turn.prices (lookedUp subscriber trades) with
  | error e =>
    rw [hprices] at hlookup
    simp only [Option.map_none, Option.toList_none, List.append_nil]
    exact sendToSubscriber_run_error casing answers htally₁
      ((Action.bind_run_ok hheld).trans (Action.bind_run_error hlookup))
  | ok coins =>
    rw [hprices] at hlookup
    have hstart : digestOf casing answers.services subscriber trades signalsBySymbol now
        cronTrackingLine (w, run) = _ :=
      (Action.bind_run_ok hheld).trans (Action.bind_run_ok hlookup)
    dsimp only at hstart ⊢
    split_ifs at hstart ⊢ with hlisted
    · -- Nothing of the watchlist was found, so the turn throws.
      simp only [Option.map_none, Option.toList_none, List.append_nil]
      exact sendToSubscriber_run_error casing answers htally₁ hstart
    obtain ⟨run₂, hportfolio, htally₂⟩ :=
      gives_portfolioPart casing answers trades (coinsHeld trades) coins w₁ run₁ hturn
    obtain ⟨run₃, hsignals, htally₃⟩ :=
      gives_signalsPart answers subscriber signalsBySymbol w₁ run₂ hturn
    rw [Action.bind_run_ok hportfolio, Action.bind_run_ok hsignals] at hstart
    have hsend : ∀ message, (send answers.services subscriber.chatId message).first (w₁, run₃) =
        (.ok _, (⟨w₁.services, w₁.sent ++ [(subscriber.chatId, message)]⟩, run₃)) := fun _ => rfl
    rw [Action.bind_run_ok (hsend _)] at hstart
    obtain ⟨run₄, hafter, hsubscribers, hcounted⟩ :=
      afterDigest_run answers subscriber.chatId
        (signalsShown turn subscriber signalsBySymbol) now _ _ run₃
    obtain ⟨hsubscribers₃, hcounted₃⟩ :=
      DigestRunSummary.of_tally_eq (htally₃.trans (htally₂.trans htally₁))
    exact ⟨run₄, Action.tryCatch_run_ok (hstart.trans hafter), hsubscribers.trans hsubscribers₃,
      by rw [hcounted, hcounted₃]⟩

theorem filterMap_cons_eq_append {α β : Type} (f : α → Option β) (a : α) (as : List α) :
    (a :: as).filterMap f = (f a).toList ++ as.filterMap f := by
  cases h : f a with
  | none => rw [List.filterMap_cons_none h, Option.toList_none, List.nil_append]
  | some b => rw [List.filterMap_cons_some h, Option.toList_some, List.singleton_append]

/-- **The loop**: one turn after the other, each with its own answers. -/
theorem forEach_sendToSubscriber_run (trades : String → List PortfolioTrade)
    (signalsBySymbol : Option (InsertionMap String CoinSignal)) (now : ℤ)
    (cronTrackingLine : Option ℤ) (subscribers : List Subscriber) (w : World Lookups)
    (run : DigestRunSummary) :
    ∃ run', Action.forEach subscribers (fun subscriber =>
        sendToSubscriber casing answers.services subscriber (trades subscriber.chatId)
          signalsBySymbol now cronTrackingLine) (w, run) =
        (.ok (), (⟨w.services ++ subscribers.map fun subscriber =>
            lookedUp subscriber (trades subscriber.chatId),
          w.sent ++ (subscribers.zipIdx w.services.length).filterMap
            (digestAt casing answers trades signalsBySymbol cronTrackingLine)⟩, run')) ∧
      run'.subscribers = run.subscribers ∧
      run'.sent + run'.failed = run.sent + run.failed + subscribers.length := by
  induction subscribers generalizing w run with
  | nil =>
    refine ⟨run, ?_, rfl, rfl⟩
    simp [Action.forEach]
  | cons subscriber subscribers ih =>
    obtain ⟨run₁, hturn, hsubscribers₁, hcounted₁⟩ := sendToSubscriber_run casing answers
      subscriber (trades subscriber.chatId) signalsBySymbol now
      cronTrackingLine w run
    obtain ⟨run₂, hrest, hsubscribers₂, hcounted₂⟩ := ih
      ⟨w.services ++ [lookedUp subscriber (trades subscriber.chatId)], _⟩ run₁
    refine ⟨run₂, (Action.bind_run_ok hturn).trans (hrest.trans ?_),
      hsubscribers₂.trans hsubscribers₁, ?_⟩
    · change _ = (Except.ok (), (World.mk _ (_ ++ List.filterMap _
        ((subscriber, w.services.length) :: _)), run₂))
      rw [filterMap_cons_eq_append]
      simp [digestAt]
    · rw [hcounted₂, hcounted₁, List.length_cons]
      omega

/-! ### What all chats share -/

theorem gives_loadTrades (subscribers : List Subscriber) :
    ∃ trades, Gives answers turn (.ok trades) (loadTrades answers.services subscribers) ∧
      ∀ chatId, (trades.get? chatId).getD [] = answers.tradesOf chatId := by
  have hload : Gives answers turn answers.trades
      (call (answers.services.listTradesForChats (subscribers.map (·.chatId)))).first :=
    .shared answers.trades
  unfold RunAnswers.tradesOf
  cases htrades : answers.trades with
  | error error =>
    rw [htrades] at hload
    exact ⟨_, .tryCatch_error hload (.bind (.count fun _ => rfl) (.pure _)), fun _ => rfl⟩
  | ok trades =>
    rw [htrades] at hload
    exact ⟨_, .tryCatch hload, fun _ => rfl⟩

theorem gives_loadSignals {subscribers : List Subscriber}
    (h : answers.subscribers = .ok subscribers) (now : ℤ) :
    Gives answers turn (.ok answers.signalsBySymbol)
      (loadSignals answers.services subscribers now) := by
  rw [loadSignals, RunAnswers.signalsBySymbol, RunAnswers.active, h]
  dsimp only
  split_ifs
  · exact .pure _
  have hload : Gives answers turn answers.signals
      (call (answers.services.getSignalsForSymbols
        (unique (subscribers.flatMap (·.watchlist))) now)).first := .shared answers.signals
  cases hsignals : answers.signals with
  | error error =>
    rw [hsignals] at hload
    exact .tryCatch_error (.bind_error hload) (.bind (.count fun _ => rfl) (.pure _))
  | ok signals =>
    rw [hsignals] at hload
    exact .tryCatch (.bind hload (.pure _))

theorem gives_mirror (subscribers : List Subscriber) :
    Gives answers turn (.ok ())
      (mirror (answers.services.replaceWatchlists subscribers)).first := by
  intro w run _
  refine ⟨run, ?_, rfl⟩
  change ((mirror (RunAnswers.shared answers.mirrored) w).1,
    ((mirror (RunAnswers.shared answers.mirrored) w).2, run)) = _
  rw [mirror, Action.tryCatch]
  cases answers.mirrored <;> rfl

end TurnParts

section Run

variable (casing : Prices.Casing) (answers : RunAnswers)

/-- The time that digests show, if they do. -/
def RunAnswers.cronTrackingLine (cronTrackingEnabled : Bool) : Option ℤ :=
  if cronTrackingEnabled then some answers.invokedAt else none

/-- **One run**: what it looks up, what it sends and what it counts. -/
theorem sendDailyDigest_run (cronTrackingEnabled : Bool) :
    ∃ run, sendDailyDigest casing answers.services cronTrackingEnabled ⟨[], []⟩ =
        (.ok run, ⟨answers.active.map fun subscriber =>
            lookedUp subscriber (answers.tradesOf subscriber.chatId),
          answers.active.zipIdx.filterMap (digestAt casing answers answers.tradesOf
            answers.signalsBySymbol (answers.cronTrackingLine cronTrackingEnabled))⟩) ∧
      run.subscribers = answers.active.length ∧ run.sent + run.failed = run.subscribers := by
  suffices hrun : ∃ run, (digestRun casing answers.services answers.invokedAt
      (answers.cronTrackingLine cronTrackingEnabled)).tryCatch (fun _ => pure ())
        (⟨[], []⟩, {}) = (.ok (), (⟨answers.active.map fun subscriber =>
          lookedUp subscriber (answers.tradesOf subscriber.chatId),
        answers.active.zipIdx.filterMap (digestAt casing answers answers.tradesOf
          answers.signalsBySymbol (answers.cronTrackingLine cronTrackingEnabled))⟩, run)) ∧
      run.subscribers = answers.active.length ∧ run.sent + run.failed = run.subscribers by
    obtain ⟨run, hrun, hcounted⟩ := hrun
    exact ⟨run, sendDailyDigest_eq hrun, hcounted⟩
  -- The counters start when the subscribers are known; without them nothing is done at all.
  have hlist : (call answers.services.listActive).first (⟨[], []⟩, {}) =
      (answers.subscribers, ((⟨[], []⟩ : World Lookups), ({} : DigestRunSummary))) := rfl
  cases hsubscribers : answers.subscribers with
  | error error =>
    have hactive : answers.active = [] := by rw [RunAnswers.active, hsubscribers]
    rw [hsubscribers] at hlist
    rw [hactive]
    exact ⟨{}, Action.tryCatch_run_error (Action.bind_run_error hlist), rfl, rfl⟩
  | ok subscribers =>
    have hactive : answers.active = subscribers := by rw [RunAnswers.active, hsubscribers]
    rw [hsubscribers] at hlist
    set run₀ : DigestRunSummary := { subscribers := subscribers.length } with hrun₀
    obtain ⟨trades, hload, htrades⟩ :=
      gives_loadTrades answers subscribers
    rw [hactive, ← show (fun chatId => (trades.get? chatId).getD []) = answers.tradesOf from
      funext htrades]
    obtain ⟨run₁, hrun₁, htally₁⟩ := hload ⟨[], []⟩ run₀ rfl
    obtain ⟨run₂, hrun₂, htally₂⟩ :=
      gives_mirror answers subscribers ⟨[], []⟩ run₁ rfl
    obtain ⟨run₃, hrun₃, htally₃⟩ :=
      gives_loadSignals answers hsubscribers answers.invokedAt ⟨[], []⟩ run₂ rfl
    obtain ⟨run₄, hrun₄, hsubscribers₄, hcounted₄⟩ := forEach_sendToSubscriber_run
      casing answers (fun chatId => (trades.get? chatId).getD [])
      answers.signalsBySymbol answers.invokedAt (answers.cronTrackingLine cronTrackingEnabled)
      subscribers ⟨[], []⟩ run₃
    obtain ⟨hsubscribers₃, hcounted₃⟩ :=
      DigestRunSummary.of_tally_eq (htally₃.trans (htally₂.trans htally₁))
    simp only [hrun₀] at hsubscribers₃ hcounted₃
    simp only [List.nil_append, List.length_nil] at hrun₄
    refine ⟨run₄, Action.tryCatch_run_ok ?_, by omega, by omega⟩
    rw [digestRun, Action.bind_run_ok hlist]
    exact (Action.bind_run_ok hrun₁).trans ((Action.bind_run_ok hrun₂).trans
      ((Action.bind_run_ok hrun₃).trans hrun₄))

/-- What a run sends, in order. -/
def digestsSent (cronTrackingEnabled : Bool) : List (String × Message) :=
  (sendDailyDigest casing answers.services cronTrackingEnabled ⟨[], []⟩).2.sent

/-- What a run looks up, turn by turn. -/
def lookupsMade (cronTrackingEnabled : Bool) : Lookups :=
  (sendDailyDigest casing answers.services cronTrackingEnabled ⟨[], []⟩).2.services

theorem digestsSent_eq (cronTrackingEnabled : Bool) :
    digestsSent casing answers cronTrackingEnabled =
      answers.active.zipIdx.filterMap (digestAt casing answers answers.tradesOf
        answers.signalsBySymbol (answers.cronTrackingLine cronTrackingEnabled)) := by
  obtain ⟨run, hrun, -⟩ := sendDailyDigest_run casing answers cronTrackingEnabled
  rw [digestsSent, hrun]

theorem lookupsMade_eq (cronTrackingEnabled : Bool) :
    lookupsMade casing answers cronTrackingEnabled = answers.active.map fun subscriber =>
      lookedUp subscriber (answers.tradesOf subscriber.chatId) := by
  obtain ⟨run, hrun, -⟩ := sendDailyDigest_run casing answers cronTrackingEnabled
  rw [lookupsMade, hrun]

end Run

section Chats

variable {casing : Prices.Casing} {answers other : RunAnswers}
  {trades trades' : String → List PortfolioTrade}
  {signalsBySymbol : Option (InsertionMap String CoinSignal)} {cronTrackingLine : Option ℤ}
  {chatId : String}

/-- A chat gets no more messages than it has turns. -/
theorem length_filter_digestAt_le (chatId : String) (subscribers : List Subscriber) (n : ℕ) :
    (((subscribers.zipIdx n).filterMap (digestAt casing answers trades signalsBySymbol
        cronTrackingLine)).filter (·.1 = chatId)).length ≤
      (subscribers.filter (·.chatId = chatId)).length := by
  induction subscribers generalizing n with
  | nil => exact le_rfl
  | cons subscriber subscribers ih =>
    rw [List.zipIdx_cons, filterMap_cons_eq_append, List.filter_append, List.length_append,
      List.filter_cons]
    have hrest := ih (n + 1)
    have hone : ((digestAt casing answers trades signalsBySymbol cronTrackingLine
        (subscriber, n)).toList.filter (·.1 = chatId)).length ≤
          if subscriber.chatId = chatId then 1 else 0 := by
      rw [digestAt]
      cases digestMessage casing (answers.turn n) subscriber (trades subscriber.chatId)
        signalsBySymbol cronTrackingLine with
      | none => exact Nat.zero_le _
      | some message =>
        by_cases hchat : subscriber.chatId = chatId <;> simp [hchat]
    by_cases hchat : subscriber.chatId = chatId
    · simp only [hchat, decide_true, if_true, List.length_cons] at hone ⊢
      omega
    · simp only [hchat, decide_false, if_false, Bool.false_eq_true] at hone ⊢
      omega

/-- **A chat's messages come from its own turns.** -/
theorem filter_digestAt_congr (subscribers : List Subscriber) (n : ℕ)
    (htrades : trades chatId = trades' chatId)
    (hturn : ∀ i subscriber, subscribers[i]? = some subscriber → subscriber.chatId = chatId →
      other.turn (n + i) = answers.turn (n + i)) :
    ((subscribers.zipIdx n).filterMap
        (digestAt casing other trades' signalsBySymbol cronTrackingLine)).filter (·.1 = chatId) =
      ((subscribers.zipIdx n).filterMap
        (digestAt casing answers trades signalsBySymbol cronTrackingLine)).filter
          (·.1 = chatId) := by
  induction subscribers generalizing n with
  | nil => rfl
  | cons subscriber subscribers ih =>
    have hrest := ih (n + 1) fun i s hs hchat => by
      have hstep := hturn (i + 1) s (by simpa using hs) hchat
      rwa [show n + 1 + i = n + (i + 1) by omega]
    rw [List.zipIdx_cons, filterMap_cons_eq_append, filterMap_cons_eq_append, List.filter_append,
      List.filter_append, hrest]
    congr 1
    rw [digestAt, digestAt]
    by_cases hchat : subscriber.chatId = chatId
    · have hhere := hturn 0 subscriber rfl hchat
      rw [Nat.add_zero] at hhere
      dsimp only
      rw [hhere, hchat, htrades]
    · have hother : ∀ message : Option Message,
          ((message.map (subscriber.chatId, ·)).toList.filter (·.1 = chatId)) = [] := by
        rintro (_ | message) <;> simp [hchat]
      rw [hother, hother]

/-- A turn whose lookup finds a coin of the watchlist sends a digest with the watchlist part. -/
theorem digestMessage_eq {turn : TurnAnswers} {subscriber : Subscriber}
    {trades : List PortfolioTrade} {coins : List CoinMarketData}
    (signalsBySymbol : Option (InsertionMap String CoinSignal)) (cronTrackingLine : Option ℤ)
    (hprices : turn.prices (lookedUp subscriber trades) = .ok coins)
    (hfound : watchlistCoins casing coins subscriber.watchlist ≠ []) :
    ∃ portfolio signals, digestMessage casing turn subscriber trades signalsBySymbol
        cronTrackingLine = some (.dailyDigest (listedCoins casing coins subscriber.watchlist
          (extraSymbols subscriber.watchlist ((coinsHeld trades).getD []))) cronTrackingLine
            portfolio signals) := by
  have hlisted : listedCoins casing coins subscriber.watchlist
      (extraSymbols subscriber.watchlist ((coinsHeld trades).getD [])) ≠ [] := by
    intro hnone
    have hsubset := watchlistCoins_subset_listedCoins casing coins subscriber.watchlist
      (extraSymbols subscriber.watchlist ((coinsHeld trades).getD []))
    rw [hnone] at hsubset
    exact hfound (List.subset_nil.mp hsubset)
  rw [digestMessage, hprices]
  exact ⟨_, _, if_neg hlisted⟩

end Chats

/-- **Failures stay where they are.** Whatever fails in a run, every subscriber gets at most one
message and is counted once; a chat's messages depend on what all chats share and on its own
turns and trades only; and a lookup that finds a coin of the watchlist is always followed by a
digest with the watchlist part. -/
theorem sendDailyDigest_isolates_failures (casing : Prices.Casing) (answers : RunAnswers)
    (cronTrackingEnabled : Bool) :
    (∃ run w, sendDailyDigest casing answers.services cronTrackingEnabled ⟨[], []⟩ =
        (.ok run, w) ∧
      run.subscribers = answers.active.length ∧ run.sent + run.failed = answers.active.length) ∧
    (∀ chatId, ((digestsSent casing answers cronTrackingEnabled).filter
        (·.1 = chatId)).length ≤ (answers.active.filter (·.chatId = chatId)).length) ∧
    (∀ other chatId, answers.AgreeAt other chatId →
      (digestsSent casing other cronTrackingEnabled).filter (·.1 = chatId) =
        (digestsSent casing answers cronTrackingEnabled).filter (·.1 = chatId)) ∧
    ∀ (i : ℕ) (subscriber : Subscriber) (extra : List String) (coins : List CoinMarketData),
      answers.active[i]? = some subscriber →
      (lookupsMade casing answers cronTrackingEnabled)[i]? = some (subscriber.watchlist ++ extra) →
      (answers.turn i).prices (subscriber.watchlist ++ extra) = .ok coins →
      watchlistCoins casing coins subscriber.watchlist ≠ [] →
        ∃ portfolio signals, (subscriber.chatId,
          .dailyDigest (listedCoins casing coins subscriber.watchlist extra)
            (answers.cronTrackingLine cronTrackingEnabled) portfolio signals) ∈
              digestsSent casing answers cronTrackingEnabled := by
  refine ⟨?_, fun chatId => ?_, fun other chatId hagree => ?_, ?_⟩
  · obtain ⟨run, hrun, hsubscribers, hcounted⟩ :=
      sendDailyDigest_run casing answers cronTrackingEnabled
    exact ⟨run, _, hrun, hsubscribers, hcounted.trans hsubscribers⟩
  · rw [digestsSent_eq]
    exact length_filter_digestAt_le chatId answers.active 0
  · have hactive : other.active = answers.active := by
      rw [RunAnswers.active, hagree.subscribers, RunAnswers.active]
    have hsignals : other.signalsBySymbol = answers.signalsBySymbol := by
      rw [RunAnswers.signalsBySymbol, hactive, hagree.signals, RunAnswers.signalsBySymbol]
    have hcron : other.cronTrackingLine cronTrackingEnabled =
        answers.cronTrackingLine cronTrackingEnabled := by
      rw [RunAnswers.cronTrackingLine, hagree.invokedAt, RunAnswers.cronTrackingLine]
    rw [digestsSent_eq, digestsSent_eq, hactive, hsignals, hcron]
    -- What all chats share is the same in both runs, so only the chat's own turns are left.
    refine filter_digestAt_congr answers.active 0 hagree.trades.symm fun i subscriber hi hchat => ?_
    rw [Nat.zero_add]
    exact hagree.turn i subscriber hi hchat
  · intro i subscriber extra coins hi hlookup hprices hfound
    have hasked : lookedUp subscriber (answers.tradesOf subscriber.chatId) =
        subscriber.watchlist ++ extra := by
      rw [lookupsMade_eq, List.getElem?_map, hi] at hlookup
      exact Option.some.inj hlookup
    -- The lookup shows which coins were added for the portfolio.
    have hextra : extraSymbols subscriber.watchlist
        ((coinsHeld (answers.tradesOf subscriber.chatId)).getD []) = extra :=
      List.append_cancel_left hasked
    obtain ⟨portfolio, signals, hdigest⟩ := digestMessage_eq answers.signalsBySymbol
      (answers.cronTrackingLine cronTrackingEnabled) (hasked ▸ hprices) hfound
    rw [hextra] at hdigest
    refine ⟨portfolio, signals, ?_⟩
    rw [digestsSent_eq, List.mem_filterMap]
    refine ⟨(subscriber, i), List.mem_zipIdx_iff_getElem?.mpr hi, ?_⟩
    rw [digestAt, hdigest]
    rfl

/-- A turn whose sections can't be built; its lookup may fail as well. -/
def failingTurn (found : Bool) : TurnAnswers where
  prices symbols :=
    if found then .ok (symbols.map fun symbol => ⟨symbol, symbol, symbol, 1, none, none⟩)
    else .error .unexpected
  portfolioSection _ _ := .error .unexpected
  signalsSection _ := .error .unexpected
  delivered _ := true
  verdictsRecorded := .error .unexpected
  usageRecorded := .error .unexpected

/-- A run for two chats. The first holds a coin that is not on its watchlist; of the second, the
trades can be replayed and the lookup answers, or neither. -/
def twoChats (smooth : Bool) : RunAnswers where
  invokedAt := 0
  subscribers := .ok [⟨"a", ["btc"], true, 0⟩, ⟨"b", ["sol"], true, 0⟩]
  trades := .ok (.ofList [("a", [⟨1, .buy, "eth", "1", 1, 0⟩]),
    ("b", if smooth then [] else [⟨1, .sell, "sol", "1", 1, 0⟩])])
  mirrored := .error .unexpected
  signals := .error .unexpected
  turn i := failingTurn (smooth || i = 0)

theorem sendDailyDigest_isolates_failures_twoChats :
    (digestsSent Prices.asciiCasing (twoChats false) false).filter (·.1 = "a") =
        (digestsSent Prices.asciiCasing (twoChats true) false).filter (·.1 = "a") ∧
      ∃ portfolio signals, ("a", .dailyDigest [⟨"btc", "btc", "btc", 1, none, none⟩] none
        portfolio signals) ∈ digestsSent Prices.asciiCasing (twoChats false) false := by
  have hagree : (twoChats true).AgreeAt (twoChats false) "a" := by
    refine ⟨rfl, rfl, rfl, by decide +kernel, fun i subscriber hi hchat => ?_⟩
    match i, hi with
    | 0, _ => rfl
    | 1, hi =>
      obtain rfl := Option.some.inj hi
      exact absurd hchat (by decide)
  obtain ⟨-, -, -, hlisted⟩ :=
    sendDailyDigest_isolates_failures Prices.asciiCasing (twoChats false) false
  refine ⟨(sendDailyDigest_isolates_failures Prices.asciiCasing (twoChats true) false).2.2.1 _ _
    hagree, ?_⟩
  have hlookups : lookupsMade Prices.asciiCasing (twoChats false) false =
      [["btc"] ++ ["eth"], ["sol"]] := by decide +kernel
  have hwatched : watchlistCoins Prices.asciiCasing
      [⟨"btc", "btc", "btc", 1, none, none⟩, ⟨"eth", "eth", "eth", 1, none, none⟩] ["btc"] =
        [⟨"btc", "btc", "btc", 1, none, none⟩] := rfl
  obtain ⟨portfolio, signals, hsent⟩ := hlisted 0 ⟨"a", ["btc"], true, 0⟩ ["eth"]
    [⟨"btc", "btc", "btc", 1, none, none⟩, ⟨"eth", "eth", "eth", 1, none, none⟩] rfl
    (by rw [hlookups]; rfl) rfl (by rw [hwatched]; exact List.cons_ne_nil _ _)
  rw [listedCoins, hwatched] at hsent
  exact ⟨portfolio, signals, hsent⟩

end Controllers

end CryptoZaloBot
