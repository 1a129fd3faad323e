import CryptoZaloBot.Base.System
import CryptoZaloBot.Signals.Check

/-!
# What a chat is told over many runs

Of all the messages a chat got, its state keeps the time of the last one and, for each
coin, the last report – until that is a day old. `CryptoZaloBot.Signals.ChatTold` says
how the state and the whole history go together; each run keeps it
(`CryptoZaloBot.Signals.ChatTold.checkSignals`).

From this, a coin is repeated in the same direction within a day only when it moved on by
five points, a strong coin that was not reported for a day is in the next message, and a
refused send leaves no trace in what the chat counts as told
(`CryptoZaloBot.Signals.coins_told_once`).

Runs do not overlap here, and their writes succeed; what they read, which signals they
find and which sends are accepted is arbitrary.
-/

namespace CryptoZaloBot

namespace Signals

open PriceAlerts (SendOutcome)

/-! ### The runs -/

/-- What is kept between runs, and when the last one ended. -/
structure SignalsState where
  sentStates : SentStates
  endedAt : ℤ

/-- Nobody was told anything. -/
def SignalsState.fresh (clock : ℤ) : SignalsState where
  sentStates _ := none
  endedAt := clock

/-- The writes about what each chat was told succeed. -/
def SignalsRun.Saved (run : SignalsRun) : Prop :=
  ∀ e ∈ run.watchlists.entries,
    (run.env e.1).stateSaved = true ∧ (run.env e.1).refusalSaved = true

instance (run : SignalsRun) : Decidable run.Saved :=
  inferInstanceAs (Decidable (∀ e ∈ run.watchlists.entries, _))

/-- Each send happens during the run. -/
def SignalsRun.Timed (run : SignalsRun) (attempts : List SignalAttempt) : Prop :=
  run.startedAt ≤ run.endedAt ∧
    ∀ a ∈ attempts, run.startedAt ≤ a.sentAt ∧ a.sentAt ≤ run.endedAt

instance (run : SignalsRun) (attempts : List SignalAttempt) : Decidable (run.Timed attempts) :=
  inferInstanceAs (Decidable (_ ∧ ∀ a ∈ attempts, _))

/-- **Runs that do not overlap**, with their sends as outputs. -/
def signalsRuns (casing : Prices.Casing) : System SignalsState SignalsRun SignalAttempt where
  legal s run := s.endedAt ≤ run.startedAt ∧
    run.Timed (checkSignals casing run s.sentStates).attempts ∧ run.Saved
  next s run :=
    { sentStates := (checkSignals casing run s.sentStates).sentStates, endedAt := run.endedAt }
  out s run := (checkSignals casing run s.sentStates).attempts

instance (casing : Prices.Casing) (s : SignalsState) (run : SignalsRun) :
    Decidable ((signalsRuns casing).legal s run) :=
  inferInstanceAs (Decidable (_ ∧ _ ∧ _))

/-! ### The messages of a chat -/

/-- The messages a chat got. -/
def deliveredTo (chatId : String) (attempts : List SignalAttempt) : List SignalAttempt :=
  attempts.filter fun a => a.chatId = chatId ∧ a.outcome = .delivered

/-- What a message says about a coin. -/
def SignalAttempt.report (m : SignalAttempt) (symbol : String) : Option CoinReport :=
  (m.picked.find? fun signal => signal.symbol = symbol).map fun signal => signal.reportAt m.runAt

/-- The last report of a coin. -/
def lastReport (symbol : String) (messages : List SignalAttempt) : Option CoinReport :=
  messages.foldl (fun last m => (m.report symbol).or last) none

@[simp] theorem deliveredTo_append (chatId : String) (as bs : List SignalAttempt) :
    deliveredTo chatId (as ++ bs) = deliveredTo chatId as ++ deliveredTo chatId bs :=
  List.filter_append as bs

@[simp] theorem lastReport_concat (symbol : String) (messages : List SignalAttempt)
    (m : SignalAttempt) :
    lastReport symbol (messages ++ [m]) = (m.report symbol).or (lastReport symbol messages) := by
  simp [lastReport, List.foldl_append]

/-- A report is that of a picked coin. -/
theorem exists_of_report {m : SignalAttempt} {symbol : String} {r : CoinReport}
    (h : m.report symbol = some r) :
    ∃ signal ∈ m.picked, signal.symbol = symbol ∧ signal.reportAt m.runAt = r := by
  obtain ⟨signal, hfind, heq⟩ := Option.map_eq_some_iff.mp h
  have hsymbol : decide (signal.symbol = symbol) = true :=
    List.find?_some (p := fun signal : CoinSignal => decide (signal.symbol = symbol)) hfind
  exact ⟨signal, List.mem_of_find?_eq_some hfind, of_decide_eq_true hsymbol, heq⟩

theorem report_eq_none {m : SignalAttempt} {symbol : String} :
    m.report symbol = none ↔ ∀ signal ∈ m.picked, signal.symbol ≠ symbol := by
  simp [SignalAttempt.report]

theorem sentAt_of_report {m : SignalAttempt} {symbol : String} {r : CoinReport}
    (h : m.report symbol = some r) : r.sentAt = m.runAt := by
  obtain ⟨signal, -, -, rfl⟩ := exists_of_report h
  rfl

theorem exists_of_lastReport {symbol : String} {messages : List SignalAttempt} {r : CoinReport}
    (h : lastReport symbol messages = some r) : ∃ m ∈ messages, m.report symbol = some r := by
  induction messages using List.reverseRecOn with
  | nil => cases h
  | append_singleton messages m ih =>
    rw [lastReport_concat] at h
    cases hreport : m.report symbol with
    | some r' =>
      rw [hreport, Option.some_or] at h
      exact ⟨m, by simp, hreport.trans h⟩
    | none =>
      rw [hreport, Option.none_or] at h
      obtain ⟨m', hm', hr⟩ := ih h
      exact ⟨m', List.mem_append_left [m] hm', hr⟩

/-- The last report of a coin is that of a message, and no later message has one. -/
theorem lastReport_append_cons (earlier later : List SignalAttempt) {symbol : String}
    {m : SignalAttempt} {r : CoinReport} (hr : m.report symbol = some r) :
    ∃ m' ∈ m :: later, lastReport symbol (earlier ++ m :: later) = m'.report symbol ∧
      (m'.report symbol).isSome := by
  induction later using List.reverseRecOn with
  | nil => exact ⟨m, List.mem_singleton_self m, by simp [hr], by simp [hr]⟩
  | append_singleton later m'' ih =>
    obtain ⟨m', hm', heq, hsome⟩ := ih
    rw [← List.cons_append, ← List.append_assoc, lastReport_concat]
    cases hlast : m''.report symbol with
    | some r'' => exact ⟨m'', by simp, by simp [hlast], by simp [hlast]⟩
    | none =>
      exact ⟨m', List.mem_append_left [m''] hm', by simpa using heq, hsome⟩

/-! ### One run -/

section Step

variable {casing : Prices.Casing} {run : SignalsRun} {loaded : SentStates}

theorem deliveredTo_eq_filter (chatId : String) (attempts : List SignalAttempt) :
    deliveredTo chatId attempts =
      (attempts.filter (·.chatId = chatId)).filter (·.outcome = .delivered) := by
  rw [deliveredTo, List.filter_filter]
  refine List.filter_congr fun a _ => ?_
  rw [Bool.decide_and, Bool.and_comm]

variable (casing loaded) in
/-- **A run sends a chat one message and remembers it, or leaves it as it was.** -/
theorem delivered_checkSignals (hsaved : run.Saved) (chatId : String) :
    (∃ signals watchlist, IsDue casing run loaded chatId signals watchlist ∧
      deliveredTo chatId (checkSignals casing run loaded).attempts =
        [attemptTo run chatId (pickedFor casing run signals loaded (chatId, watchlist))] ∧
      (checkSignals casing run loaded).sentStates.previous chatId =
        recordSent (loaded.previous chatId)
          (pickedFor casing run signals loaded (chatId, watchlist)) run.startedAt) ∨
    deliveredTo chatId (checkSignals casing run loaded).attempts = [] ∧
      ((checkSignals casing run loaded).sentStates.previous chatId).told =
        (loaded.previous chatId).told := by
  have hchange :=
    chatChange_checkSignals casing run loaded chatId
  rw [deliveredTo_eq_filter]
  cases hchange with
  | quiet due sent state => exact Or.inr ⟨by rw [sent]; rfl, by rw [previous_of_eq state]⟩
  | @due signals watchlist due sent state =>
    rw [sent]
    by_cases hsend : (run.env chatId).send = .delivered
    · refine Or.inl ⟨signals, watchlist, due, ?_, previous_of_eq_some ?_⟩
      · exact List.filter_eq_self.mpr fun a ha => by
          rw [List.mem_singleton.mp ha]
          exact decide_eq_true hsend
      · rw [state, stateAfter, hsend]
        exact if_pos (hsaved _ due.listed).1
    · refine Or.inr ⟨?_, ?_⟩
      · refine List.filter_eq_nil_iff.mpr fun a ha hdelivered => hsend ?_
        rw [List.mem_singleton.mp ha] at hdelivered
        exact of_decide_eq_true hdelivered
      · by_contra htold
        obtain ⟨a, ha, rfl, hdelivered⟩ := delivered_of_told htold
        have hmem := sent ▸ List.mem_filter.mpr ⟨ha, decide_eq_true rfl⟩
        rw [List.mem_singleton.mp hmem] at hdelivered
        exact hsend hdelivered

theorem picked_functional {signals : List CoinSignal} {entry : String × List String}
    {g g' : CoinSignal} (h : g ∈ pickedFor casing run signals loaded entry)
    (h' : g' ∈ pickedFor casing run signals loaded entry) (heq : g.symbol = g'.symbol) : g = g' :=
  chatSignals_functional (mem_selectCoinsToAlert.mp h).2.1 (mem_selectCoinsToAlert.mp h').2.1 heq

end Step

/-! ### The state and the history -/

/-- A message repeats a coin in the same direction within the window only if the coin
moved on since its last report. -/
def FollowsUp (earlier : List SignalAttempt) (m : SignalAttempt) : Prop :=
  ∀ symbol, ∀ r ∈ m.report symbol, ∀ last ∈ lastReport symbol earlier,
    last.direction = r.direction → m.runAt - last.sentAt < repeatWindowMs →
      |last.movePct| + repeatExtraPp - compareEpsilon ≤ |r.movePct|

/-- **What a chat counts as told, and all it was told.** -/
structure ChatTold (state : ChatSignalState) (messages : List SignalAttempt) (clock : ℤ) :
    Prop where
  past : ∀ m ∈ messages, m.runAt ≤ clock
  ordered : messages.Pairwise fun m m' => m.runAt ≤ m'.runAt
  lastSent : state.lastSentAt = messages.getLast?.map SignalAttempt.runAt
  /-- A last report is only forgotten when it is out of the window. -/
  remembered : ∀ symbol, ∀ r ∈ lastReport symbol messages,
    state.coins symbol = some r ∨ r.sentAt + repeatWindowMs ≤ clock
  reported : ∀ symbol, ∀ r ∈ state.coins symbol, lastReport symbol messages = some r
  followsUp : ∀ earlier m, earlier ++ [m] <+: messages → FollowsUp earlier m

namespace ChatTold

variable {state : ChatSignalState} {messages : List SignalAttempt} {clock clock' : ℤ}

theorem fresh (clock : ℤ) : ChatTold freshState [] clock where
  past m hm := absurd hm List.not_mem_nil
  ordered := List.Pairwise.nil
  lastSent := rfl
  remembered _ _ h := nomatch h
  reported _ _ h := nomatch h
  followsUp earlier m h := by simp at h

/-- Time passes, and nothing is told. -/
theorem quiet (h : ChatTold state messages clock) {state' : ChatSignalState}
    (htold : state'.told = state.told) (hclock : clock ≤ clock') :
    ChatTold state' messages clock' := by
  obtain ⟨hsent, hcoins⟩ := Prod.mk.inj htold
  exact {
    past := fun m hm => (h.past m hm).trans hclock
    ordered := h.ordered
    lastSent := hsent.trans h.lastSent
    remembered := fun symbol r hr => by
      rw [hcoins]
      exact (h.remembered symbol r hr).imp_right fun hold => hold.trans hclock
    reported := fun symbol r hr => h.reported symbol r (hcoins ▸ hr)
    followsUp := h.followsUp }

/-- Outside of its last report, a coin of a message is on the message. -/
theorem coins_recordSent {m : SignalAttempt}
    (hone : ∀ g ∈ m.picked, ∀ g' ∈ m.picked, g.symbol = g'.symbol → g = g') (symbol : String) :
    (recordSent state m.picked m.runAt).coins symbol =
      (m.report symbol).or (recentReports state m.runAt symbol) := by
  cases hreport : m.report symbol with
  | none => exact coins_recordSent_of_notMem state m.runAt (report_eq_none.mp hreport)
  | some r =>
    obtain ⟨signal, hmem, rfl, rfl⟩ := exists_of_report hreport
    exact coins_recordSent_of_mem state m.runAt hmem fun g hg heq => hone g hg signal hmem heq

/-- **The next message is news**, told by the history. -/
theorem followsUp_next (h : ChatTold state messages clock) {m : SignalAttempt}
    (hnews : ∀ signal ∈ m.picked, isNews state m.runAt signal = true)
    (hnow : clock ≤ m.runAt) : FollowsUp messages m := by
  rintro symbol r hr last hlast hdir hrecent
  obtain ⟨signal, hmem, rfl, rfl⟩ := exists_of_report hr
  have hcoins : state.coins signal.symbol = some last :=
    (h.remembered _ last hlast).resolve_right fun hold => by omega
  exact isNews_of_recent (hnews signal hmem) hcoins hrecent hdir

/-- **A message was sent**, and the state remembers it. -/
theorem sent (h : ChatTold state messages clock) {m : SignalAttempt}
    (hone : ∀ g ∈ m.picked, ∀ g' ∈ m.picked, g.symbol = g'.symbol → g = g')
    (hnews : ∀ signal ∈ m.picked, isNews state m.runAt signal = true)
    (hnow : clock ≤ m.runAt) (hclock : m.runAt ≤ clock') :
    ChatTold (recordSent state m.picked m.runAt) (messages ++ [m]) clock' where
  past m' hm' := by
    rcases List.mem_append.mp hm' with hm' | hm'
    · exact ((h.past m' hm').trans hnow).trans hclock
    · rwa [List.mem_singleton.mp hm']
  ordered := by
    refine List.pairwise_append.mpr ⟨h.ordered, List.pairwise_singleton _ _, ?_⟩
    intro m' hm' m'' hm''
    rw [List.mem_singleton.mp hm'']
    exact (h.past m' hm').trans hnow
  lastSent := by simp [recordSent]
  remembered symbol r hr := by
    rw [coins_recordSent hone]
    rw [lastReport_concat] at hr
    cases hreport : m.report symbol with
    | some r' =>
      rw [hreport, Option.some_or] at hr
      exact Or.inl hr
    | none =>
      rw [hreport, Option.none_or] at hr
      rw [Option.none_or]
      rcases h.remembered symbol r hr with hcoins | hold
      · by_cases hrecent : m.runAt - r.sentAt < repeatWindowMs
        · exact Or.inl (by simp [recentReports, hcoins, hrecent])
        · exact Or.inr (by omega)
      · exact Or.inr (by omega)
  reported symbol r hr := by
    rw [coins_recordSent hone] at hr
    rw [lastReport_concat]
    cases hreport : m.report symbol with
    | some r' =>
      rw [hreport, Option.some_or] at hr
      exact hr
    | none =>
      rw [hreport, Option.none_or] at hr
      rw [Option.none_or]
      exact h.reported symbol r (Option.eq_some_of_filter_eq_some hr)
  followsUp earlier m' hprefix := by
    rcases List.prefix_concat_iff.mp hprefix with heq | hprefix
    · obtain ⟨rfl, hm'⟩ := List.append_inj' heq rfl
      obtain rfl := List.singleton_inj.mp hm'
      exact h.followsUp_next hnews hnow
    · exact h.followsUp earlier m' hprefix

/-- **One run** keeps state and history together. -/
theorem checkSignals {casing : Prices.Casing} {run : SignalsRun} {loaded : SentStates}
    {chatId : String} (h : ChatTold (loaded.previous chatId) messages clock)
    (hclock : clock ≤ run.startedAt) (hends : run.startedAt ≤ run.endedAt)
    (hsaved : run.Saved) :
    ChatTold ((Signals.checkSignals casing run loaded).sentStates.previous chatId)
      (messages ++ deliveredTo chatId (Signals.checkSignals casing run loaded).attempts)
      run.endedAt := by
  rcases delivered_checkSignals casing loaded hsaved chatId with
    ⟨signals, watchlist, due, hsent, hstate⟩ | ⟨hsent, htold⟩
  · rw [hsent, hstate]
    exact h.sent (m := attemptTo run chatId _) (fun g hg g' hg' => picked_functional hg hg')
      (fun signal hmem => (mem_selectCoinsToAlert.mp hmem).2.2) hclock hends
  · rw [hsent, List.append_nil]
    exact h.quiet htold (hclock.trans hends)

/-- **The state and the history go together** wherever runs lead. -/
theorem of_run {casing : Prices.Casing} {runs : List SignalsRun}
    (hrun : (signalsRuns casing).Run (.fresh clock) runs) (chatId : String) :
    ChatTold (((signalsRuns casing).final (.fresh clock) runs).sentStates.previous chatId)
      (deliveredTo chatId ((signalsRuns casing).outputs (.fresh clock) runs))
      ((signalsRuns casing).final (.fresh clock) runs).endedAt := by
  refine System.Run.history (J := fun s h =>
    ∀ chatId, ChatTold (s.sentStates.previous chatId) (deliveredTo chatId h) s.endedAt)
    (fun s h run hs hlegal chatId => ?_) (h := []) (fun chatId => .fresh clock) hrun chatId
  obtain ⟨hclock, ⟨hends, -⟩, hsaved⟩ := hlegal
  rw [deliveredTo_append]
  exact (hs chatId).checkSignals hclock hends hsaved

end ChatTold

/-! ### What a chat can rely on -/

theorem FollowsUp.of_between {xs ys : List SignalAttempt} {m₁ m₂ : SignalAttempt}
    (h : FollowsUp (xs ++ m₁ :: ys) m₂)
    (hordered : (xs ++ m₁ :: ys).Pairwise fun m m' => m.runAt ≤ m'.runAt) {symbol : String}
    {r₁ r₂ : CoinReport} (hr₁ : m₁.report symbol = some r₁) (hr₂ : m₂.report symbol = some r₂)
    (hdir : r₁.direction = r₂.direction) (hwindow : m₂.runAt - m₁.runAt < repeatWindowMs)
    (hsame : ∀ m ∈ ys, ∀ r ∈ m.report symbol, r.direction = r₁.direction) :
    ∃ r ∈ lastReport symbol (xs ++ m₁ :: ys),
      |r.movePct| + repeatExtraPp - compareEpsilon ≤ |r₂.movePct| := by
  obtain ⟨m, hm, hlast, hsome⟩ := lastReport_append_cons xs ys hr₁
  obtain ⟨r, hr⟩ := Option.isSome_iff_exists.mp hsome
  rw [hr] at hlast
  refine ⟨r, hlast, h symbol r₂ hr₂ r hlast ?_ ?_⟩
  · rcases List.mem_cons.mp hm with rfl | hm
    · rw [hr₁] at hr
      rw [← Option.some.inj hr, hdir]
    · rw [hsame m hm r hr, hdir]
  · have hafter : m₁.runAt ≤ m.runAt := by
      rcases List.mem_cons.mp hm with rfl | hm
      · exact le_rfl
      · exact (List.pairwise_cons.mp (List.pairwise_append.mp hordered).2.1).1 m hm
    rw [sentAt_of_report hr]
    omega

/-- **What a chat can rely on**, over any sequence of runs. Two messages in a row that
report a coin in the same direction within 24 hours – no message between them reporting
it in another one – are five points apart from the last report; a strong coin of the
watchlist that was not reported for 24 hours is in the next message; and a send that was
refused changes nothing in what the chat counts as told. -/
theorem coins_told_once (casing : Prices.Casing) (clock : ℤ) (runs : List SignalsRun)
    (hrun : (signalsRuns casing).Run (.fresh clock) runs) (chatId : String) :
    (∀ xs m₁ ys m₂ zs symbol r₁ r₂,
      deliveredTo chatId ((signalsRuns casing).outputs (.fresh clock) runs) =
        xs ++ m₁ :: ys ++ m₂ :: zs →
      m₁.report symbol = some r₁ → m₂.report symbol = some r₂ →
      r₁.direction = r₂.direction → m₂.runAt - m₁.runAt < repeatWindowMs →
      (∀ m ∈ ys, ∀ r ∈ m.report symbol, r.direction = r₁.direction) →
      ∃ r ∈ lastReport symbol (xs ++ m₁ :: ys),
        |r.movePct| + repeatExtraPp - compareEpsilon ≤ |r₂.movePct|) ∧
    (∀ pre run post, runs = pre ++ run :: post →
      ∀ a ∈ (signalsRuns casing).out ((signalsRuns casing).final (.fresh clock) pre) run,
        a.chatId = chatId → ∀ signals watchlist,
        run.lookup (watchedSymbols casing run) = some signals →
        run.watchlists.get? chatId = some watchlist →
        ∀ signal ∈ chatSignals casing signals watchlist, isStrong signal = true →
        (∀ m ∈ deliveredTo chatId ((signalsRuns casing).outputs (.fresh clock) pre),
          (m.report signal.symbol).isSome → m.runAt + repeatWindowMs ≤ run.startedAt) →
        signal ∈ a.picked) ∧
    (∀ pre run post, runs = pre ++ run :: post →
      ∀ a ∈ (signalsRuns casing).out ((signalsRuns casing).final (.fresh clock) pre) run,
        a.chatId = chatId → a.outcome = .refused →
        (((signalsRuns casing).final (.fresh clock) (pre ++ [run])).sentStates.previous
            chatId).told =
          (((signalsRuns casing).final (.fresh clock) pre).sentStates.previous chatId).told) := by
  have htold := ChatTold.of_run hrun chatId
  refine ⟨?_, ?_, ?_⟩
  · intro xs m₁ ys m₂ zs symbol r₁ r₂ hsplit hr₁ hr₂ hdir hwindow hsame
    rw [hsplit] at htold
    have hprefix : xs ++ m₁ :: ys ++ [m₂] <+: xs ++ m₁ :: ys ++ m₂ :: zs := ⟨zs, by simp⟩
    exact (htold.followsUp _ m₂ hprefix).of_between (List.pairwise_append.mp htold.ordered).1
      hr₁ hr₂ hdir hwindow hsame
  · rintro pre run post rfl a ha rfl signals watchlist hlookup hlist signal hmem hstrong hold
    have hpre := ChatTold.of_run ((System.run_append _ _ _ _).mp hrun).1 a.chatId
    obtain ⟨signals', watchlist', due, heq⟩ := exists_due_of_attempt ha
    obtain rfl := Option.some.inj (due.lookup.symm.trans hlookup)
    obtain rfl := Option.some.inj ((InsertionMap.mem_entries.mp due.listed).symm.trans hlist)
    -- What the state has on the coin was delivered once, a repeat window ago at least.
    have hnews := isNews_of_unreported run.startedAt hstrong fun previous hprevious => by
      obtain ⟨m, hm, hr⟩ := exists_of_lastReport (hpre.reported signal.symbol previous hprevious)
      have := hold m hm (hr ▸ rfl)
      rw [sentAt_of_report hr]
      omega
    rw [heq]
    exact mem_selectCoinsToAlert.mpr ⟨isCoolingDown_of_due due, hmem, hnews⟩
  · rintro pre run post rfl a ha rfl hrefused
    rw [System.final_append]
    by_contra htold'
    obtain ⟨b, hb, hchat, hdelivered⟩ := delivered_of_told htold'
    rw [attempt_unique ha hb hchat.symm, hdelivered] at hrefused
    cases hrefused

/-- A strong signal with the given move. -/
def swing (symbol : String) (move : ℚ) : CoinSignal where
  symbol := symbol
  result :=
    { emptyResult (.finite 100) with
      insufficientData := false
      strong := true
      direction := some (directionOf move)
      movePct := some move
      verdict := some .watch }

/-- Surroundings in which every send is accepted, after `delayMs`. -/
def onTime (startedAt delayMs : ℤ) : ChatEnv where
  elapsedMs := 0
  send := .delivered
  sentAt := startedAt + delayMs
  stateSaved := true
  verdictsRecorded := true
  refusalSaved := true

/-- A run for one chat that watches one coin. -/
def btcRun (startedAt delayMs : ℤ) (move : ℚ) : SignalsRun where
  startedAt := startedAt
  endedAt := startedAt + delayMs
  lock := .acquired
  storesRead := true
  watchlists := .ofList [("chat", ["btc"])]
  extras := []
  disabled := []
  lookup _ := some [swing "btc" move]
  env _ := onTime startedAt delayMs

theorem coins_told_once_of_growing :
    ∃ r ∈ lastReport "btc" [attemptTo (btcRun 0 1000 9) "chat" [swing "btc" 9]],
      |r.movePct| + repeatExtraPp - compareEpsilon ≤ |(15 : ℚ)| :=
  (coins_told_once Prices.asciiCasing 0 [btcRun 0 1000 9, btcRun (2 * hourMs) 1000 15]
    (by decide +kernel) "chat").1 [] (attemptTo (btcRun 0 1000 9) "chat" [swing "btc" 9]) []
    (attemptTo (btcRun (2 * hourMs) 1000 15) "chat" [swing "btc" 15]) [] "btc"
    ((swing "btc" 9).reportAt 0) ((swing "btc" 15).reportAt (2 * hourMs))
    (by decide +kernel) (by decide +kernel) (by decide +kernel) (by decide +kernel)
    (by decide +kernel) (fun _ h => nomatch h)

end Signals

end CryptoZaloBot
