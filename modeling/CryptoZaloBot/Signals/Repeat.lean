import CryptoZaloBot.Base.Writes
import CryptoZaloBot.Signals.Evaluator

/-!
# What a chat is told, and when

`signal-repeat.ts`. Of each chat is kept when it was last messaged, what the last message
said about each coin, and how many sends to it were refused in a row. From this a run
picks the coins to report (`CryptoZaloBot.Signals.selectCoinsToAlert`): none for an hour
after a message, and a coin only if it was not reported for a day, or turned, or moved on
by five points.
-/

namespace CryptoZaloBot

namespace Signals

/-! ### Constants -/

/-- At most one proactive signal message per chat per this window. -/
def sendCooldownMs : ℤ := hourMs

/-- A coin already reported in the same direction is not reported again within this
window. -/
def repeatWindowMs : ℤ := dayMs

/-- ...unless the move grew by at least this many percentage points. -/
def repeatExtraPp : ℚ := 5

/-- After this many refused sends in a row a chat is tried only once per
`sendBackoffMs`. -/
def sendFailuresBeforeBackoff : ℕ := 3

def sendBackoffMs : ℤ := 6 * hourMs

/-! ### The state of a chat -/

/-- What the last message that reported a coin said. -/
structure CoinReport where
  sentAt : ℤ
  direction : Option SwingDirection
  movePct : ℚ
  deriving DecidableEq

/-- **What a chat was last told.** -/
structure ChatSignalState where
  /-- The last proactive signal message. -/
  lastSentAt : Option ℤ
  /-- Sends in a row that Zalo refused; absent or 0 when the last send worked. -/
  failures : Option ℕ
  /-- The last refused send. -/
  failedAt : Option ℤ
  /-- Per coin symbol. -/
  coins : String → Option CoinReport

/-- `FRESH_STATE`. -/
def freshState : ChatSignalState where
  lastSentAt := none
  failures := none
  failedAt := none
  coins _ := none

/-- What counts as told; refusals leave it alone. -/
def ChatSignalState.told (state : ChatSignalState) : Option ℤ × (String → Option CoinReport) :=
  (state.lastSentAt, state.coins)

/-! ### Picking coins -/

def isStrong (signal : CoinSignal) : Bool :=
  signal.result.strong && !signal.result.insufficientData && signal.result.movePct.isSome

/-- The chat got a message less than an hour ago. -/
def isCoolingDown (state : ChatSignalState) (now : ℤ) : Bool :=
  match state.lastSentAt with
  | none => false
  | some t => now - t < sendCooldownMs

/-- A strong coin that was not reported, or has turned or moved on since. A move of
`null` counts as 0. The moves are compared as exact fractions, where the source adds doubles. -/
def isNews (state : ChatSignalState) (now : ℤ) (signal : CoinSignal) : Bool :=
  isStrong signal &&
    match state.coins signal.symbol with
    | none => true
    | some previous =>
      decide (repeatWindowMs ≤ now - previous.sentAt) ||
        decide (previous.direction ≠ signal.result.direction) ||
        decide (|previous.movePct| + repeatExtraPp - compareEpsilon ≤
          |signal.result.movePct.getD 0|)

/-- **`selectCoinsToAlert`.** -/
def selectCoinsToAlert (signals : List CoinSignal) (state : ChatSignalState) (now : ℤ) :
    List CoinSignal :=
  if isCoolingDown state now then [] else signals.filter (isNews state now)

/-- **`isBackedOff`.** -/
def isBackedOff (state : ChatSignalState) (now : ℤ) : Bool :=
  decide (sendFailuresBeforeBackoff ≤ state.failures.getD 0) &&
    match state.failedAt with
    | none => false
    | some t => now - t < sendBackoffMs

/-- `recordFailed`: what the chat was told is unchanged. -/
def recordFailed (state : ChatSignalState) (now : ℤ) : ChatSignalState :=
  { state with failures := some (state.failures.getD 0 + 1), failedAt := some now }

/-- What a message sent at `now` says about a coin. -/
def CoinSignal.reportAt (signal : CoinSignal) (now : ℤ) : CoinReport where
  sentAt := now
  direction := signal.result.direction
  movePct := signal.result.movePct.getD 0

/-- The reports still inside the repeat window. -/
def recentReports (state : ChatSignalState) (now : ℤ) (symbol : String) : Option CoinReport :=
  (state.coins symbol).filter fun entry => decide (now - entry.sentAt < repeatWindowMs)

/-- **`recordSent`**: entries past the repeat window are dropped. -/
def recordSent (state : ChatSignalState) (sent : List CoinSignal) (now : ℤ) :
    ChatSignalState where
  lastSentAt := some now
  failures := none
  failedAt := none
  coins := writeAll CoinSignal.symbol (fun signal => some (signal.reportAt now))
    (recentReports state now) sent

@[simp] theorem told_recordFailed (state : ChatSignalState) (now : ℤ) :
    (recordFailed state now).told = state.told := rfl

theorem isCoolingDown_eq_false {state : ChatSignalState} {now : ℤ} :
    isCoolingDown state now = false ↔ ∀ t ∈ state.lastSentAt, t + sendCooldownMs ≤ now := by
  rw [isCoolingDown]
  cases state.lastSentAt with
  | none => simp
  | some t =>
    simp only [decide_eq_false_iff_not, Option.mem_def, Option.some.injEq, forall_eq']
    omega

/-- Only a chat that is not cooling down has a coin picked. -/
theorem mem_selectCoinsToAlert {signals : List CoinSignal} {state : ChatSignalState} {now : ℤ}
    {signal : CoinSignal} :
    signal ∈ selectCoinsToAlert signals state now ↔
      isCoolingDown state now = false ∧ signal ∈ signals ∧ isNews state now signal = true := by
  rw [selectCoinsToAlert]
  cases hcool : isCoolingDown state now with
  | true => simp
  | false => simp

theorem isCoolingDown_of_picked {signals : List CoinSignal} {state : ChatSignalState} {now : ℤ}
    (h : selectCoinsToAlert signals state now ≠ []) : isCoolingDown state now = false := by
  obtain ⟨signal, hmem⟩ := List.exists_mem_of_ne_nil _ h
  exact (mem_selectCoinsToAlert.mp hmem).1

/-- **A coin reported within the window is only news if it turned or moved on.** -/
theorem isNews_of_recent {state : ChatSignalState} {now : ℤ} {signal : CoinSignal}
    {previous : CoinReport} (hnews : isNews state now signal = true)
    (hprev : state.coins signal.symbol = some previous)
    (hrecent : now - previous.sentAt < repeatWindowMs)
    (hdir : previous.direction = signal.result.direction) :
    |previous.movePct| + repeatExtraPp - compareEpsilon ≤ |signal.result.movePct.getD 0| := by
  rw [isNews, hprev] at hnews
  have hlt : ¬repeatWindowMs ≤ now - previous.sentAt := by omega
  simpa [hlt, hdir] using (Bool.and_eq_true_iff.mp hnews).2

/-- **A strong coin without a report inside the window is news.** -/
theorem isNews_of_unreported {state : ChatSignalState} (now : ℤ) {signal : CoinSignal}
    (hstrong : isStrong signal = true)
    (hold : ∀ previous ∈ state.coins signal.symbol, repeatWindowMs ≤ now - previous.sentAt) :
    isNews state now signal = true := by
  rw [isNews, hstrong, Bool.true_and]
  cases hprev : state.coins signal.symbol with
  | none => rfl
  | some previous => simp [hold previous hprev]

/-! ### After a message -/

/-- A coin the message did not mention keeps its report, if it is recent. -/
theorem coins_recordSent_of_notMem (state : ChatSignalState) {sent : List CoinSignal} (now : ℤ)
    {symbol : String} (h : ∀ signal ∈ sent, signal.symbol ≠ symbol) :
    (recordSent state sent now).coins symbol = recentReports state now symbol :=
  writeAll_of_forall_ne _ h

/-- A coin the message mentioned has that as its report. -/
theorem coins_recordSent_of_mem (state : ChatSignalState) {sent : List CoinSignal} (now : ℤ)
    {signal : CoinSignal} (hmem : signal ∈ sent)
    (hone : ∀ g ∈ sent, g.symbol = signal.symbol → g = signal) :
    (recordSent state sent now).coins signal.symbol = some (signal.reportAt now) :=
  writeAll_of_mem _ ⟨signal, hmem, rfl⟩ fun g hg heq => by rw [hone g hg heq]

end Signals

end CryptoZaloBot
