import Mathlib.Logic.Function.Basic
import CryptoZaloBot.Base.System
import CryptoZaloBot.Monitor.Rules

/-!
# The monitor service

`PriceAlertsMonitorService`: the rules run against Redis, and the owner is messaged. Any
of several instances may execute a run, and reading the state, saving it, or sending may
fail.

A message that was delivered but could not be recorded is **held**: for an hour, repeats
of it count as delivered. There is one hold for each kind of message, about one outage, in
Redis and in the memory of the instance that sent it, and the memory is asked first
(`CryptoZaloBot.Monitor.World.findHold`). From the hold of a `down` the watcher also puts
back an outage that its stored state does not know
(`CryptoZaloBot.Monitor.World.withUnrecordedOutage`).

Runs do not overlap, but come in any order and on any instance
(`CryptoZaloBot.Monitor.monitoring`). The texts of the messages, and the number of alerts
they mention, are left out.
-/

namespace CryptoZaloBot

namespace Monitor

open PriceAlerts (minutes)

/-! ### Constants -/

/-- How long repeats of a message are held. -/
def stateUnreadableNoticeMs : ℤ := minutes 60

/-- 1.5 watcher intervals: the last save failed, or the watcher was down. -/
def watcherStateStaleMs : ℤ := 450000

/-- What the watcher reads of the run log. -/
def monitorRunsWindow : ℕ := 30

def maxRunLogEntries : ℕ := 1440

/-! ### Holds -/

inductive NoticeHoldKind where
  | stateUnreadable
  | outage
  | recovered
  | watcherDown
  | watcherRecovered
  deriving DecidableEq

/-- A held message. -/
structure NoticeHold where
  sentAt : ℤ
  /-- The outage it is about; absent for `stateUnreadable`. -/
  since : Option ℤ
  deriving DecidableEq

/-- The hold a message falls under; the outage it is about is
`CryptoZaloBot.Monitor.MonitorAction.since`. -/
def holdOf (action : MonitorAction) : NoticeHoldKind :=
  match action.kind with
  | .down => .outage
  | .reminder => .outage
  | .recovered => .recovered
  | .watcherDown => .watcherDown
  | .watcherRecovered => .watcherRecovered

theorem holdOf_eq_outage {a : MonitorAction} (h : holdOf a = .outage) :
    a.kind = .down ∨ a.kind = .reminder := by
  rw [holdOf] at h
  cases hkind : a.kind <;> simp [hkind] at h ⊢

theorem holdOf_eq_recovered {a : MonitorAction} (h : holdOf a = .recovered) :
    a.kind = .recovered := by
  rw [holdOf] at h
  cases hkind : a.kind <;> simp [hkind] at h ⊢

/-- A hold lasts an hour from the message it holds. -/
def NoticeHold.live (now : ℤ) (hold : NoticeHold) : Bool :=
  now - hold.sentAt < stateUnreadableNoticeMs

/-! ### The world -/

/-- **What the instances share and remember.** -/
structure World (ι : Type) where
  monitor : Option MonitorState
  watchdog : Option WatchdogState
  /-- The run log, newest first. -/
  runs : List LoggedRun
  /-- The holds in Redis, each with a time to live of an hour. -/
  noticeHolds : NoticeHoldKind → Option NoticeHold
  /-- The holds in the memory of each instance. -/
  memoryHolds : ι → NoticeHoldKind → Option NoticeHold

/-- Which of the hold commands of a run Redis carries out. -/
structure HoldAnswers where
  /-- `getNoticeHold`, for the outage to put back. -/
  restore : Bool := true
  /-- `getNoticeHold`, for the message that is due. -/
  find : Bool := true
  claim : Bool := true
  release : Bool := true
  set : Bool := true
  deriving DecidableEq

/-- A run of the watcher or of its check, and how its surroundings answer. -/
structure MonitorRun (ι : Type) where
  host : ι
  now : ℤ
  /-- The state, and what else the run reads first, could be read. -/
  readOk : Bool := true
  saveOk : Bool := true
  /-- Zalo accepts a message. -/
  delivered : Bool := true
  holdAnswers : HoldAnswers := {}
  /-- Zero if the count cannot be read. -/
  rejectionsSince : ℤ → ℕ := fun _ => 0

/-- A message to the owner. -/
inductive OwnerMessage where
  | about (action : MonitorAction)
  | stateUnreadable
  deriving DecidableEq

/-- The hold a message falls under, and the outage it is about. -/
def OwnerMessage.topic : OwnerMessage → NoticeHoldKind × Option ℤ
  | about action => (holdOf action, some action.since)
  | stateUnreadable => (.stateUnreadable, none)

/-- A message that was sent, and whether it was delivered. -/
structure MonitorNotice where
  message : OwnerMessage
  sentAt : ℤ
  delivered : Bool
  deriving DecidableEq

/-- Delivered now, or earlier and held: when the owner got the message. -/
structure Sent where
  sentAt : ℤ
  held : Bool
  deriving DecidableEq

namespace World

variable {ι : Type} (w : World ι)

def getNoticeHold (kind : NoticeHoldKind) (now : ℤ) : Option NoticeHold :=
  (w.noticeHolds kind).filter (NoticeHold.live now)

def memoryHold (host : ι) (kind : NoticeHoldKind) (now : ℤ) : Option NoticeHold :=
  (w.memoryHolds host kind).filter (NoticeHold.live now)

/-- **This instance's memory hold, else the shared one.** -/
def findHold (host : ι) (kind : NoticeHoldKind) (now : ℤ) (answered : Bool) :
    Option NoticeHold :=
  (w.memoryHold host kind now).or (if answered then w.getNoticeHold kind now else none)

def setNoticeHold (kind : NoticeHoldKind) (hold : NoticeHold) : World ι :=
  { w with noticeHolds := Function.update w.noticeHolds kind (some hold) }

def releaseNoticeHold (kind : NoticeHoldKind) : World ι :=
  { w with noticeHolds := Function.update w.noticeHolds kind none }

variable [DecidableEq ι]

def setMemoryHold (host : ι) (kind : NoticeHoldKind) (hold : NoticeHold) : World ι :=
  { w with
    memoryHolds := Function.update w.memoryHolds host
      (Function.update (w.memoryHolds host) kind (some hold)) }

/-- A message went out but its state did not save. -/
def holdAfterUnrecordedSend (run : MonitorRun ι) (action : MonitorAction) : World ι :=
  let hold : NoticeHold := ⟨run.now, some action.since⟩
  let remembered := w.setMemoryHold run.host (holdOf action) hold
  if run.holdAnswers.set then remembered.setNoticeHold (holdOf action) hold else remembered

end World

/-! ### Sending -/

section Send

variable {ι : Type} (ownerChatId : Option String)

/-- Without an owner chat nothing is sent. -/
def send (message : OwnerMessage) (run : MonitorRun ι) : Bool × List MonitorNotice :=
  match ownerChatId with
  | none => (false, [])
  | some _ => (run.delivered, [⟨message, run.now, run.delivered⟩])

/-- **Sends a message unless its hold says that this very message already went out** – then
it counts as delivered when the hold was taken. -/
def notify (w : World ι) (run : MonitorRun ι) (action : MonitorAction) :
    Option Sent × List MonitorNotice :=
  match (w.findHold run.host (holdOf action) run.now run.holdAnswers.find).filter
      (·.since = some action.since) with
  | some hold => (some ⟨hold.sentAt, true⟩, [])
  | none =>
    let (delivered, notices) := send ownerChatId (.about action) run
    (if delivered then some ⟨run.now, false⟩ else none, notices)

/-- **The "can't read state" notice.** Its hold is claimed before it is sent; a send that
fails gives the claim back. -/
def sendUnrecorded [DecidableEq ι] (w : World ι) (run : MonitorRun ι) :
    World ι × List MonitorNotice :=
  if (w.memoryHold run.host .stateUnreadable run.now).isSome then (w, [])
  else
    let hold : NoticeHold := ⟨run.now, none⟩
    -- `none`: Redis could not take the claim, so that this instance's memory stands in.
    let claimed : Option Bool :=
      if run.holdAnswers.claim then some (w.getNoticeHold .stateUnreadable run.now).isNone else none
    if claimed = some false then (w, [])
    else
      let claimedWorld := if claimed = some true then w.setNoticeHold .stateUnreadable hold else w
      let (delivered, notices) := send ownerChatId .stateUnreadable run
      if delivered then (claimedWorld.setMemoryHold run.host .stateUnreadable hold, notices)
      else if claimed = some true ∧ run.holdAnswers.release then
        (claimedWorld.releaseNoticeHold .stateUnreadable, notices)
      else (claimedWorld, notices)

end Send

/-- The outage to store after a send: a held message was delivered when its hold was
taken. -/
def notifiedOutage (outage : Option OutageState) (sent : Option Sent) : Option OutageState :=
  match outage, sent with
  | some o, some s => some (if o.notifiedAt.isSome then ⟨o.since, some s.sentAt⟩ else o)
  | outage, _ => outage

/-! ### The watcher's run -/

section Watcher

variable {ι : Type} (ownerChatId : Option String) (w : World ι) (run : MonitorRun ι)

/-- **An outage the stored state does not know** is put back from its hold: if the state is
stale, and nothing in it speaks against the hold. -/
def World.withUnrecordedOutage (state : Option MonitorState) : Option MonitorState :=
  match state with
  | none => none
  | some m =>
    if ∃ o ∈ m.outage, o.notifiedAt.isSome then some m
    else if run.now - m.lastWatcherRunAt ≤ watcherStateStaleMs then some m
    else
      match w.findHold run.host .outage run.now run.holdAnswers.restore with
      | some ⟨sentAt, some since⟩ =>
        if ∃ o ∈ m.outage, o.since ≠ since then some m
        -- The hold is about an outage that has ended.
        else if ∃ l ∈ m.lastHealthyAt, since < l then some m
        else some { m with outage := some ⟨since, some sentAt⟩ }
      | _ => some m

/-- The state a watcher run starts from. -/
def World.loadedState : Option MonitorState := w.withUnrecordedOutage run w.monitor

/-- The check runs a watcher run looks at. -/
def World.recentRuns : List LoggedRun := w.runs.take monitorRunsWindow

/-- What a watcher run decides; rejected calls are only counted for a message that is
due. -/
def World.watcherDecision : MonitorDecision MonitorState :=
  let decision := evaluateMonitor (w.loadedState run) w.recentRuns run.now fun _ => 0
  match decision.action with
  | some (.down report) =>
    evaluateMonitor (w.loadedState run) w.recentRuns run.now fun _ =>
      run.rejectionsSince report.since
  | some (.reminder report) =>
    evaluateMonitor (w.loadedState run) w.recentRuns run.now fun _ =>
      run.rejectionsSince report.since
  | _ => decision

/-- What a look at the watcher decides. -/
def World.watchdogDecision : MonitorDecision WatchdogState :=
  evaluateWatchdog w.watchdog (w.monitor.map MonitorState.lastWatcherRunAt) run.now

/-- The state to store after a watcher run. -/
def nextMonitor (decision : MonitorDecision MonitorState) (sent : Option Sent) : MonitorState :=
  let next := decision.after sent.isSome
  { next with
    outage := notifiedOutage next.outage sent
    ownerChatConfigured := some ownerChatId.isSome }

/-- The state to store after a look at the watcher. -/
def nextWatchdog (decision : MonitorDecision WatchdogState) (sent : Option Sent) :
    WatchdogState :=
  ⟨notifiedOutage (decision.after sent.isSome).outage sent⟩

/-- A message that is due, if there is one. -/
def notifyDue (action : Option MonitorAction) : Option Sent × List MonitorNotice :=
  match action with
  | some action => notify ownerChatId w run action
  | none => (none, [])

variable [DecidableEq ι]

/-- What is left of a run: the state it saves, or the hold on what it sent in vain. -/
def World.record (saved : World ι) (action : Option MonitorAction) (sent : Option Sent) :
    World ι :=
  if run.saveOk then saved
  else
    match action, sent with
    | some action, some ⟨_, false⟩ => w.holdAfterUnrecordedSend run action
    | _, _ => w

/-- **One watcher run.** -/
def runWatcher : World ι × List MonitorNotice :=
  if run.readOk then
    let decision := w.watcherDecision run
    let (sent, notices) := notifyDue ownerChatId w run decision.action
    let saved := { w with monitor := some (nextMonitor ownerChatId decision sent) }
    (w.record run saved decision.action sent, notices)
  else sendUnrecorded ownerChatId w run

/-- **The check's look at the watcher.** It only writes when its state changes. -/
def checkWatcher : World ι × List MonitorNotice :=
  if run.readOk then
    let decision := w.watchdogDecision run
    let (sent, notices) := notifyDue ownerChatId w run decision.action
    let next := nextWatchdog decision sent
    if next = w.watchdog.getD ⟨none⟩ then (w, notices)
    else (w.record run { w with watchdog := some next } decision.action sent, notices)
  else (w, [])

end Watcher

/-! ### The service over time -/

/-- What happens to the service. -/
inductive MonitorEvent (ι : Type) where
  /-- A watcher run, after these check runs were logged, newest first. -/
  | watcher (logged : List LoggedRun) (run : MonitorRun ι)
  /-- A check looks at the watcher. -/
  | check (run : MonitorRun ι)

def MonitorEvent.now {ι : Type} : MonitorEvent ι → ℤ
  | watcher _ run => run.now
  | check run => run.now

/-- The world, with the times of the last event and of the last watcher run. -/
structure Monitoring (ι : Type) where
  world : World ι
  clock : ℤ
  watchedAt : Option ℤ

/-- Appends to the capped run log. -/
def World.recordRuns {ι : Type} (w : World ι) (logged : List LoggedRun) : World ι :=
  { w with runs := (logged ++ w.runs).take maxRunLogEntries }

/-- **The service**, run after run, in any order and on any instance; runs do not overlap. -/
def monitoring {ι : Type} [DecidableEq ι] (ownerChatId : Option String) :
    System (Monitoring ι) (MonitorEvent ι) MonitorNotice where
  legal s e := s.clock ≤ e.now
  next s e :=
    match e with
    | .watcher logged run =>
      ⟨(runWatcher ownerChatId (s.world.recordRuns logged) run).1, run.now, some run.now⟩
    | .check run => ⟨(checkWatcher ownerChatId s.world run).1, run.now, s.watchedAt⟩
  out s e :=
    match e with
    | .watcher logged run => (runWatcher ownerChatId (s.world.recordRuns logged) run).2
    | .check run => (checkWatcher ownerChatId s.world run).2

instance {ι : Type} [DecidableEq ι] (ownerChatId : Option String) (s : Monitoring ι)
    (e : MonitorEvent ι) : Decidable ((monitoring ownerChatId).legal s e) :=
  inferInstanceAs (Decidable (s.clock ≤ e.now))

def newWorld (ι : Type) (runs : List LoggedRun) : World ι where
  monitor := none
  watchdog := none
  runs := runs
  noticeHolds _ := none
  memoryHolds _ _ := none

/-- A service that never ran, with what the checks logged before. -/
def newMonitoring (ι : Type) (runs : List LoggedRun) (clock : ℤ) : Monitoring ι :=
  ⟨newWorld ι runs, clock, none⟩

end Monitor

end CryptoZaloBot
