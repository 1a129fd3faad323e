import Mathlib.Logic.Function.Basic
import Mathlib.Data.Fintype.Basic
import CryptoZaloBot.Subscribers.Commands

/-!
# The copy of the watchlists in Redis

`SignalsSubscriptionsMirror` keeps a copy of the watchlists of the active subscribers, so
that the signals check need not query Postgres. A command queries Postgres, sends its reply
and then changes the copy; the daily digest lists the active subscribers and later replaces
the whole copy.

One after another they keep the copy in step
(`CryptoZaloBot.Subscribers.command_keeps_copy`,
`CryptoZaloBot.Subscribers.digest_restores_copy`). Any number of them are under way here,
and their steps come in any order (`CryptoZaloBot.Subscribers.operations`). A write is late
for a chat if another command of the chat ran its query after the one that writes did, or
after the digest that writes listed; it then brings an old watchlist back
(`CryptoZaloBot.Subscribers.copy_not_always_in_step`). As long as another write for the
chat is still to come whenever one is late, the copy is in step once all are through
(`CryptoZaloBot.Subscribers.copy_in_step`).
-/

namespace CryptoZaloBot

namespace Subscribers

open Prices

/-! ### The copy -/

/-- The hash of Redis: the watchlist of each chat. -/
abbrev WatchlistMirror := InsertionMap String (List String)

def setWatchlist (mirror : WatchlistMirror) (chatId : String) (symbols : List String) :
    WatchlistMirror :=
  mirror.set chatId symbols

def removeWatchlist (mirror : WatchlistMirror) (chatId : String) : WatchlistMirror :=
  mirror.erase chatId

/-- Replaces the whole mirror, so a missed update heals itself. -/
def replaceWatchlists (all : InsertionMap String (List String)) : WatchlistMirror := all

/-- `onSubscribed`, `onWatchlistChanged` and `onUnsubscribed`. -/
def ChatWrite.apply (write : ChatWrite) (mirror : WatchlistMirror) : WatchlistMirror :=
  match write.watchlist with
  | some symbols => setWatchlist mirror write.chatId symbols
  | none => removeWatchlist mirror write.chatId

/-- Replaces the whole copy from the active subscribers (the daily digest does this). -/
def syncAll (subscribers : List Subscriber) : WatchlistMirror :=
  replaceWatchlists (.ofList (subscribers.map fun s => (s.chatId, s.watchlist)))

theorem ChatWrite.get?_apply (write : ChatWrite) (mirror : WatchlistMirror) :
    (write.apply mirror).get? write.chatId = write.watchlist := by
  obtain ⟨chatId, watchlist⟩ := write
  cases watchlist with
  | some symbols => exact mirror.get?_set_self chatId symbols
  | none => exact mirror.get?_erase_self chatId

theorem ChatWrite.get?_apply_of_ne {write : ChatWrite} (mirror : WatchlistMirror)
    {chatId : String} (hne : chatId ≠ write.chatId) :
    (write.apply mirror).get? chatId = mirror.get? chatId := by
  obtain ⟨chatId', watchlist⟩ := write
  cases watchlist with
  | some symbols => exact mirror.get?_set_of_ne symbols hne
  | none => exact mirror.get?_erase_of_ne hne

/-- **A list of the active subscribers** says what the table says. -/
theorem get?_syncAll_listActive (table : SubscribersTable) (chatId : String) :
    (syncAll (listActive table)).get? chatId = activeWatchlist table chatId := by
  have hlist : (listActive table).map (fun s => (s.chatId, s.watchlist)) =
      (table.filter (·.2.isActive)).entries.map fun e => (e.1, e.2.watchlist) := by
    rw [listActive, List.map_map]
    rfl
  rw [syncAll, replaceWatchlists, hlist, InsertionMap.get?_ofList_map,
    InsertionMap.get?_ofList_entries, InsertionMap.get?_filter]
  rfl

/-- **The copy is in step** for a chat: it holds the watchlist of the row, if that is
active. -/
def InStep (table : SubscribersTable) (mirror : WatchlistMirror) (chatId : String) : Prop :=
  mirror.get? chatId = activeWatchlist table chatId

/-- **What a command writes is what the row says.** -/
theorem CommandStep.write {casing : Casing} {table : SubscribersTable} {chatId : String}
    {outcome : CommandOutcome} (h : CommandStep casing table chatId outcome) :
    (outcome.write = none ∧ outcome.table = table) ∨
      outcome.write = some ⟨chatId, activeWatchlist outcome.table chatId⟩ := by
  cases h with
  | unchanged reply => exact Or.inl ⟨rfl, rfl⟩
  | written row reply active valid =>
    refine Or.inr ?_
    rw [activeWatchlist, activeRow, InsertionMap.get?_set_self, Option.filter_some_pos active]
    rfl
  | stopped =>
    refine Or.inr ?_
    rw [activeWatchlist, activeRow, get?_unsubscribe_self]
    cases table.get? chatId with
    | none => rfl
    | some row => rfl

theorem CommandStep.activeWatchlist_of_ne {casing : Casing} {table : SubscribersTable}
    {chatId other : String} {outcome : CommandOutcome}
    (h : CommandStep casing table chatId outcome) (hne : other ≠ chatId) :
    activeWatchlist outcome.table other = activeWatchlist table other := by
  rw [activeWatchlist, activeWatchlist, activeRow, activeRow, h.get?_of_ne hne]

/-! ### One after another -/

/-- **A command alone keeps the copy in step.** -/
theorem command_keeps_copy (casing : Casing) {table : SubscribersTable}
    {mirror : WatchlistMirror} (cmd : ChatCommand) (h : ∀ chatId, InStep table mirror chatId)
    (chatId : String) :
    InStep (handleCommand casing table cmd).table
      (((handleCommand casing table cmd).write.map (·.apply mirror)).getD mirror) chatId := by
  have hstep := commandStep_handleCommand casing table cmd
  rcases hstep.write with ⟨hnone, htable⟩ | hwrite
  · rw [hnone, htable]
    exact h chatId
  · rw [hwrite]
    by_cases hne : chatId = cmd.chatId
    · subst hne
      exact ChatWrite.get?_apply ⟨cmd.chatId, _⟩ mirror
    · refine (ChatWrite.get?_apply_of_ne mirror hne).trans ?_
      rw [hstep.activeWatchlist_of_ne hne]
      exact h chatId

/-- **A digest alone brings the copy in step**, whatever it was before. -/
theorem digest_restores_copy (table : SubscribersTable) (chatId : String) :
    InStep table (syncAll (listActive table)) chatId :=
  get?_syncAll_listActive table chatId

/-! ### Operations under way -/

/-- **A command or a digest**, by what it does next. -/
inductive Operation where
  | command (cmd : ChatCommand)
  /-- The reply, and then the write. -/
  | replying (write : Option ChatWrite)
  | writing (write : ChatWrite)
  /-- `listActive`. -/
  | listing
  | syncing (subscribers : List Subscriber)
  | done
  deriving DecidableEq

/-- What a request starts. -/
inductive SubscriberRequest where
  | command (cmd : ChatCommand)
  | digest
  deriving DecidableEq

def SubscriberRequest.operation : SubscriberRequest → Operation
  | command cmd => .command cmd
  | digest => .listing

/-- **One step of an operation**: where it is then, the table and the copy. -/
def advance (casing : Casing) (table : SubscribersTable) (mirror : WatchlistMirror) :
    Operation → Operation × SubscribersTable × WatchlistMirror
  | .command cmd =>
    let outcome := handleCommand casing table cmd
    (.replying outcome.write, outcome.table, mirror)
  | .replying (some write) => (.writing write, table, mirror)
  | .replying none => (.done, table, mirror)
  | .writing write => (.done, table, write.apply mirror)
  | .listing => (.syncing (listActive table), table, mirror)
  | .syncing subscribers => (.done, table, syncAll subscribers)
  | .done => (.done, table, mirror)

/-- **The operation may still write the copy** for a chat. -/
def Operation.Covers (chatId : String) : Operation → Prop
  | .replying (some write) => write.chatId = chatId
  | .writing write => write.chatId = chatId
  | .listing => True
  | .syncing _ => True
  | _ => False

/-- The next step of the operation writes the copy for a chat. -/
def Operation.Writes (chatId : String) : Operation → Prop
  | .writing write => write.chatId = chatId
  | .syncing _ => True
  | _ => False

/-- The next step of the operation runs its query, or lists. -/
def Operation.reads : Operation → Bool
  | .command _ | .listing => true
  | _ => false

/-- The chat whose row the next step of the operation writes: that of a command whose query
leaves something to write to the copy. -/
def Operation.rowWritten (casing : Casing) (table : SubscribersTable) : Operation → Option String
  | .command cmd => (handleCommand casing table cmd).write.map (·.chatId)
  | _ => none

/-- The table, the copy and the operations so far. -/
structure OperationsState (ι : Type) where
  table : SubscribersTable
  mirror : WatchlistMirror
  operations : ι → Option Operation
  /-- The chats whose rows another operation has written since the operation ran its query
  or listed. No step looks at it. -/
  overtaken : ι → List String

/-- No operation has started. -/
def OperationsState.start (ι : Type) (table : SubscribersTable) (mirror : WatchlistMirror) :
    OperationsState ι where
  table := table
  mirror := mirror
  operations _ := none
  overtaken _ := []

inductive OperationEvent (ι : Type) where
  | start (operation : ι) (request : SubscriberRequest)
  /-- The next step of an operation. -/
  | step (operation : ι)
  deriving DecidableEq

section Operations

variable {ι : Type} [DecidableEq ι]

/-- The chats that each operation is overtaken for after a step of operation `i`. -/
def OperationsState.overtakenAfter (casing : Casing) (s : OperationsState ι) (i : ι)
    (operation : Operation) (j : ι) : List String :=
  if j = i then if operation.reads then [] else s.overtaken i
  else (operation.rowWritten casing s.table).toList ++ s.overtaken j

/-- The state after operation `i` has moved on. -/
def OperationsState.moved (casing : Casing) (s : OperationsState ι) (i : ι)
    (operation : Operation) : OperationsState ι where
  table := (advance casing s.table s.mirror operation).2.1
  mirror := (advance casing s.table s.mirror operation).2.2
  operations := Function.update s.operations i (some (advance casing s.table s.mirror operation).1)
  overtaken := s.overtakenAfter casing i operation

variable (ι) in
/-- **Operations whose steps come in any order.** -/
def operations (casing : Casing) : System (OperationsState ι) (OperationEvent ι) Empty where
  legal s
    | .start i _ => s.operations i = none
    | .step i => ∃ operation ∈ s.operations i, operation ≠ .done
  next s
    | .start i request =>
      { s with operations := Function.update s.operations i (some request.operation) }
    | .step i =>
      match s.operations i with
      | none => s
      | some operation => s.moved casing i operation
  out _ _ := []

/-- An operation other than `i` may still write the copy for the chat. -/
def OperationsState.Pending (s : OperationsState ι) (i : ι) (chatId : String) : Prop :=
  ∃ j, j ≠ i ∧ ∃ operation ∈ s.operations j, operation.Covers chatId

/-- **No late write is the last one**: when an operation writes the copy for a chat whose
row another one has written since, yet another one may still write the copy for it. -/
def LateWritesHeal (s : OperationsState ι) : OperationEvent ι → Prop
  | .step i => ∀ operation ∈ s.operations i, ∀ chatId ∈ s.overtaken i,
      operation.Writes chatId → s.Pending i chatId
  | .start _ _ => True

/-- **What the operation has in hand** for a chat is what the row says. -/
def Operation.Holds (table : SubscribersTable) (chatId : String) : Operation → Prop
  | .replying (some write) =>
    write.chatId = chatId → write.watchlist = activeWatchlist table chatId
  | .writing write => write.chatId = chatId → write.watchlist = activeWatchlist table chatId
  | .syncing subscribers => InStep table (syncAll subscribers) chatId
  | _ => True

/-- **The copy is in step or will be written** for the chat. -/
def OperationsState.Settled (s : OperationsState ι) (chatId : String) : Prop :=
  InStep s.table s.mirror chatId ∨ ∃ j, ∃ operation ∈ s.operations j, operation.Covers chatId

/-- **An operation that was not overtaken** has in hand what the rows say. -/
def OperationsState.UpToDate (s : OperationsState ι) : Prop :=
  ∀ i, ∀ operation ∈ s.operations i, ∀ chatId, chatId ∉ s.overtaken i →
    operation.Holds s.table chatId

section Step

variable {casing : Casing} {s : OperationsState ι} {i j : ι} {operation operation' : Operation}
  {table table' : SubscribersTable} {chatId : String}

theorem Operation.Holds.congr (h : operation.Holds table chatId)
    (heq : activeWatchlist table' chatId = activeWatchlist table chatId) :
    operation.Holds table' chatId := by
  cases operation with
  | replying write =>
    cases write with
    | none => trivial
    | some write => exact fun hchat => (h hchat).trans heq.symm
  | writing write => exact fun hchat => (h hchat).trans heq.symm
  | syncing subscribers => exact Eq.trans h heq.symm
  | command cmd => trivial
  | listing => trivial
  | done => trivial

/-- **A step changes no other row** than that of the chat it writes. -/
theorem activeWatchlist_advance (mirror : WatchlistMirror)
    (hother : chatId ∉ operation.rowWritten casing table) :
    activeWatchlist (advance casing table mirror operation).2.1 chatId =
      activeWatchlist table chatId := by
  cases operation with
  | command cmd =>
    have hstep := commandStep_handleCommand casing table cmd
    show activeWatchlist (handleCommand casing table cmd).table chatId = _
    rcases hstep.write with ⟨-, htable⟩ | hwrite
    · rw [htable]
    · refine hstep.activeWatchlist_of_ne ?_
      rintro rfl
      exact hother (congrArg (Option.map ChatWrite.chatId) hwrite)
  | replying write => cases write <;> rfl
  | writing write => rfl
  | listing => rfl
  | syncing subscribers => rfl
  | done => rfl

/-- **What an operation has in hand after its step** is what the rows say, if it reads them
just then or had in hand what they say. -/
theorem holds_advance (mirror : WatchlistMirror)
    (h : operation.reads = false → operation.Holds table chatId) :
    (advance casing table mirror operation).1.Holds
      (advance casing table mirror operation).2.1 chatId := by
  cases operation with
  | command cmd =>
    show (Operation.replying (handleCommand casing table cmd).write).Holds
      (handleCommand casing table cmd).table chatId
    rcases (commandStep_handleCommand casing table cmd).write with ⟨hnone, -⟩ | hwrite
    · rw [hnone]
      trivial
    · rw [hwrite]
      rintro rfl
      rfl
  | replying write =>
    cases write with
    | none => trivial
    | some write => exact h rfl
  | writing write => trivial
  | listing => exact get?_syncAll_listActive table chatId
  | syncing subscribers => trivial
  | done => trivial

/-- **What a step that does not write the copy for a chat keeps of it.** -/
theorem get?_advance (casing : Casing) (table : SubscribersTable) {mirror : WatchlistMirror}
    (hnot : ¬operation.Writes chatId) :
    (advance casing table mirror operation).2.2.get? chatId = mirror.get? chatId := by
  cases operation with
  | command cmd => rfl
  | replying write => cases write <;> rfl
  | writing write => exact ChatWrite.get?_apply_of_ne mirror (Ne.symm hnot)
  | listing => rfl
  | syncing subscribers => exact absurd trivial hnot
  | done => rfl

/-- **What a step writes to the copy** is what the operation had in hand. -/
theorem inStep_advance (casing : Casing) (mirror : WatchlistMirror)
    (hwrites : operation.Writes chatId) (hholds : operation.Holds table chatId) :
    InStep (advance casing table mirror operation).2.1
      (advance casing table mirror operation).2.2 chatId := by
  cases operation with
  | writing write =>
    obtain rfl : write.chatId = chatId := hwrites
    exact (write.get?_apply mirror).trans (hholds rfl)
  | syncing subscribers => exact hholds
  | command cmd => exact hwrites.elim
  | replying write => exact hwrites.elim
  | listing => exact hwrites.elim
  | done => exact hwrites.elim

/-- An operation covers a chat until it writes the copy. -/
theorem covers_advance (mirror : WatchlistMirror) (h : operation.Covers chatId)
    (hnot : ¬operation.Writes chatId) :
    (advance casing table mirror operation).1.Covers chatId := by
  cases operation with
  | command cmd => exact h.elim
  | replying write =>
    cases write with
    | none => exact h.elim
    | some write => exact h
  | writing write => exact absurd h hnot
  | listing => trivial
  | syncing subscribers => exact absurd trivial hnot
  | done => exact h.elim

/-- A step that writes a chat's row covers the chat. -/
theorem covers_of_rowWritten (mirror : WatchlistMirror)
    (h : chatId ∈ operation.rowWritten casing table) :
    (advance casing table mirror operation).1.Covers chatId := by
  cases operation with
  | command cmd =>
    obtain ⟨write, hwrite, hchat⟩ := Option.map_eq_some_iff.mp h
    show (Operation.replying (handleCommand casing table cmd).write).Covers chatId
    rw [hwrite]
    exact hchat
  | replying write => cases h
  | writing write => cases h
  | listing => cases h
  | syncing subscribers => cases h
  | done => cases h

theorem OperationsState.operations_moved_self :
    (s.moved casing i operation).operations i =
      some (advance casing s.table s.mirror operation).1 :=
  Function.update_self i _ _

theorem OperationsState.operations_moved_of_ne (hne : j ≠ i) :
    (s.moved casing i operation).operations j = s.operations j :=
  Function.update_of_ne hne _ _

/-- Another operation still covers what it covered. -/
theorem OperationsState.Pending.moved (h : s.Pending i chatId) :
    (s.moved casing i operation).Settled chatId := by
  obtain ⟨j, hne, operation', hj, hcovers⟩ := h
  exact Or.inr ⟨j, operation', (operations_moved_of_ne hne).trans hj, hcovers⟩

/-- **A step leaves the operations up to date** that it does not overtake. -/
theorem OperationsState.UpToDate.moved (h : s.UpToDate) (hi : s.operations i = some operation) :
    (s.moved casing i operation).UpToDate := by
  intro j operation' hj chatId hnot
  by_cases hne : j = i
  · subst hne
    obtain rfl := Option.some.inj (operations_moved_self.symm.trans hj)
    refine holds_advance s.mirror fun hreads => h j operation hi chatId ?_
    have hsame : (s.moved casing j operation).overtaken j = s.overtaken j := by
      show (if j = j then if operation.reads then [] else s.overtaken j else _) = s.overtaken j
      rw [if_pos rfl, hreads]
      rfl
    rwa [hsame] at hnot
  · have hj' : s.operations j = some operation' := (operations_moved_of_ne hne).symm.trans hj
    have hsplit : chatId ∉ (operation.rowWritten casing s.table).toList ++ s.overtaken j := by
      rwa [show (s.moved casing i operation).overtaken j = _ from if_neg hne] at hnot
    obtain ⟨hrow, hnot'⟩ := not_or.mp (List.mem_append.not.mp hsplit)
    refine (h j operation' hj' chatId hnot').congr ?_
    exact activeWatchlist_advance s.mirror fun hmem => hrow (Option.mem_toList.mpr hmem)

/-- **A step leaves every chat settled**, if a late write is not the last one. -/
theorem OperationsState.Settled.moved (h : s.Settled chatId) (hfresh : s.UpToDate)
    (hi : s.operations i = some operation) (hheal : LateWritesHeal s (.step i)) :
    (s.moved casing i operation).Settled chatId := by
  by_cases hwrites : operation.Writes chatId
  · by_cases hlate : chatId ∈ s.overtaken i
    · exact (hheal operation hi chatId hlate hwrites).moved
    · exact Or.inl (inStep_advance casing s.mirror hwrites (hfresh i operation hi chatId hlate))
  by_cases hrow : chatId ∈ operation.rowWritten casing s.table
  · exact Or.inr ⟨i, _, operations_moved_self, covers_of_rowWritten s.mirror hrow⟩
  -- Neither the row nor the copy of the chat changes.
  rcases h with hin | ⟨j, operation', hj, hcovers⟩
  · refine Or.inl ?_
    exact (get?_advance casing s.table hwrites).trans
      (hin.trans (activeWatchlist_advance s.mirror hrow).symm)
  · by_cases hne : j = i
    · subst hne
      obtain rfl := Option.some.inj (hi.symm.trans hj)
      exact Or.inr ⟨j, _, operations_moved_self, covers_advance s.mirror hcovers hwrites⟩
    · exact OperationsState.Pending.moved ⟨j, hne, operation', hj, hcovers⟩

end Step

variable (ι) in
theorem keeps_settled (casing : Casing) :
    ((operations ι casing).restrict LateWritesHeal).Keeps fun s =>
      s.UpToDate ∧ ∀ chatId, s.Settled chatId := by
  rintro s e ⟨hfresh, hsettled⟩ ⟨hleg, hheal⟩
  cases e with
  | start i request =>
    have hnone : s.operations i = none := hleg
    have hsame : ∀ j, j ≠ i →
        Function.update s.operations i (some request.operation) j = s.operations j :=
      fun j hne => Function.update_of_ne hne _ _
    refine ⟨fun j operation hj chatId hnot => ?_, fun chatId => ?_⟩
    · by_cases hne : j = i
      · subst hne
        obtain rfl := Option.some.inj ((Function.update_self j _ s.operations).symm.trans hj)
        cases request <;> trivial
      · exact hfresh j operation ((hsame j hne).symm.trans hj) chatId hnot
    · rcases hsettled chatId with hin | ⟨j, operation, hj, hcovers⟩
      · exact Or.inl hin
      · have hne : j ≠ i := by
          rintro rfl
          exact nomatch hnone.symm.trans hj
        exact Or.inr ⟨j, operation, (hsame j hne).trans hj, hcovers⟩
  | step i =>
    obtain ⟨operation, hi, -⟩ := hleg
    have hi' : s.operations i = some operation := hi
    have hnext : (operations ι casing).next s (.step i) = s.moved casing i operation := by
      simp only [operations, hi']
    show ((operations ι casing).next s (.step i)).UpToDate ∧
      ∀ chatId, ((operations ι casing).next s (.step i)).Settled chatId
    rw [hnext]
    exact ⟨hfresh.moved hi', fun chatId => (hsettled chatId).moved hfresh hi' hheal⟩

/-- **The copy is in step once all operations are through**, however many of them there
were and in whatever order their steps came, if no late write was the last one. -/
theorem copy_in_step (casing : Casing) {table : SubscribersTable} {mirror : WatchlistMirror}
    (hstart : ∀ chatId, InStep table mirror chatId) {es : List (OperationEvent ι)}
    (hr : ((operations ι casing).restrict LateWritesHeal).Run (.start ι table mirror) es)
    (hdone : ∀ i, ∀ operation ∈
      ((operations ι casing).final (.start ι table mirror) es).operations i, operation = .done)
    (chatId : String) :
    InStep ((operations ι casing).final (.start ι table mirror) es).table
      ((operations ι casing).final (.start ι table mirror) es).mirror chatId := by
  have hfresh : (OperationsState.start ι table mirror).UpToDate := fun _ _ h => nomatch h
  have hsettled := (System.Run.invariant (keeps_settled ι casing)
    ⟨hfresh, fun chatId => Or.inl (hstart chatId)⟩ hr).2 chatId
  rw [System.final_restrict] at hsettled
  rcases hsettled with hin | ⟨j, operation, hj, hcovers⟩
  · exact hin
  · obtain rfl := hdone j operation hj
    exact hcovers.elim

/-! ### Checking the condition -/

instance (chatId : String) : ∀ operation : Operation, Decidable (operation.Covers chatId)
  | .replying (some write) => inferInstanceAs (Decidable (write.chatId = chatId))
  | .writing write => inferInstanceAs (Decidable (write.chatId = chatId))
  | .listing | .syncing _ => .isTrue trivial
  | .command _ | .replying none | .done => .isFalse nofun

instance (chatId : String) : ∀ operation : Operation, Decidable (operation.Writes chatId)
  | .writing write => inferInstanceAs (Decidable (write.chatId = chatId))
  | .syncing _ => .isTrue trivial
  | .command _ | .replying _ | .listing | .done => .isFalse nofun

instance [Fintype ι] (s : OperationsState ι) (i : ι) (chatId : String) :
    Decidable (s.Pending i chatId) :=
  inferInstanceAs (Decidable (∃ j, j ≠ i ∧ ∃ operation ∈ s.operations j, operation.Covers chatId))

instance [Fintype ι] (s : OperationsState ι) : ∀ e, Decidable (LateWritesHeal s e)
  | .step i => inferInstanceAs (Decidable (∀ operation ∈ s.operations i, ∀ chatId ∈ s.overtaken i,
      operation.Writes chatId → s.Pending i chatId))
  | .start _ _ => .isTrue trivial

instance (table : SubscribersTable) (mirror : WatchlistMirror) (chatId : String) :
    Decidable (InStep table mirror chatId) :=
  inferInstanceAs (Decidable (mirror.get? chatId = activeWatchlist table chatId))

instance (casing : Casing) (s : OperationsState ι) :
    ∀ e, Decidable ((operations ι casing).legal s e)
  | .start i _ => inferInstanceAs (Decidable (s.operations i = none))
  | .step i => inferInstanceAs (Decidable (∃ operation ∈ s.operations i, operation ≠ .done))

end Operations

/-! ### Late writes -/

/-- `/dangky` and `/watchlist` of one chat and a digest: the digest lists the subscribers
between the two queries, and both it and `/dangky` write the copy late, before `/watchlist`
does. A second digest replaces the copy while another chat subscribes. -/
def healedOperations : List (OperationEvent (Fin 5)) :=
  [.start 0 (.command ⟨"chat", 0, .subscribe ["btc"]⟩), .start 2 .digest, .step 0, .step 0,
    .step 2, .start 1 (.command ⟨"chat", 1, .watchlist ["sol"]⟩), .step 1, .step 0, .step 2,
    .step 1, .step 1, .start 3 (.command ⟨"other", 2, .subscribe ["eth"]⟩), .step 3, .step 3,
    .start 4 .digest, .step 4, .step 3, .step 4]

theorem copy_in_step_of_digest :
    InStep ((operations (Fin 5) asciiCasing).final (.start _ .empty .empty) healedOperations).table
      ((operations (Fin 5) asciiCasing).final (.start _ .empty .empty) healedOperations).mirror
      "chat" :=
  copy_in_step asciiCasing (fun chatId => show InStep .empty .empty chatId from rfl)
    (by decide +kernel) (by decide +kernel) "chat"

/-- The write of `/dangky` comes after all of a later `/watchlist`. -/
def lateWrite : List (OperationEvent (Fin 2)) :=
  [.start 0 (.command ⟨"chat", 0, .subscribe ["btc"]⟩), .step 0, .step 0,
    .start 1 (.command ⟨"chat", 1, .watchlist ["sol"]⟩), .step 1, .step 1, .step 1, .step 0]

theorem copy_not_always_in_step :
    ¬∀ (casing : Casing) (es : List (OperationEvent (Fin 2))),
      (operations (Fin 2) casing).Run (.start _ .empty .empty) es →
      (∀ i, ∀ operation ∈
        ((operations (Fin 2) casing).final (.start _ .empty .empty) es).operations i,
          operation = .done) →
      ∀ chatId, InStep ((operations (Fin 2) casing).final (.start _ .empty .empty) es).table
        ((operations (Fin 2) casing).final (.start _ .empty .empty) es).mirror chatId := by
  intro h
  have hin := h asciiCasing lateWrite (by decide +kernel) (by decide +kernel) "chat"
  revert hin
  decide +kernel

end Subscribers

end CryptoZaloBot
