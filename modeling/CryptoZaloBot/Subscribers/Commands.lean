import CryptoZaloBot.Subscribers.Service

/-!
# `/dangky`, `/huy` and `/watchlist`

What the webhook makes of a command about the digest: one query to Postgres, then a
reply, then a change of the copy of the watchlists that the signals check reads
(`CryptoZaloBot.Subscribers.handleCommand`).

A command touches the row of its own chat only, and depends on that row only
(`CryptoZaloBot.Subscribers.handleCommand_congr`). `/huy` keeps the watchlist, but
`/dangky` without symbols then writes the default one over it: the chat gets its watchlist
back exactly when that was the default one
(`CryptoZaloBot.Subscribers.resubscribed_iff`).
-/

namespace CryptoZaloBot

namespace Subscribers

open Prices

/-! ### Commands -/

inductive SubscriberCommand where
  /-- `/dangky`. -/
  | subscribe (symbols : List String)
  /-- `/huy`. -/
  | unsubscribe
  /-- `/watchlist`. -/
  | watchlist (symbols : List String)
  deriving DecidableEq

/-- A command of a chat, at the time of the database. -/
structure ChatCommand where
  chatId : String
  now : ℤ
  command : SubscriberCommand
  deriving DecidableEq

/-- The reply, by the function that formats it. -/
inductive SubscriberReply where
  | subscribed (watchlist : List String)
  | unsubscribed
  | watchlistView (watchlist : Option (List String))
  | watchlistUpdated (watchlist : List String)
  | notSubscribed
  | invalidWatchlist (message : String)
  deriving DecidableEq

/-- A change of the copy for one chat: `onSubscribed` and `onWatchlistChanged` set its
watchlist, `onUnsubscribed` removes it. -/
structure ChatWrite where
  chatId : String
  watchlist : Option (List String)
  deriving DecidableEq

/-- What a command's query made of the table, and what the command does then. -/
structure CommandOutcome where
  table : SubscribersTable
  reply : SubscriberReply
  write : Option ChatWrite

/-- **A command**, as `replyToMessage` handles it. -/
def handleCommand (casing : Casing) (table : SubscribersTable) (cmd : ChatCommand) :
    CommandOutcome :=
  match cmd.command with
  | .subscribe symbols =>
    let watchlist := if 0 < symbols.length then symbols else defaultWatchlist
    match subscribe casing table cmd.now cmd.chatId watchlist with
    | .error error => ⟨table, .invalidWatchlist error.message, none⟩
    | .ok (subscriber, table') =>
      ⟨table', .subscribed subscriber.watchlist, some ⟨cmd.chatId, some subscriber.watchlist⟩⟩
  | .unsubscribe => ⟨unsubscribe table cmd.chatId, .unsubscribed, some ⟨cmd.chatId, none⟩⟩
  | .watchlist symbols =>
    if symbols.length = 0 then
      ⟨table, .watchlistView ((findActiveByChatId table cmd.chatId).map (·.watchlist)), none⟩
    else
      match updateWatchlist casing table cmd.chatId symbols with
      | .error error => ⟨table, .invalidWatchlist error.message, none⟩
      | .ok (none, table') => ⟨table', .notSubscribed, none⟩
      | .ok (some updated, table') =>
        ⟨table', .watchlistUpdated updated.watchlist,
          some ⟨cmd.chatId, some updated.watchlist⟩⟩

/-- The watchlist of a chat that is subscribed. -/
def activeWatchlist (table : SubscribersTable) (chatId : String) : Option (List String) :=
  (activeRow table chatId).map (·.watchlist)

/-- **What a command can do**: its query changes nothing, or it writes the row of the chat
and the copy is to be told what the row says. -/
inductive CommandStep (casing : Casing) (table : SubscribersTable) (chatId : String) :
    CommandOutcome → Prop
  | unchanged (reply : SubscriberReply) : CommandStep casing table chatId ⟨table, reply, none⟩
  | written (row : SubscriberRow) (reply : SubscriberReply)
      (active : row.isActive = true) (valid : ValidWatchlist casing row.watchlist) :
      CommandStep casing table chatId
        ⟨table.set chatId row, reply, some ⟨chatId, some row.watchlist⟩⟩
  | stopped : CommandStep casing table chatId
      ⟨unsubscribe table chatId, .unsubscribed, some ⟨chatId, none⟩⟩

theorem commandStep_handleCommand (casing : Casing) (table : SubscribersTable)
    (cmd : ChatCommand) :
    CommandStep casing table cmd.chatId (handleCommand casing table cmd) := by
  obtain ⟨chatId, now, command⟩ := cmd
  cases command with
  | subscribe symbols =>
    simp only [handleCommand]
    generalize (if 0 < symbols.length then symbols else defaultWatchlist) = watchlist
    cases hnorm : normalizeWatchlist casing watchlist with
    | error error =>
      simp only [subscribe, hnorm]
      exact .unchanged _
    | ok normalized =>
      obtain ⟨row, hsubscribe, rfl, hactive⟩ :=
        subscribe_of_normalize table now chatId hnorm
      rw [hsubscribe]
      exact .written row _ hactive (validWatchlist_of_normalize hnorm)
  | unsubscribe => exact .stopped
  | watchlist symbols =>
    simp only [handleCommand]
    by_cases hview : symbols.length = 0
    · rw [if_pos hview]
      exact .unchanged _
    rw [if_neg hview]
    cases hnorm : normalizeWatchlist casing symbols with
    | error error =>
      simp only [updateWatchlist, hnorm]
      exact .unchanged _
    | ok normalized =>
      cases hrow : activeRow table chatId with
      | none =>
        rw [updateWatchlist_of_inactive hnorm hrow]
        exact .unchanged _
      | some row =>
        rw [updateWatchlist_of_active hnorm hrow]
        refine .written _ _ ?_ (validWatchlist_of_normalize hnorm)
        exact (Option.filter_eq_some_iff.mp hrow).2

/-! ### One chat's row -/

section Rows

variable {casing : Casing} {table table' : SubscribersTable} {chatId other : String}
  {cmd : ChatCommand} {outcome : CommandOutcome}

/-- **A command leaves the rows of other chats alone.** -/
theorem CommandStep.get?_of_ne (h : CommandStep casing table chatId outcome)
    (hne : other ≠ chatId) : outcome.table.get? other = table.get? other := by
  cases h with
  | unchanged reply => rfl
  | written row reply active valid => exact table.get?_set_of_ne row hne
  | stopped => exact get?_unsubscribe_of_ne hne

variable (casing table cmd) in
theorem get?_handleCommand_of_ne (hne : other ≠ cmd.chatId) :
    (handleCommand casing table cmd).table.get? other = table.get? other :=
  (commandStep_handleCommand casing table cmd).get?_of_ne hne

/-- **A command depends on the row of its chat only.** -/
theorem handleCommand_congr (h : table.get? cmd.chatId = table'.get? cmd.chatId) :
    (handleCommand casing table cmd).table.get? cmd.chatId =
      (handleCommand casing table' cmd).table.get? cmd.chatId := by
  have hactive : activeRow table cmd.chatId = activeRow table' cmd.chatId := by
    rw [activeRow, activeRow, h]
  obtain ⟨chatId, now, command⟩ := cmd
  cases command with
  | subscribe symbols =>
    simp only [handleCommand, subscribe]
    cases normalizeWatchlist casing (if 0 < symbols.length then symbols else defaultWatchlist) with
    | error error => exact h
    | ok normalized =>
      show (table.set chatId _).get? chatId = (table'.set chatId _).get? chatId
      rw [InsertionMap.get?_set_self, InsertionMap.get?_set_self, h]
  | unsubscribe =>
    show (unsubscribe table chatId).get? chatId = (unsubscribe table' chatId).get? chatId
    rw [get?_unsubscribe_self, get?_unsubscribe_self, h]
  | watchlist symbols =>
    simp only [handleCommand, updateWatchlist]
    by_cases hview : symbols.length = 0
    · rw [if_pos hview, if_pos hview]
      exact h
    rw [if_neg hview, if_neg hview]
    cases normalizeWatchlist casing symbols with
    | error error => exact h
    | ok normalized =>
      rw [hactive]
      cases activeRow table' chatId with
      | none => exact h
      | some row =>
        show (table.set chatId _).get? chatId = (table'.set chatId _).get? chatId
        rw [InsertionMap.get?_set_self, InsertionMap.get?_set_self]

/-- **A watchlist is valid whenever the table holds it.** -/
theorem CommandStep.valid (h : CommandStep casing table chatId outcome)
    (hvalid : ∀ chatId row, table.get? chatId = some row → ValidWatchlist casing row.watchlist)
    {row : SubscriberRow} (hrow : outcome.table.get? other = some row) :
    ValidWatchlist casing row.watchlist := by
  by_cases hne : other = chatId
  · subst hne
    cases h with
    | unchanged reply => exact hvalid other row hrow
    | written row' reply active valid =>
      rw [InsertionMap.get?_set_self] at hrow
      exact Option.some.inj hrow ▸ valid
    | stopped =>
      rw [get?_unsubscribe_self] at hrow
      obtain ⟨row', hrow', rfl⟩ := Option.map_eq_some_iff.mp hrow
      exact hvalid other row' hrow'
  · rw [h.get?_of_ne hne] at hrow
    exact hvalid other row hrow

end Rows

/-! ### Runs of commands -/

section Runs

variable (casing : Casing)

/-- **The table under any sequence of commands**, of any chats. -/
def commands : System SubscribersTable ChatCommand (String × SubscriberReply) where
  legal _ _ := True
  next table cmd := (handleCommand casing table cmd).table
  out table cmd := [(cmd.chatId, (handleCommand casing table cmd).reply)]

theorem run_commands (table : SubscribersTable) (cmds : List ChatCommand) :
    (commands casing).Run table cmds := by
  induction cmds generalizing table with
  | nil => trivial
  | cons cmd cmds ih => exact ⟨trivial, ih _⟩

/-- Every watchlist of a table that commands led to is valid. -/
theorem validWatchlist_of_commands (cmds : List ChatCommand) {chatId : String}
    {row : SubscriberRow}
    (hrow : ((commands casing).final .empty cmds).get? chatId = some row) :
    ValidWatchlist casing row.watchlist := by
  have hkeeps : (commands casing).Keeps fun table =>
      ∀ chatId row, table.get? chatId = some row → ValidWatchlist casing row.watchlist :=
    fun table cmd hvalid _ chatId row => (commandStep_handleCommand casing table cmd).valid hvalid
  have hstart : ∀ chatId row, (InsertionMap.empty : SubscribersTable).get? chatId = some row →
      ValidWatchlist casing row.watchlist := by
    rintro chatId row ⟨⟩
  exact System.Run.invariant hkeeps hstart (run_commands casing .empty cmds) chatId row hrow

variable {casing} {table table' : SubscribersTable} {chatId other : String}
  {cmds : List ChatCommand}

/-- **Tables that differ in one chat's row** lead to tables that do. -/
theorem get?_final_congr (h : ∀ other ≠ chatId, table.get? other = table'.get? other)
    (hothers : ∀ cmd ∈ cmds, cmd.chatId ≠ chatId) (hne : other ≠ chatId) :
    ((commands casing).final table cmds).get? other =
      ((commands casing).final table' cmds).get? other := by
  induction cmds generalizing table table' with
  | nil => exact h other hne
  | cons cmd cmds ih =>
    obtain ⟨hcmd, hothers⟩ := List.forall_mem_cons.mp hothers
    refine ih (fun other' hne' => ?_) hothers
    show (handleCommand casing table cmd).table.get? other' =
      (handleCommand casing table' cmd).table.get? other'
    by_cases heq : other' = cmd.chatId
    · subst heq
      exact handleCommand_congr (h cmd.chatId hcmd)
    · rw [get?_handleCommand_of_ne casing table cmd heq,
        get?_handleCommand_of_ne casing table' cmd heq]
      exact h other' hne'

end Runs

/-! ### Subscribing again -/

section Resubscribing

/-- Lowercase letters of ASCII stay as they are. -/
def KeepsLower (casing : Casing) : Prop :=
  ∀ s : String, (∀ c ∈ s.toList, 97 ≤ c.toNat ∧ c.toNat ≤ 122) → casing.toLowerCase s = s

theorem keepsLower_asciiCasing : KeepsLower asciiCasing := by
  intro s hs
  show String.ofList (s.toList.map lowerChar) = s
  have hmap : s.toList.map lowerChar = s.toList := by
    refine (List.map_congr_left fun c hc => ?_).trans (List.map_id s.toList)
    obtain ⟨hlow, hhigh⟩ := hs c hc
    exact if_neg (by omega)
  rw [hmap, String.ofList_toList]

variable {casing : Casing}

theorem normalizeWatchlist_default (hlower : KeepsLower casing) :
    normalizeWatchlist casing defaultWatchlist = .ok defaultWatchlist := by
  have hbtc : Prices.normalize casing "btc" = "btc" := by
    have htrim : trim "btc" = "btc" := by decide +kernel
    rw [Prices.normalize, htrim]
    exact hlower "btc" (by simp)
  have heth : Prices.normalize casing "eth" = "eth" := by
    have htrim : trim "eth" = "eth" := by decide +kernel
    rw [Prices.normalize, htrim]
    exact hlower "eth" (by simp)
  have hlist : unique ((defaultWatchlist.map (Prices.normalize casing)).filter (· ≠ "")) =
      defaultWatchlist := by
    rw [defaultWatchlist, List.map_cons, List.map_cons, List.map_nil, hbtc, heth]
    decide
  simp only [normalizeWatchlist, hlist]
  rfl

/-- **`/dangky` without symbols** writes the default watchlist. -/
theorem activeWatchlist_subscribe (hlower : KeepsLower casing) (table : SubscribersTable)
    (now : ℤ) (chatId : String) :
    activeWatchlist (handleCommand casing table ⟨chatId, now, .subscribe []⟩).table chatId =
      some defaultWatchlist := by
  obtain ⟨row, hsubscribe, hwatchlist, hactive⟩ :=
    subscribe_of_normalize table now chatId (normalizeWatchlist_default hlower)
  have htable : (handleCommand casing table ⟨chatId, now, .subscribe []⟩).table =
      table.set chatId row := by
    simp [handleCommand, hsubscribe]
  rw [activeWatchlist, activeRow, htable, InsertionMap.get?_set_self,
    Option.filter_some_pos hactive, Option.map_some, hwatchlist]

/-- **Subscribing again restores**: after `/huy`, commands of other chats and `/dangky`
without symbols, the chat is subscribed with the watchlist it had, and the rows of other
chats are what the commands of others made of them. -/
def Restored (casing : Casing) (table : SubscribersTable) (chatId : String)
    (others : List ChatCommand) (stopped started : ℤ) : Prop :=
  let after := (commands casing).final table
    (⟨chatId, stopped, .unsubscribe⟩ :: others ++ [⟨chatId, started, .subscribe []⟩])
  activeWatchlist after chatId = activeWatchlist table chatId ∧
    ∀ other ≠ chatId, after.get? other = ((commands casing).final table others).get? other

/-- **A chat gets its watchlist back when it was the default one**, and only then. -/
theorem resubscribed_iff (hlower : KeepsLower casing) {table : SubscribersTable}
    {chatId : String} {row : SubscriberRow} (hrow : table.get? chatId = some row)
    (hactive : row.isActive = true) {others : List ChatCommand}
    (hothers : ∀ cmd ∈ others, cmd.chatId ≠ chatId) (stopped started : ℤ) :
    Restored casing table chatId others stopped started ↔ row.watchlist = defaultWatchlist := by
  have hbefore : activeWatchlist table chatId = some row.watchlist := by
    rw [activeWatchlist, activeRow, hrow, Option.filter_some_pos hactive, Option.map_some]
  simp only [Restored, System.final_append, System.final_cons, System.final_nil]
  constructor
  · rintro ⟨hrestored, -⟩
    have hafter := (activeWatchlist_subscribe hlower _ started chatId).symm.trans hrestored
    exact (Option.some.inj (hafter.trans hbefore)).symm
  · intro hdefault
    refine ⟨?_, fun other hne => ?_⟩
    · rw [hbefore, hdefault]
      exact activeWatchlist_subscribe hlower _ started chatId
    · refine (get?_handleCommand_of_ne casing _ ⟨chatId, started, .subscribe []⟩ hne).trans ?_
      refine get?_final_congr (fun other' hne' => ?_) hothers hne
      exact get?_handleCommand_of_ne casing table ⟨chatId, stopped, .unsubscribe⟩ hne'

/-- A chat with the default watchlist gets it back, with another chat subscribing in
between. -/
theorem resubscribed_default :
    Restored asciiCasing (InsertionMap.empty.set "chat" ⟨defaultWatchlist, true, 0⟩) "chat"
      [⟨"other", 2, .subscribe ["sol"]⟩] 1 3 :=
  (resubscribed_iff keepsLower_asciiCasing (InsertionMap.get?_set_self _ _ _) rfl (by decide)
    1 3).mpr rfl

/-- A chat that subscribed to `sol` has `btc` and `eth` after `/huy` and `/dangky`. -/
theorem resubscribed_not_restored :
    ¬∀ (casing : Casing) (before others : List ChatCommand) (chatId : String)
        (row : SubscriberRow) (stopped started : ℤ), KeepsLower casing →
      ((commands casing).final .empty before).get? chatId = some row → row.isActive = true →
      (∀ cmd ∈ others, cmd.chatId ≠ chatId) →
        Restored casing ((commands casing).final .empty before) chatId others stopped started := by
  intro h
  have hrestored := h asciiCasing [⟨"chat", 0, .subscribe ["sol"]⟩] [] "chat"
    ⟨["sol"], true, 0⟩ 1 2 keepsLower_asciiCasing (by decide +kernel) rfl (by simp)
  have hsame := hrestored.1
  revert hsame
  decide +kernel

end Resubscribing

end Subscribers

end CryptoZaloBot
