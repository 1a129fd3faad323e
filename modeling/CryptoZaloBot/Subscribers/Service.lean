import CryptoZaloBot.Base.System
import CryptoZaloBot.Prices.Lookup

/-!
# Subscribers of the daily digest

`SubscribersService`: one row of Postgres per chat that ever subscribed. `/huy` keeps the
row and its watchlist, and only marks it inactive.

Every watchlist in the table has been normalized
(`CryptoZaloBot.Subscribers.ValidWatchlist`): its symbols are trimmed, lowercased and
distinct, and there are between one and twenty of them.
-/

namespace CryptoZaloBot

namespace Subscribers

open Prices

/-- Watchlist assigned to a new subscriber when `/dangky` is called with no symbols. -/
def defaultWatchlist : List String := ["btc", "eth"]

/-- Hard cap on symbols per subscriber watchlist, to keep digest sends bounded. -/
def maxWatchlistSize : ℕ := 20

/-- Raised when a watchlist has no valid symbols left after normalization, or exceeds the
cap. -/
structure InvalidWatchlistError where
  message : String
  deriving DecidableEq

/-- A row of the table, without its key. -/
structure SubscriberRow where
  watchlist : List String
  isActive : Bool
  createdAt : ℤ
  deriving DecidableEq

structure Subscriber where
  chatId : String
  watchlist : List String
  isActive : Bool
  createdAt : ℤ
  deriving DecidableEq

/-- The table `subscribers`, by `chat_id`. -/
abbrev SubscribersTable := InsertionMap String SubscriberRow

def toSubscriber (chatId : String) (row : SubscriberRow) : Subscriber where
  chatId := chatId
  watchlist := row.watchlist
  isActive := row.isActive
  createdAt := row.createdAt

variable (casing : Casing)

/-- **`normalizeWatchlist`**, or the error it throws. -/
def normalizeWatchlist (watchlist : List String) : Except InvalidWatchlistError (List String) :=
  let normalized := unique ((watchlist.map (Prices.normalize casing)).filter (· ≠ ""))
  if normalized.length = 0 then
    .error ⟨"Watchlist must contain at least one symbol"⟩
  else if maxWatchlistSize < normalized.length then
    .error ⟨"Watchlist cannot exceed " ++ toString maxWatchlistSize ++ " symbols"⟩
  else .ok normalized

/-- **`subscribe`**: the row of a chat that has one keeps its `created_at` only. -/
def subscribe (table : SubscribersTable) (now : ℤ) (chatId : String) (watchlist : List String) :
    Except InvalidWatchlistError (Subscriber × SubscribersTable) :=
  match normalizeWatchlist casing watchlist with
  | .error error => .error error
  | .ok normalized =>
    let row : SubscriberRow :=
      match table.get? chatId with
      | none => ⟨normalized, true, now⟩
      | some row => { row with watchlist := normalized, isActive := true }
    .ok (toSubscriber chatId row, table.set chatId row)

/-- **`unsubscribe`.** -/
def unsubscribe (table : SubscribersTable) (chatId : String) : SubscribersTable :=
  match table.get? chatId with
  | none => table
  | some row => table.set chatId { row with isActive := false }

/-- The row of a chat, if it is active. -/
def activeRow (table : SubscribersTable) (chatId : String) : Option SubscriberRow :=
  (table.get? chatId).filter (·.isActive)

/-- **`updateWatchlist`**, or `null` for a chat that is not subscribed. -/
def updateWatchlist (table : SubscribersTable) (chatId : String) (watchlist : List String) :
    Except InvalidWatchlistError (Option Subscriber × SubscribersTable) :=
  match normalizeWatchlist casing watchlist with
  | .error error => .error error
  | .ok normalized =>
    match activeRow table chatId with
    | none => .ok (none, table)
    | some row =>
      let updated := { row with watchlist := normalized }
      .ok (some (toSubscriber chatId updated), table.set chatId updated)

def findActiveByChatId (table : SubscribersTable) (chatId : String) : Option Subscriber :=
  (activeRow table chatId).map (toSubscriber chatId)

/-- **`listActive`.** -/
def listActive (table : SubscribersTable) : List Subscriber :=
  (table.entries.filter (·.2.isActive)).map fun e => toSubscriber e.1 e.2

/-! ### What is normalized -/

/-- **What the table keeps of every watchlist.** -/
structure ValidWatchlist (watchlist : List String) : Prop where
  normalized : ∀ symbol ∈ watchlist, Prices.normalize casing symbol = symbol ∧ symbol ≠ ""
  nodup : watchlist.Nodup
  nonempty : watchlist ≠ []
  capped : watchlist.length ≤ maxWatchlistSize

variable {casing}

theorem validWatchlist_of_normalize {watchlist normalized : List String}
    (h : normalizeWatchlist casing watchlist = .ok normalized) :
    ValidWatchlist casing normalized := by
  simp only [normalizeWatchlist] at h
  split_ifs at h with hempty hlong
  obtain rfl := Except.ok.inj h
  refine ⟨fun symbol hsymbol => ?_, nodup_unique _, ?_, not_lt.mp hlong⟩
  · obtain ⟨hmem, hne⟩ := List.mem_filter.mp (mem_unique.mp hsymbol)
    obtain ⟨s, -, rfl⟩ := List.mem_map.mp hmem
    exact ⟨normalize_normalize casing s, of_decide_eq_true hne⟩
  · exact fun hnil => hempty (List.length_eq_zero_iff.mpr hnil)

/-! ### What a query changes -/

variable {table table' : SubscribersTable} {now : ℤ} {chatId other : String}
  {watchlist normalized : List String}

variable (table now chatId) in
/-- **The row that a chat has after it subscribed.** -/
theorem subscribe_of_normalize (h : normalizeWatchlist casing watchlist = .ok normalized) :
    ∃ row, subscribe casing table now chatId watchlist =
        .ok (toSubscriber chatId row, table.set chatId row) ∧
      row.watchlist = normalized ∧ row.isActive = true := by
  unfold subscribe
  rw [h]
  cases table.get? chatId with
  | none => exact ⟨_, rfl, rfl, rfl⟩
  | some row => exact ⟨_, rfl, rfl, rfl⟩

theorem get?_unsubscribe_self :
    (unsubscribe table chatId).get? chatId =
      (table.get? chatId).map fun row => { row with isActive := false } := by
  unfold unsubscribe
  cases hrow : table.get? chatId with
  | none => exact hrow
  | some row => exact table.get?_set_self chatId _

theorem get?_unsubscribe_of_ne (hne : other ≠ chatId) :
    (unsubscribe table chatId).get? other = table.get? other := by
  unfold unsubscribe
  cases table.get? chatId with
  | none => rfl
  | some row => exact table.get?_set_of_ne _ hne

theorem updateWatchlist_of_active {row : SubscriberRow}
    (h : normalizeWatchlist casing watchlist = .ok normalized)
    (hrow : activeRow table chatId = some row) :
    updateWatchlist casing table chatId watchlist =
      .ok (some (toSubscriber chatId { row with watchlist := normalized }),
        table.set chatId { row with watchlist := normalized }) := by
  unfold updateWatchlist
  rw [h, hrow]

theorem updateWatchlist_of_inactive
    (h : normalizeWatchlist casing watchlist = .ok normalized)
    (hrow : activeRow table chatId = none) :
    updateWatchlist casing table chatId watchlist = .ok (none, table) := by
  unfold updateWatchlist
  rw [h, hrow]

end Subscribers

end CryptoZaloBot
