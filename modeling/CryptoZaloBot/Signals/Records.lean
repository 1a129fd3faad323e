import Mathlib.Data.List.Sort
import CryptoZaloBot.Base.InsertionMap
import CryptoZaloBot.Signals.Evaluator

/-!
# Verdict records

The buy and sell verdicts a chat was sent, kept to be scored later: one for each coin,
verdict and day, the first one of the day. `recordVerdicts` adds some and then drops the
old ones; it is one Redis script, so that nothing happens in between.

The script sorts the records by time; in which order it leaves those of one millisecond
is its own affair (`CryptoZaloBot.Signals.LuaSort`).
-/

namespace CryptoZaloBot

namespace Signals

/-- Verdict records kept per chat, and for how long. -/
def maxRecordsPerChat : ℕ := 1000

def recordTtlDays : ℤ := 90

/-! ### Records -/

/-- The verdicts that are recorded. -/
inductive RecordedVerdict where
  | buy
  | sell
  deriving DecidableEq

/-- The recorded verdict a verdict is, if it is one. -/
def Verdict.recorded? : Verdict → Option RecordedVerdict
  | .buy => some .buy
  | .sell => some .sell
  | .watch => none

/-- A buy/sell verdict that was sent to a chat. -/
structure SignalRecord where
  symbol : String
  verdict : RecordedVerdict
  priceUsd : JsNumber
  /-- When the verdict was given. -/
  at_ : ℤ
  deriving DecidableEq

/-- The UTC day of a time, by its number. -/
def utcDay (ms : ℤ) : ℤ := ms / dayMs

/-- The field of a record; as a text, `symbol:verdict:day`. -/
structure RecordField where
  symbol : String
  verdict : RecordedVerdict
  day : ℤ
  deriving DecidableEq

/-- The value of a record; as a text, `usd:ms`. -/
structure RecordValue where
  priceUsd : JsNumber
  at_ : ℤ
  deriving DecidableEq

def SignalRecord.field (record : SignalRecord) : RecordField where
  symbol := record.symbol
  verdict := record.verdict
  day := utcDay record.at_

def SignalRecord.value (record : SignalRecord) : RecordValue where
  priceUsd := record.priceUsd
  at_ := record.at_

/-- The record under a field. -/
def recordOf (e : RecordField × RecordValue) : SignalRecord where
  symbol := e.1.symbol
  verdict := e.1.verdict
  priceUsd := e.2.priceUsd
  at_ := e.2.at_

/-- The records of a chat. -/
abbrev RecordHash := InsertionMap RecordField RecordValue

/-! ### The script -/

/-- **`table.sort`** by time: the order of equal times is left open. -/
structure LuaSort where
  sort : List (RecordField × RecordValue) → List (RecordField × RecordValue)
  perm : ∀ entries, (sort entries).Perm entries
  sorted : ∀ entries, (sort entries).Pairwise fun e e' => e.2.at_ ≤ e'.2.at_

/-- One order of equal times. -/
def insertionLuaSort : LuaSort where
  sort entries := entries.insertionSort fun e e' => e.2.at_ ≤ e'.2.at_
  perm entries := List.perm_insertionSort _ entries
  sorted entries := by
    have : Std.Total fun e e' : RecordField × RecordValue => e.2.at_ ≤ e'.2.at_ :=
      ⟨fun e e' => le_total e.2.at_ e'.2.at_⟩
    have : IsTrans _ fun e e' : RecordField × RecordValue => e.2.at_ ≤ e'.2.at_ :=
      ⟨fun _ _ _ => le_trans⟩
    exact List.pairwise_insertionSort _ entries

/-- `HSETNX`. -/
def setIfAbsent (hash : RecordHash) (record : SignalRecord) : RecordHash :=
  if (hash.get? record.field).isSome then hash else hash.set record.field record.value

/-- The fields the script drops: those before the cutoff, and the oldest ones beyond the
cap. -/
def droppedFields (luaSort : LuaSort) (hash : RecordHash) (cutoffMs : ℤ) : List RecordField :=
  let sorted := luaSort.sort hash.entries
  let excess := sorted.length - maxRecordsPerChat
  ((sorted.take excess) ++ (sorted.drop excess).filter fun e => e.2.at_ < cutoffMs).map Prod.fst

/-- **`recordVerdicts`.** -/
def recordVerdicts (luaSort : LuaSort) (hash : RecordHash) (records : List SignalRecord)
    (now : ℤ) : RecordHash :=
  if records = [] then hash
  else
    let stored := records.foldl setIfAbsent hash
    let dropped := droppedFields luaSort stored (now - recordTtlDays * dayMs)
    stored.filter fun e => e.1 ∉ dropped

/-- The records of the verdicts of a message: `recordSentVerdicts`. -/
def recordsOf (signals : List CoinSignal) (now : ℤ) : List SignalRecord :=
  signals.filterMap fun signal =>
    (signal.result.verdict.bind Verdict.recorded?).map fun verdict =>
      { symbol := signal.symbol, verdict, priceUsd := signal.result.priceUsd, at_ := now }

/-! ### What the script stores -/

theorem get?_foldl_setIfAbsent {hash : RecordHash} {records : List SignalRecord}
    {field : RecordField} {value : RecordValue}
    (h : (records.foldl setIfAbsent hash).get? field = some value) :
    hash.get? field = some value ∨ ∃ r ∈ records, r.field = field ∧ r.value = value := by
  induction records generalizing hash with
  | nil => exact Or.inl h
  | cons r records ih =>
    rcases ih h with hset | ⟨r', hr', heq⟩
    · rw [setIfAbsent] at hset
      split at hset
      · exact Or.inl hset
      · by_cases hfield : field = r.field
        · subst hfield
          rw [InsertionMap.get?_set_self] at hset
          exact Or.inr ⟨r, List.mem_cons_self, rfl, Option.some.inj hset⟩
        · rw [InsertionMap.get?_set_of_ne _ _ hfield] at hset
          exact Or.inl hset
    · exact Or.inr ⟨r', List.mem_cons_of_mem r hr', heq⟩

/-- **A stored record** was there before, or is one of those that were stored. -/
theorem get?_recordVerdicts {luaSort : LuaSort} {hash : RecordHash} {records : List SignalRecord}
    {now : ℤ} {field : RecordField} {value : RecordValue}
    (h : (recordVerdicts luaSort hash records now).get? field = some value) :
    hash.get? field = some value ∨ ∃ r ∈ records, r.field = field ∧ r.value = value := by
  rw [recordVerdicts] at h
  split at h
  · exact Or.inl h
  · exact get?_foldl_setIfAbsent (InsertionMap.get?_of_get?_filter h)

/-- **`HSETNX` keeps the first**: records of fields that are there already change nothing. -/
theorem foldl_setIfAbsent_of_known {hash : RecordHash} {records : List SignalRecord}
    (h : ∀ r ∈ records, (hash.get? r.field).isSome = true) :
    records.foldl setIfAbsent hash = hash := by
  induction records with
  | nil => rfl
  | cons r records ih =>
    have hkept : setIfAbsent hash r = hash := by
      rw [setIfAbsent, if_pos (h r List.mem_cons_self)]
    rw [List.foldl_cons, hkept]
    exact ih fun r' hr' => h r' (List.mem_cons_of_mem r hr')

/-- **A stored record** was there before, if all that were to be stored are known. -/
theorem get?_recordVerdicts_of_known {luaSort : LuaSort} {hash : RecordHash}
    {records : List SignalRecord} {now : ℤ} {field : RecordField} {value : RecordValue}
    (hknown : ∀ r ∈ records, (hash.get? r.field).isSome = true)
    (h : (recordVerdicts luaSort hash records now).get? field = some value) :
    hash.get? field = some value := by
  rw [recordVerdicts] at h
  split at h
  · exact h
  · rw [foldl_setIfAbsent_of_known hknown] at h
    exact InsertionMap.get?_of_get?_filter h

/-- A record is the one under its field. -/
theorem SignalRecord.recordOf_eq {r : SignalRecord} {field : RecordField} {value : RecordValue}
    (hfield : r.field = field) (hvalue : r.value = value) : recordOf (field, value) = r := by
  rw [← hfield, ← hvalue]
  rfl

theorem mem_recordsOf {signals : List CoinSignal} {now : ℤ} {record : SignalRecord} :
    record ∈ recordsOf signals now ↔
      ∃ signal ∈ signals, signal.result.verdict.bind Verdict.recorded? = some record.verdict ∧
        record = { symbol := signal.symbol, verdict := record.verdict
                   priceUsd := signal.result.priceUsd, at_ := now } := by
  rw [recordsOf, List.mem_filterMap]
  constructor
  · rintro ⟨signal, hmem, hrecord⟩
    obtain ⟨verdict, hverdict, rfl⟩ := Option.map_eq_some_iff.mp hrecord
    exact ⟨signal, hmem, hverdict, rfl⟩
  · rintro ⟨signal, hmem, hverdict, heq⟩
    refine ⟨signal, hmem, ?_⟩
    rw [hverdict, heq]
    rfl

end Signals

end CryptoZaloBot
