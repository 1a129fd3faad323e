import CryptoZaloBot.Base.IsoTime
import CryptoZaloBot.Base.Notation
import CryptoZaloBot.Signals.Records

/-!
# Verdict records as texts

In Redis a record is two texts, a field and a value, and the script that stores records knows
the time of one only from the digits its value ends in. It stores what is new, sorts everything
by that time, and drops in one loop what is too old and what is beyond the cap.

How many are beyond the cap is counted before anything is dropped. This does not drop too many:
what is too old is also the oldest (`CryptoZaloBot.Signals.storeTexts_keeps`). A record that is
not too old goes only when a thousand others, none of them older, stay.
-/

namespace CryptoZaloBot

namespace Signals

/-- The records of a chat, as Redis has them. -/
abbrev RecordTexts := InsertionMap String String

/-! ### The script -/

/-- `string.match(value, ":(%d+)$")`: the digits after a colon, up to the end. -/
def matchDigits : List Char → Option (List Char)
  | [] => none
  | c :: cs =>
    if c = ':' ∧ cs ≠ [] ∧ cs.all Char.isDigit = true then some cs else matchDigits cs

/-- The time of a value; `0` if it does not end in one. -/
def textTime (value : String) : ℤ := ((matchDigits value.toList).map Decimal.value).getD 0

/-- **`table.sort`** by time: the order of equal times is left open. -/
structure LuaTextSort where
  sort : List (String × String) → List (String × String)
  perm : ∀ entries, (sort entries).Perm entries
  sorted : ∀ entries, (sort entries).Pairwise fun e e' => textTime e.2 ≤ textTime e'.2

/-- One order of equal times. -/
def insertionTextSort : LuaTextSort where
  sort entries := entries.insertionSort fun e e' => textTime e.2 ≤ textTime e'.2
  perm entries := List.perm_insertionSort _ entries
  sorted entries := by
    have : Std.Total fun e e' : String × String => textTime e.2 ≤ textTime e'.2 :=
      ⟨fun e e' => le_total (textTime e.2) (textTime e'.2)⟩
    have : IsTrans _ fun e e' : String × String => textTime e.2 ≤ textTime e'.2 :=
      ⟨fun _ _ _ => le_trans⟩
    exact List.pairwise_insertionSort _ entries

/-- `HSETNX`. -/
def setTextIfAbsent (hash : RecordTexts) (pair : String × String) : RecordTexts :=
  if (hash.get? pair.1).isSome then hash else hash.set pair.1 pair.2

/-- The loop that drops records: those before the cutoff, and those up to the excess. -/
def dropLoop (cutoffMs excess : ℤ) : ℤ → List (String × String) → RecordTexts → RecordTexts
  | _, [], hash => hash
  | i, e :: es, hash =>
    dropLoop cutoffMs excess (i + 1) es
      (if textTime e.2 < cutoffMs ∨ i ≤ excess then hash.erase e.1 else hash)

/-- **`RECORD_VERDICTS_SCRIPT`.** -/
def storeTexts (luaSort : LuaTextSort) (hash : RecordTexts) (cutoffMs : ℤ) (max : ℕ)
    (pairs : List (String × String)) : RecordTexts :=
  let stored := pairs.foldl setTextIfAbsent hash
  let entries := luaSort.sort stored.entries
  let excess : ℤ := entries.length - max
  dropLoop cutoffMs excess 1 entries stored

/-! ### Records as texts -/

/-- **Numbers as texts**: `String(x)` and `Number(s)`. A finite number is read back, and a whole
one is written with its digits as long as there are not too many. -/
structure NumberTexts where
  text : JsNumber → List Char
  number : List Char → JsNumber
  number_text : ∀ q, number (text (.finite q)) = .finite q
  colon_notMem : ∀ q, ':' ∉ text (.finite q)
  text_nat : ∀ n : ℕ, n < 10 ^ 21 → text (.finite n) = Decimal.ofNat n

def RecordedVerdict.text : RecordedVerdict → List Char
  | .buy => "buy".toList
  | .sell => "sell".toList

/-- `symbol:verdict:day`. -/
def SignalRecord.fieldText (record : SignalRecord) : String :=
  String.ofList (record.symbol.toList ++ ':' ::
    (record.verdict.text ++ ':' :: IsoTime.dayText record.at_))

/-- `usd:ms`. -/
def SignalRecord.valueText (texts : NumberTexts) (record : SignalRecord) : String :=
  String.ofList (texts.text record.priceUsd ++ ':' :: texts.text (.finite record.at_))

/-- **`recordVerdicts`**, as Redis sees it. -/
def recordVerdictTexts (texts : NumberTexts) (luaSort : LuaTextSort) (hash : RecordTexts)
    (records : List SignalRecord) (now : ℤ) : RecordTexts :=
  if records = [] then hash
  else storeTexts luaSort hash (now - recordTtlDays * dayMs) maxRecordsPerChat
    (records.map fun record => (record.fieldText, record.valueText texts))

/-! ### What is stored -/

section Storing

variable {hash : RecordTexts} {pairs : List (String × String)} {field value : String}

/-- The value a field has before anything is dropped: the one it has, or the first that is
stored for it. -/
def valueOf (hash : RecordTexts) (pairs : List (String × String)) (field : String) :
    Option String :=
  (hash.get? field).or (InsertionMap.lookupEntry field pairs)

theorem get?_foldl_setTextIfAbsent (hash : RecordTexts) (pairs : List (String × String))
    (field : String) :
    (pairs.foldl setTextIfAbsent hash).get? field = valueOf hash pairs field := by
  induction pairs generalizing hash with
  | nil => simp [valueOf, InsertionMap.lookupEntry]
  | cons pair pairs ih =>
    obtain ⟨field', value'⟩ := pair
    rw [List.foldl_cons, ih, valueOf, valueOf, InsertionMap.lookupEntry, setTextIfAbsent]
    cases hstored : hash.get? field' with
    | some value =>
      rcases eq_or_ne field' field with rfl | hne
      · simp [hstored]
      · simp [hne]
    | none =>
      rcases eq_or_ne field' field with rfl | hne
      · simp [hstored]
      · simp [InsertionMap.get?_set_of_ne _ _ hne.symm, hne]

end Storing

/-! ### What is dropped -/

section Dropping

variable {cutoffMs excess i : ℤ} {entries : List (String × String)} {hash : RecordTexts}
  {field value : String}

/-- The fields the loop drops: the first ones, up to the excess, and of the rest those before
the cutoff. -/
def droppedTexts (cutoffMs excess i : ℤ) (entries : List (String × String)) : List String :=
  let count := (excess - i + 1).toNat
  (entries.take count ++ (entries.drop count).filter fun e => textTime e.2 < cutoffMs).map
    Prod.fst

theorem droppedTexts_cons (e : String × String) (es : List (String × String)) :
    droppedTexts cutoffMs excess i (e :: es) =
      if textTime e.2 < cutoffMs ∨ i ≤ excess then e.1 :: droppedTexts cutoffMs excess (i + 1) es
      else droppedTexts cutoffMs excess (i + 1) es := by
  by_cases hcount : i ≤ excess
  · have hsucc : (excess - i + 1).toNat = (excess - (i + 1) + 1).toNat + 1 := by omega
    rw [if_pos (Or.inr hcount), droppedTexts, hsucc, List.take_succ_cons, List.drop_succ_cons]
    rfl
  · have hzero : (excess - i + 1).toNat = 0 ∧ (excess - (i + 1) + 1).toNat = 0 := by omega
    rw [droppedTexts, droppedTexts, hzero.1, hzero.2]
    by_cases hold : textTime e.2 < cutoffMs <;> simp [hold, hcount]

/-- **The loop drops these fields**, and no others. -/
theorem dropLoop_eq (cutoffMs excess i : ℤ) (entries : List (String × String))
    (hash : RecordTexts) :
    dropLoop cutoffMs excess i entries hash =
      hash.filter fun e => e.1 ∉ droppedTexts cutoffMs excess i entries := by
  refine InsertionMap.ext_entries ?_
  show _ = hash.entries.filter _
  induction entries generalizing i hash with
  | nil => simp [dropLoop, droppedTexts]
  | cons e es ih =>
    rw [dropLoop, ih, droppedTexts_cons]
    by_cases hdrop : textTime e.2 < cutoffMs ∨ i ≤ excess
    · rw [if_pos hdrop, if_pos hdrop]
      show (hash.entries.filter fun e' => e'.1 ≠ e.1).filter _ = _
      rw [List.filter_filter]
      refine List.filter_congr fun e' _ => ?_
      simp [Bool.and_comm]
    · rw [if_neg hdrop, if_neg hdrop]

theorem get?_dropLoop (cutoffMs excess i : ℤ) (entries : List (String × String))
    (hash : RecordTexts) (field : String) :
    (dropLoop cutoffMs excess i entries hash).get? field =
      if field ∈ droppedTexts cutoffMs excess i entries then none else hash.get? field := by
  rw [dropLoop_eq, InsertionMap.get?_filter]
  split_ifs with hdropped
  · simp [hdropped]
  · cases hash.get? field with
    | none => rfl
    | some value => simp [hdropped]

/-- **What the script leaves of a hash**, of records that were stored in it. -/
structure KeepsRecords (cutoffMs : ℤ) (max : ℕ) (hash : RecordTexts)
    (pairs : List (String × String)) (after : RecordTexts) : Prop where
  /-- The value a field already had stays; else it is the first one that was stored. -/
  first : ∀ field value, after.get? field = some value → valueOf hash pairs field = some value
  recent : ∀ field value, after.get? field = some value → cutoffMs ≤ textTime value
  capped : after.entries.length ≤ max
  /-- What is not too old goes only if enough others, at least as new, stay. -/
  dropped : ∀ field value, valueOf hash pairs field = some value → cutoffMs ≤ textTime value →
    after.get? field = none →
    max ≤ (after.entries.filter fun e => textTime value ≤ textTime e.2).length

variable {luaSort : LuaTextSort} {max : ℕ} {pairs : List (String × String)}

/-- The records that are sorted behind the excess. -/
def behindExcess (luaSort : LuaTextSort) (max : ℕ) (stored : RecordTexts) :
    List (String × String) :=
  (luaSort.sort stored.entries).drop (stored.entries.length - max)

variable {stored : RecordTexts}

theorem nodup_keys_sort (luaSort : LuaTextSort) (stored : RecordTexts) :
    ((luaSort.sort stored.entries).map Prod.fst).Nodup :=
  ((luaSort.perm _).map _).nodup_iff.mpr stored.nodup

theorem mem_behindExcess_or (h : stored.get? field = some value) :
    (field, value) ∈ (luaSort.sort stored.entries).take (stored.entries.length - max) ∨
      (field, value) ∈ behindExcess luaSort max stored := by
  have hmem : (field, value) ∈ luaSort.sort stored.entries :=
    (luaSort.perm _).mem_iff.mpr (InsertionMap.mem_entries.mpr h)
  rw [← List.take_append_drop (stored.entries.length - max) (luaSort.sort stored.entries)] at hmem
  exact List.mem_append.mp hmem

/-- **What is left**: of the records behind the excess those that are not too old. -/
theorem get?_dropLoop_sort (luaSort : LuaTextSort) (max : ℕ) (stored : RecordTexts) :
    (dropLoop cutoffMs ((luaSort.sort stored.entries).length - max) 1
        (luaSort.sort stored.entries) stored).get? field = some value ↔
      (field, value) ∈ behindExcess luaSort max stored ∧ cutoffMs ≤ textTime value := by
  set entries := luaSort.sort stored.entries with hentries
  have hlength : entries.length = stored.entries.length := (luaSort.perm _).length_eq
  have hcount : ((entries.length : ℤ) - max - 1 + 1).toNat = stored.entries.length - max := by
    omega
  have hkeys := nodup_keys_sort luaSort stored
  rw [← hentries, ← List.take_append_drop (stored.entries.length - max) entries, List.map_append,
    List.nodup_append] at hkeys
  obtain ⟨-, hrest, hdisjoint⟩ := hkeys
  rw [get?_dropLoop, droppedTexts, hcount, behindExcess, ← hentries]
  constructor
  · intro h
    split at h
    · cases h
    · next hkept =>
      rw [List.map_append, List.mem_append, not_or] at hkept
      have hbehind : (field, value) ∈ entries.drop (stored.entries.length - max) :=
        (mem_behindExcess_or h).resolve_left fun hfirst =>
          hkept.1 (List.mem_map.mpr ⟨_, hfirst, rfl⟩)
      refine ⟨hbehind, not_lt.mp fun hold => hkept.2 ?_⟩
      exact List.mem_map.mpr ⟨_, List.mem_filter.mpr ⟨hbehind, decide_eq_true hold⟩, rfl⟩
  · rintro ⟨hbehind, hrecent⟩
    have hfield : field ∈ (entries.drop (stored.entries.length - max)).map Prod.fst :=
      List.mem_map.mpr ⟨_, hbehind, rfl⟩
    rw [if_neg]
    · exact InsertionMap.mem_entries.mp
        ((luaSort.perm _).mem_iff.mp (List.mem_of_mem_drop hbehind))
    · rw [List.map_append, List.mem_append, not_or]
      refine ⟨fun hfirst => hdisjoint _ hfirst _ hfield rfl, fun hold => ?_⟩
      obtain ⟨⟨_, old⟩, he, rfl⟩ := List.mem_map.mp hold
      obtain ⟨hmem, hlt⟩ := List.mem_filter.mp he
      obtain rfl : old = value :=
        (Prod.mk.inj (List.inj_on_of_nodup_map hrest hmem hbehind rfl)).2
      exact absurd hrecent (not_le.mpr (of_decide_eq_true hlt))

/-- **The script keeps what it should.** -/
theorem storeTexts_keeps (luaSort : LuaTextSort) (hash : RecordTexts) (cutoffMs : ℤ) (max : ℕ)
    (pairs : List (String × String)) :
    KeepsRecords cutoffMs max hash pairs (storeTexts luaSort hash cutoffMs max pairs) := by
  set stored := pairs.foldl setTextIfAbsent hash with hstored
  have hvalue : ∀ field, stored.get? field = valueOf hash pairs field :=
    get?_foldl_setTextIfAbsent hash pairs
  have hleft : ∀ field value,
      (storeTexts luaSort hash cutoffMs max pairs).get? field = some value ↔
        (field, value) ∈ behindExcess luaSort max stored ∧ cutoffMs ≤ textTime value :=
    fun _ _ => get?_dropLoop_sort luaSort max stored
  set after := storeTexts luaSort hash cutoffMs max pairs
  have hlength : (behindExcess luaSort max stored).length =
      stored.entries.length - (stored.entries.length - max) := by
    rw [behindExcess, List.length_drop, (luaSort.perm _).length_eq]
  refine ⟨fun field value h => ?_, fun field value h => ((hleft field value).mp h).2, ?_, ?_⟩
  · rw [← hvalue, ← InsertionMap.mem_entries]
    exact (luaSort.perm _).mem_iff.mp (List.mem_of_mem_drop ((hleft field value).mp h).1)
  · have hsub : after.entries ⊆ behindExcess luaSort max stored := fun e he =>
      ((hleft e.1 e.2).mp (InsertionMap.mem_entries.mp he)).1
    have hle := ((List.Nodup.of_map _ after.nodup).subperm hsub).length_le
    omega
  · intro field value hmem hrecent hgone
    rw [← hvalue] at hmem
    have hfirst : (field, value) ∈
        (luaSort.sort stored.entries).take (stored.entries.length - max) := by
      refine (mem_behindExcess_or hmem).resolve_right fun hbehind => ?_
      rw [(hleft field value).mpr ⟨hbehind, hrecent⟩] at hgone
      cases hgone
    have hsorted := luaSort.sorted stored.entries
    rw [← List.take_append_drop (stored.entries.length - max) (luaSort.sort stored.entries),
      List.pairwise_append] at hsorted
    have hnewer : ∀ e ∈ behindExcess luaSort max stored, textTime value ≤ textTime e.2 :=
      hsorted.2.2 (field, value) hfirst
    have hsub : behindExcess luaSort max stored ⊆
        after.entries.filter fun e => textTime value ≤ textTime e.2 := by
      intro e he
      refine List.mem_filter.mpr ⟨InsertionMap.mem_entries.mpr ?_, decide_eq_true (hnewer e he)⟩
      exact (hleft e.1 e.2).mpr ⟨he, hrecent.trans (hnewer e he)⟩
    have hnodup : (behindExcess luaSort max stored).Nodup :=
      (List.Nodup.of_map _ (nodup_keys_sort luaSort stored)).sublist (List.drop_sublist _ _)
    have hle := (hnodup.subperm hsub).length_le
    have hexcess : 0 < stored.entries.length - max := by
      by_contra hnone
      rw [show stored.entries.length - max = 0 by omega, List.take_zero] at hfirst
      cases hfirst
    omega

end Dropping

/-! ### Numbers as fractions -/

/-- A fraction as a text; a whole number without its denominator. -/
def fractionText (q : ℚ) : List Char :=
  (if q.num < 0 then ['-'] else []) ++
    (Decimal.ofNat q.num.natAbs ++ if q.den = 1 then [] else '/' :: Decimal.ofNat q.den)

def readFraction (cs : List Char) : JsNumber :=
  let unsigned := if cs.head? = some '-' then cs.tail else cs
  let whole : ℤ := Decimal.value (unsigned.takeWhile Char.isDigit)
  let den := (unsigned.dropWhile Char.isDigit).tail
  .finite ((if cs.head? = some '-' then -whole else whole : ℤ) /
    (if den = [] then 1 else Decimal.value den : ℕ))

theorem readFraction_fractionText (q : ℚ) : readFraction (fractionText q) = .finite q := by
  set rest := if q.den = 1 then [] else '/' :: Decimal.ofNat q.den with hrest
  have hhead : ∀ c ∈ rest.head?, c.isDigit = false := by
    rw [hrest]
    split
    · simp
    · simp
  obtain ⟨htake, hdrop⟩ := Decimal.takeWhile_digits (Decimal.ofNat q.num.natAbs) rest
    (fun c hc => Decimal.isDigit_of_mem_ofNat hc) hhead
  have hden : (if rest.tail = [] then 1 else Decimal.value rest.tail : ℕ) = q.den := by
    rw [hrest]
    split
    · next hone => simp [hone]
    · simp [Decimal.ofNat_ne_nil]
  obtain ⟨c, cs, hdigits⟩ := List.exists_cons_of_ne_nil (Decimal.ofNat_ne_nil q.num.natAbs)
  have hc : c ≠ '-' := by
    rintro rfl
    have hdigit : '-' ∈ Decimal.ofNat q.num.natAbs := by rw [hdigits]; exact List.mem_cons_self
    exact absurd (Decimal.isDigit_of_mem_ofNat hdigit) (by decide)
  have hminus : (fractionText q).head? = some '-' ↔ q.num < 0 := by
    rw [fractionText, hdigits]
    split_ifs with hneg <;> simp [hneg, hc]
  have hunsigned : (if (fractionText q).head? = some '-' then (fractionText q).tail
      else fractionText q) = Decimal.ofNat q.num.natAbs ++ rest := by
    rw [if_congr hminus rfl rfl, fractionText, ← hrest]
    split_ifs <;> rfl
  have hsign : (if (fractionText q).head? = some '-' then -(q.num.natAbs : ℤ) else q.num.natAbs) =
      q.num := by
    rw [if_congr hminus rfl rfl]
    split_ifs <;> omega
  rw [readFraction]
  simp only [hunsigned, htake, hdrop, hden, Decimal.value_ofNat, hsign]
  rw [Rat.num_div_den]

/-- A number, a fraction if it is finite. -/
def fractionNumberText : JsNumber → List Char
  | .finite q => fractionText q
  | .posInfinity => "Infinity".toList
  | .negInfinity => "-Infinity".toList
  | .nan => "NaN".toList

theorem colon_notMem_fractionText (q : ℚ) : ':' ∉ fractionText q := by
  have hdigits : ∀ n, ':' ∉ Decimal.ofNat n := fun n h =>
    absurd (Decimal.isDigit_of_mem_ofNat h) (by decide)
  simp only [fractionText]
  split_ifs <;> simp [hdigits]

theorem fractionText_natCast (n : ℕ) (_ : n < 10 ^ 21) : fractionText n = Decimal.ofNat n := by
  have hnonneg : ¬(n : ℤ) < 0 := by omega
  simp [fractionText, hnonneg]

/-- Numbers written as fractions: a whole number is written with its digits. -/
def fractionTexts : NumberTexts where
  text := fractionNumberText
  number := readFraction
  number_text := readFraction_fractionText
  colon_notMem := colon_notMem_fractionText
  text_nat := fractionText_natCast

/-! ### A call -/

section Calls

variable {texts : NumberTexts} {luaSort : LuaTextSort} {hash : RecordTexts}
  {records : List SignalRecord} {now : ℤ}

/-- **A call of `recordVerdicts`** keeps the first value of every field, nothing that is older
than ninety days, and a thousand records; and what it drops without need of age, a thousand
others outlive that are as new. -/
theorem recordVerdictTexts_keeps (hrecords : records ≠ []) :
    KeepsRecords (now - recordTtlDays * dayMs) maxRecordsPerChat hash
      (records.map fun record => (record.fieldText, record.valueText texts))
      (recordVerdictTexts texts luaSort hash records now) := by
  rw [recordVerdictTexts, if_neg hrecords]
  exact storeTexts_keeps luaSort hash _ _ _

end Calls

/-- A verdict on a coin. -/
def verdictOn (symbol : String) : SignalRecord where
  symbol := symbol
  verdict := .buy
  priceUsd := .finite 84000
  at_ := 1791375600000

/-- A hundred days before, `sol` was stored. -/
def oldTexts : RecordTexts :=
  recordVerdictTexts fractionTexts insertionTextSort .empty
    [{ verdictOn "sol" with at_ := 1791375600000 - 100 * dayMs }] (1791375600000 - 100 * dayMs)

/-- The verdict on `btc` twice, at two prices. -/
def repeatedVerdict : List SignalRecord :=
  [verdictOn "btc", { verdictOn "btc" with priceUsd := .finite 85000 }]

/-- The old record goes, and of the repeated one the first price stays. -/
theorem recordVerdictTexts_keeps_btc :
    KeepsRecords (1791375600000 - recordTtlDays * dayMs) maxRecordsPerChat oldTexts
        (repeatedVerdict.map fun record => (record.fieldText, record.valueText fractionTexts))
        (recordVerdictTexts fractionTexts insertionTextSort oldTexts repeatedVerdict
          1791375600000) ∧
      (recordVerdictTexts fractionTexts insertionTextSort oldTexts repeatedVerdict
        1791375600000).entries =
        [((verdictOn "btc").fieldText, (verdictOn "btc").valueText fractionTexts)] :=
  ⟨recordVerdictTexts_keeps (by decide), by decide +kernel⟩

end Signals

end CryptoZaloBot
