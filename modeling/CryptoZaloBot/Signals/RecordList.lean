import CryptoZaloBot.Base.Timeline
import CryptoZaloBot.Commands.Trades
import CryptoZaloBot.Signals.History
import CryptoZaloBot.Signals.RecordTexts
import CryptoZaloBot.Subscribers.Service

/-!
# Reading verdict records back

`listRecords` splits the texts of the records at their colons. The texts were joined with
colons, and a symbol is whatever a user put on a watchlist: it may have a colon of its own.
The parts of such a record are then taken for others, and it is lost, or listed as a record of
another coin. All other records come back as they were stored
(`CryptoZaloBot.Signals.listRecordTexts_perm_iff`).

Whatever the symbols are, records of different coins, verdicts or days have different fields
(`CryptoZaloBot.Signals.fieldText_inj`): the part behind the symbol has no colon but its own.
So the script does to the texts what `recordVerdicts` does to the records
(`CryptoZaloBot.Signals.asTexts_recordVerdicts`).
-/

namespace CryptoZaloBot

namespace Signals

/-! ### Listing -/

/-- A record that was read. -/
structure ListedRecord where
  symbol : String
  verdict : RecordedVerdict
  priceUsd : JsNumber
  at_ : ℚ
  deriving DecidableEq

/-- A record as it is read back. -/
def SignalRecord.listed (record : SignalRecord) : ListedRecord where
  symbol := record.symbol
  verdict := record.verdict
  priceUsd := record.priceUsd
  at_ := record.at_

def readVerdict (text : List Char) : Option RecordedVerdict :=
  if text = "buy".toList then some .buy
  else if text = "sell".toList then some .sell
  else none

/-- The parts of a text between its colons, of which only the first two are read. -/
def colonParts (text : String) : Option (List Char × List Char) :=
  match text.toList.splitOn ':' with
  | first :: second :: _ => some (first, second)
  | _ => none

/-- A finite number. -/
def finiteNumber (x : JsNumber) : Option ℚ :=
  match x with
  | .finite q => some q
  | _ => none

/-- One turn of the loop of `listRecords`, and of `parseRecords` in the report. -/
def readRecord (texts : NumberTexts) (entry : String × String) : Option ListedRecord := do
  let field ← colonParts entry.1
  let value ← colonParts entry.2
  let verdict ← readVerdict field.2
  let price ← finiteNumber (texts.number value.1)
  let time ← finiteNumber (texts.number value.2)
  pure { symbol := String.ofList field.1, verdict, priceUsd := .finite price, at_ := time }

/-- **`listRecords`**, of the texts in the order in which Redis lists them. -/
def listRecordTexts (texts : NumberTexts) (raw : List (String × String)) (sinceMs : ℤ) :
    List ListedRecord :=
  sortOn ListedRecord.at_ ((raw.filterMap (readRecord texts)).filter fun record =>
    (sinceMs : ℚ) ≤ record.at_)

/-- The first record of each coin, verdict and day. -/
def firstRecords : List SignalRecord → List SignalRecord
  | [] => []
  | record :: records => record :: (firstRecords records).filter fun r => r.field ≠ record.field

/-- **What should be listed**: of the first records those that are new enough. -/
def expectedRecords (records : List SignalRecord) (sinceMs : ℤ) : List SignalRecord :=
  (firstRecords records).filter fun record => sinceMs ≤ record.at_

/-! ### Texts and records -/

section Texts

variable {texts : NumberTexts} {record record' : SignalRecord}

theorem matchDigits_append (cs : List Char) {ds : List Char} (hne : ds ≠ [])
    (hdigits : ∀ c ∈ ds, c.isDigit = true) : matchDigits (cs ++ ':' :: ds) = some ds := by
  induction cs with
  | nil =>
    rw [List.nil_append, matchDigits, if_pos ⟨rfl, hne, List.all_eq_true.mpr hdigits⟩]
  | cons c cs ih =>
    rw [List.cons_append, matchDigits, if_neg, ih]
    rintro ⟨-, -, hall⟩
    exact absurd (List.all_eq_true.mp hall ':' (by simp)) (by decide)

theorem toNat_lt_of_clockTime {t : ℤ} (h : IsoTime.ClockTime t) : t.toNat < 10 ^ 21 := by
  have hlt : t < 10 ^ 21 := h.2.2.trans_le (by decide +kernel)
  omega

/-- The text of a time. -/
theorem text_time (texts : NumberTexts) {t : ℤ} (h : IsoTime.ClockTime t) :
    texts.text (.finite t) = Decimal.ofNat t.toNat := by
  rw [← texts.text_nat t.toNat (toNat_lt_of_clockTime h)]
  congr 2
  have hnonneg := h.1
  exact_mod_cast (Int.toNat_of_nonneg hnonneg).symm

/-- **The script reads the time of a record** out of its value. -/
theorem textTime_valueText (h : IsoTime.ClockTime record.at_) :
    textTime (record.valueText texts) = record.at_ := by
  rw [textTime, SignalRecord.valueText, String.toList_ofList, text_time texts h,
    matchDigits_append _ (Decimal.ofNat_ne_nil _) fun c hc => Decimal.isDigit_of_mem_ofNat hc]
  simp [h.1]

theorem verdict_colon_notMem (verdict : RecordedVerdict) : ':' ∉ verdict.text := by
  cases verdict <;> decide

theorem readVerdict_text (verdict : RecordedVerdict) : readVerdict verdict.text = some verdict := by
  cases verdict <;> rfl

/-- Texts that end in a verdict, behind a colon. -/
theorem append_verdict_inj {a a' : List Char} {verdict verdict' : RecordedVerdict}
    (h : a ++ ':' :: verdict.text = a' ++ ':' :: verdict'.text) : a = a' ∧ verdict = verdict' := by
  obtain rfl : verdict = verdict' := by
    have hlast := congrArg List.getLast? h
    cases verdict <;> cases verdict' <;> first
      | rfl
      | simp [RecordedVerdict.text] at hlast
  exact ⟨List.append_cancel_right h, rfl⟩

/-- **Different records have different fields**, whatever their symbols are. -/
theorem fieldText_inj (h : IsoTime.InRange record.at_) (h' : IsoTime.InRange record'.at_) :
    record.fieldText = record'.fieldText ↔ record.field = record'.field := by
  have hday : IsoTime.dayText record.at_ = IsoTime.dayText record'.at_ ↔
      utcDay record.at_ = utcDay record'.at_ := IsoTime.dayText_inj h h'
  constructor
  · intro htext
    have hchars : (record.symbol.toList ++ ':' :: record.verdict.text) ++
          ':' :: IsoTime.dayText record.at_ =
        (record'.symbol.toList ++ ':' :: record'.verdict.text) ++
          ':' :: IsoTime.dayText record'.at_ := by
      simpa [SignalRecord.fieldText] using congrArg String.toList htext
    obtain ⟨hfront, hback⟩ := List.append_inj' hchars (by simp [IsoTime.dayText])
    obtain ⟨hsymbol, hverdict⟩ := append_verdict_inj hfront
    rw [SignalRecord.field, SignalRecord.field, String.toList_inj.mp hsymbol, hverdict,
      hday.mp (List.cons.inj hback).2]
  · intro hfield
    obtain ⟨hsymbol, hverdict, hsame⟩ := RecordField.mk.inj hfield
    rw [SignalRecord.fieldText, SignalRecord.fieldText, hsymbol, hverdict, hday.mpr hsame]

theorem splitOn_join {a : List Char} (ha : ':' ∉ a) (cs : List Char) :
    (a ++ ':' :: cs).splitOn ':' = a :: cs.splitOn ':' := by
  rw [List.splitOn_append_cons_self, List.splitOn_eq_singleton ha]
  rfl

/-- The parts of two texts that were joined. -/
theorem colonParts_join {a b : List Char} (ha : ':' ∉ a) (hb : ':' ∉ b) :
    colonParts (String.ofList (a ++ ':' :: b)) = some (a, b) := by
  rw [colonParts, String.toList_ofList, splitOn_join ha, List.splitOn_eq_singleton hb]

/-- The first two parts of texts that were joined. -/
theorem colonParts_join_join {a b : List Char} (ha : ':' ∉ a) (hb : ':' ∉ b) (rest : List Char) :
    colonParts (String.ofList (a ++ ':' :: (b ++ ':' :: rest))) = some (a, b) := by
  rw [colonParts, String.toList_ofList, splitOn_join ha, splitOn_join hb]

/-- What stands before the first colon has none. -/
theorem colon_notMem_of_colonParts {text : String} {parts : List Char × List Char}
    (h : colonParts text = some parts) : ':' ∉ parts.1 := by
  rw [colonParts] at h
  by_cases hcolon : ':' ∈ text.toList
  · obtain ⟨front, back, htext, hfront⟩ := List.eq_append_cons_of_mem hcolon
    rw [htext, List.splitOn_append_cons_self, List.splitOn_eq_singleton hfront] at h
    obtain ⟨second, rest, hback⟩ :=
      List.exists_cons_of_ne_nil (List.splitOn_ne_nil ':' back)
    rw [hback] at h
    obtain rfl := Option.some.inj h
    exact hfront
  · rw [List.splitOn_eq_singleton hcolon] at h
    cases h

theorem finiteNumber_eq_some {x : JsNumber} {q : ℚ} : finiteNumber x = some q ↔ x = .finite q := by
  cases x <;> simp [finiteNumber]

/-- **What it takes to be read as a record.** -/
theorem readRecord_eq_some {entry : String × String} {listed : ListedRecord} :
    readRecord texts entry = some listed ↔
      ∃ field value verdict price time, colonParts entry.1 = some field ∧
        colonParts entry.2 = some value ∧ readVerdict field.2 = some verdict ∧
        texts.number value.1 = .finite price ∧ texts.number value.2 = .finite time ∧
        { symbol := String.ofList field.1, verdict, priceUsd := .finite price, at_ := time } =
          listed := by
  simp only [readRecord, bind, Option.bind_eq_some_iff, finiteNumber_eq_some, pure,
    Option.some.injEq]
  constructor
  · rintro ⟨field, hfield, value, hvalue, verdict, hverdict, price, hprice, time, htime, h⟩
    exact ⟨field, value, verdict, price, time, hfield, hvalue, hverdict, hprice, htime, h⟩
  · rintro ⟨field, value, verdict, price, time, hfield, hvalue, hverdict, hprice, htime, h⟩
    exact ⟨field, hfield, value, hvalue, verdict, hverdict, price, hprice, time, htime, h⟩

/-- The parts of a value. -/
theorem colonParts_valueText (record : SignalRecord) {price : ℚ}
    (hprice : record.priceUsd = .finite price) :
    colonParts (record.valueText texts) =
      some (texts.text (.finite price), texts.text (.finite record.at_)) := by
  rw [SignalRecord.valueText, hprice]
  exact colonParts_join (texts.colon_notMem price) (texts.colon_notMem _)

/-- **A record whose symbol has no colon is read back.** -/
theorem readRecord_texts (hprice : record.priceUsd.isFinite = true)
    (hcolon : ':' ∉ record.symbol.toList) :
    readRecord texts (record.fieldText, record.valueText texts) = some record.listed := by
  obtain ⟨price, hprice⟩ := JsNumber.isFinite_iff.mp hprice
  have hfield : colonParts record.fieldText = some (record.symbol.toList, record.verdict.text) :=
    colonParts_join_join hcolon (verdict_colon_notMem record.verdict) _
  refine readRecord_eq_some.mpr ⟨_, _, record.verdict, price, record.at_, hfield,
    colonParts_valueText record hprice, readVerdict_text _, texts.number_text _,
    texts.number_text _, ?_⟩
  rw [SignalRecord.listed, hprice, String.ofList_toList]

/-- Of a record that is read, whatever its field has become, the time is right. -/
theorem at_of_readRecord {listed : ListedRecord} (hprice : record.priceUsd.isFinite = true)
    (h : readRecord texts (record.fieldText, record.valueText texts) = some listed) :
    listed.at_ = record.at_ := by
  obtain ⟨price, hprice⟩ := JsNumber.isFinite_iff.mp hprice
  obtain ⟨field, value, verdict, price', time, -, hvalue, -, -, htime, rfl⟩ :=
    readRecord_eq_some.mp h
  obtain rfl := Option.some.inj ((colonParts_valueText record hprice).symm.trans hvalue)
  exact JsNumber.finite.inj (htime.symm.trans (texts.number_text _))

/-- **A symbol that was read has no colon.** -/
theorem colon_notMem_of_readRecord {entry : String × String} {listed : ListedRecord}
    (h : readRecord texts entry = some listed) : ':' ∉ listed.symbol.toList := by
  obtain ⟨field, value, verdict, price, time, hfield, -, -, -, -, rfl⟩ := readRecord_eq_some.mp h
  rw [String.toList_ofList]
  exact colon_notMem_of_colonParts hfield

end Texts

/-! ### What is stored of an empty hash -/

section Stored

variable {texts : NumberTexts} {luaSort : LuaTextSort} {records : List SignalRecord} {now : ℤ}

theorem firstRecords_subset (records : List SignalRecord) : firstRecords records ⊆ records := by
  induction records with
  | nil => exact List.Subset.refl _
  | cons record records ih =>
    exact List.cons_subset_cons _ fun r hr => ih (List.mem_filter.mp hr).1

theorem length_firstRecords_le (records : List SignalRecord) :
    (firstRecords records).length ≤ records.length := by
  induction records with
  | nil => exact le_rfl
  | cons record records ih =>
    exact Nat.succ_le_succ ((List.length_filter_le _ _).trans ih)

theorem pairwise_firstRecords (records : List SignalRecord) :
    (firstRecords records).Pairwise fun r r' => r.field ≠ r'.field := by
  induction records with
  | nil => exact List.Pairwise.nil
  | cons record records ih =>
    refine List.Pairwise.cons (fun r hr => ?_) (ih.filter _)
    exact (of_decide_eq_true (List.mem_filter.mp hr).2).symm

/-- The entry of a record. -/
def SignalRecord.entry (texts : NumberTexts) (record : SignalRecord) : String × String :=
  (record.fieldText, record.valueText texts)

/-- **The first value of a field** is that of a first record. -/
theorem lookupEntry_entries (hrange : ∀ r ∈ records, IsoTime.InRange r.at_) {key value : String} :
    InsertionMap.lookupEntry key (records.map (SignalRecord.entry texts)) = some value ↔
      (key, value) ∈ (firstRecords records).map (SignalRecord.entry texts) := by
  induction records with
  | nil => simp [InsertionMap.lookupEntry, firstRecords]
  | cons record records ih =>
    have hinj : ∀ r ∈ firstRecords records,
        r.fieldText = record.fieldText ↔ r.field = record.field := fun r hr =>
      fieldText_inj (hrange r (List.mem_cons_of_mem _ (firstRecords_subset _ hr)))
        (hrange record List.mem_cons_self)
    rw [List.map_cons, firstRecords, List.map_cons, List.mem_cons, SignalRecord.entry,
      InsertionMap.lookupEntry]
    rcases eq_or_ne record.fieldText key with rfl | hkey
    · rw [if_pos rfl, Option.some.injEq]
      constructor
      · rintro rfl
        exact Or.inl rfl
      · rintro (h | h)
        · exact (Prod.mk.inj h).2.symm
        · obtain ⟨r, hr, heq⟩ := List.mem_map.mp h
          obtain ⟨hmem, hne⟩ := List.mem_filter.mp hr
          exact absurd ((hinj r hmem).mp (Prod.mk.inj heq).1) (of_decide_eq_true hne)
    · rw [if_neg hkey, ih fun r hr => hrange r (List.mem_cons_of_mem _ hr)]
      constructor
      · intro h
        obtain ⟨r, hr, heq⟩ := List.mem_map.mp h
        refine Or.inr (List.mem_map.mpr ⟨r, List.mem_filter.mpr ⟨hr, decide_eq_true ?_⟩, heq⟩)
        intro hfield
        exact hkey (((hinj r hr).mpr hfield).symm.trans (Prod.mk.inj heq).1)
      · rintro (h | h)
        · exact absurd (Prod.mk.inj h).1.symm hkey
        · obtain ⟨r, hr, heq⟩ := List.mem_map.mp h
          exact List.mem_map.mpr ⟨r, (List.mem_filter.mp hr).1, heq⟩

theorem nodup_firstEntries (hrange : ∀ r ∈ records, IsoTime.InRange r.at_) :
    ((firstRecords records).map (SignalRecord.entry texts)).Nodup := by
  refine List.pairwise_map.mpr ((pairwise_firstRecords records).imp_of_mem ?_)
  intro r r' hr hr' hne heq
  exact hne ((fieldText_inj (hrange r (firstRecords_subset _ hr))
    (hrange r' (firstRecords_subset _ hr'))).mp (Prod.mk.inj heq).1)

/-- **Nothing of them is dropped**: the hash holds the first records. -/
theorem perm_entries_recordVerdictTexts
    (htimes : ∀ r ∈ records, IsoTime.ClockTime r.at_ ∧ now - recordTtlDays * dayMs ≤ r.at_)
    (hcap : records.length ≤ maxRecordsPerChat) :
    (recordVerdictTexts texts luaSort .empty records now).entries.Perm
      ((firstRecords records).map (SignalRecord.entry texts)) := by
  have hrange : ∀ r ∈ records, IsoTime.InRange r.at_ := fun r hr => (htimes r hr).1.2
  rcases eq_or_ne records [] with rfl | hne
  · exact List.Perm.refl _
  have hkeeps := storeTexts_keeps luaSort .empty (now - recordTtlDays * dayMs) maxRecordsPerChat
    (records.map (SignalRecord.entry texts))
  have hafter : recordVerdictTexts texts luaSort .empty records now =
      storeTexts luaSort .empty (now - recordTtlDays * dayMs) maxRecordsPerChat
        (records.map (SignalRecord.entry texts)) := if_neg hne
  rw [hafter]
  set after := storeTexts luaSort .empty (now - recordTtlDays * dayMs) maxRecordsPerChat
    (records.map (SignalRecord.entry texts))
  have hvalue : ∀ key value, valueOf .empty (records.map (SignalRecord.entry texts)) key =
      some value ↔ (key, value) ∈ (firstRecords records).map (SignalRecord.entry texts) :=
    fun key value => lookupEntry_entries hrange
  have hnodup : after.entries.Nodup := List.Nodup.of_map _ after.nodup
  have hsub : after.entries ⊆ (firstRecords records).map (SignalRecord.entry texts) := fun e he =>
    (hvalue e.1 e.2).mp (hkeeps.first e.1 e.2 (InsertionMap.mem_entries.mp he))
  refine (List.perm_ext_iff_of_nodup hnodup (nodup_firstEntries hrange)).mpr fun e =>
    ⟨fun he => hsub he, fun he => ?_⟩
  by_contra hgone
  obtain ⟨r, hr, rfl⟩ := List.mem_map.mp he
  have htime := htimes r (firstRecords_subset _ hr)
  have hnone : after.get? r.fieldText = none := by
    cases hget : after.get? r.fieldText with
    | none => rfl
    | some value =>
      have hsame := (hkeeps.first _ _ hget).symm.trans ((hvalue _ _).mpr he)
      rw [Option.some.inj hsame, ← InsertionMap.mem_entries] at hget
      exact absurd hget hgone
  have hrecent : now - recordTtlDays * dayMs ≤ textTime (r.valueText texts) := by
    rw [textTime_valueText htime.1]
    exact htime.2
  have hfull := hkeeps.dropped _ _ ((hvalue _ _).mpr he) hrecent hnone
  have hless : after.entries ⊆ ((firstRecords records).map (SignalRecord.entry texts)).erase
      (r.entry texts) := by
    intro x hx
    refine (List.mem_erase_of_ne ?_).mpr (hsub hx)
    rintro rfl
    exact hgone hx
  have hlength := (hnodup.subperm hless).length_le
  rw [List.length_erase_of_mem he, List.length_map] at hlength
  have hpos := List.length_pos_of_mem he
  have hfilter := List.length_filter_le
    (fun e => decide (textTime (r.valueText texts) ≤ textTime e.2)) after.entries
  have hfirst := length_firstRecords_le records
  rw [List.length_map] at hpos
  omega

/-- **What is listed of the first records.** -/
theorem perm_listRecordTexts
    (htimes : ∀ r ∈ records, IsoTime.ClockTime r.at_ ∧ now - recordTtlDays * dayMs ≤ r.at_)
    (hcap : records.length ≤ maxRecordsPerChat) {raw : List (String × String)}
    (hraw : raw.Perm (recordVerdictTexts texts luaSort .empty records now).entries)
    (sinceMs : ℤ) :
    (listRecordTexts texts raw sinceMs).Perm
      (((firstRecords records).filterMap fun r => readRecord texts (r.entry texts)).filter
        fun r => (sinceMs : ℚ) ≤ r.at_) := by
  refine (List.perm_insertionSort _ _).trans (List.Perm.filter _ ?_)
  have hperm := (hraw.trans (perm_entries_recordVerdictTexts htimes hcap)).filterMap
    (readRecord texts)
  rwa [List.filterMap_map] at hperm

/-- A record without a colon in its symbol is listed if it is new enough; no record that is too
old is. -/
theorem filter_readRecord {record : SignalRecord} (hprice : record.priceUsd.isFinite = true)
    {sinceMs : ℤ} (hcolon : sinceMs ≤ record.at_ → ':' ∉ record.symbol.toList) :
    ((readRecord texts (record.entry texts)).filter fun r => (sinceMs : ℚ) ≤ r.at_) =
      if sinceMs ≤ record.at_ then some record.listed else none := by
  by_cases hsince : sinceMs ≤ record.at_
  · have hnew : (sinceMs : ℚ) ≤ record.listed.at_ := Int.cast_le.mpr hsince
    rw [if_pos hsince, SignalRecord.entry, readRecord_texts hprice (hcolon hsince),
      Option.filter_some, if_pos (decide_eq_true hnew)]
  · rw [if_neg hsince, Option.filter_eq_none_iff]
    intro listed hlisted hnew
    have htime := at_of_readRecord hprice hlisted
    rw [htime] at hnew
    exact hsince (Int.cast_le.mp (of_decide_eq_true hnew))

/-- **The records come back**, the first of each coin, verdict and day that are new enough,
exactly when none of these has a symbol with a colon. -/
theorem listRecordTexts_perm_iff
    (htimes : ∀ r ∈ records, IsoTime.ClockTime r.at_ ∧ now - recordTtlDays * dayMs ≤ r.at_)
    (hprices : ∀ r ∈ records, isPrice r.priceUsd = true)
    (hcap : records.length ≤ maxRecordsPerChat) {raw : List (String × String)}
    (hraw : raw.Perm (recordVerdictTexts texts luaSort .empty records now).entries)
    (sinceMs : ℤ) :
    ((listRecordTexts texts raw sinceMs).Perm
          ((expectedRecords records sinceMs).map SignalRecord.listed) ∧
        (listRecordTexts texts raw sinceMs).Pairwise fun r r' => r.at_ ≤ r'.at_) ↔
      ∀ r ∈ expectedRecords records sinceMs, ':' ∉ r.symbol.toList := by
  have hread := perm_listRecordTexts htimes hcap hraw sinceMs
  constructor
  · rintro ⟨hperm, -⟩ r hr
    have hmem := hread.mem_iff.mp (hperm.mem_iff.mpr (List.mem_map_of_mem hr))
    obtain ⟨first, -, hlisted⟩ := List.mem_filterMap.mp (List.mem_filter.mp hmem).1
    exact colon_notMem_of_readRecord hlisted
  · intro hcolon
    refine ⟨?_, sorted_sortOn _⟩
    have hsame : ((firstRecords records).filterMap fun r => readRecord texts (r.entry texts)).filter
        (fun r => (sinceMs : ℚ) ≤ r.at_) =
          (expectedRecords records sinceMs).map SignalRecord.listed := by
      rw [List.filter_filterMap, expectedRecords, ← List.filterMap_eq_map, List.filterMap_filter]
      refine List.filterMap_congr fun r hr => ?_
      have hprice := hprices r (firstRecords_subset _ hr)
      rw [isPrice, Bool.and_eq_true] at hprice
      rw [filter_readRecord hprice.1 fun hsince =>
        hcolon r (List.mem_filter.mpr ⟨hr, decide_eq_true hsince⟩)]
      simp
    rw [← hsame]
    exact hread

end Stored

/-! ### The script on records and on texts -/

/-- **The texts of a hash of records**, in the same order. -/
def AsTexts (texts : NumberTexts) (hash : RecordHash) (hashTexts : RecordTexts) : Prop :=
  hashTexts.entries = hash.entries.map fun e => (recordOf e).entry texts

/-- Both sorts leave equal times in the same order. -/
def SortsAlike (texts : NumberTexts) (luaSort : LuaSort) (luaTextSort : LuaTextSort) : Prop :=
  ∀ entries : List (RecordField × RecordValue),
    (∀ e ∈ entries, IsoTime.ClockTime (recordOf e).at_) →
    luaTextSort.sort (entries.map fun e => (recordOf e).entry texts) =
      (luaSort.sort entries).map fun e => (recordOf e).entry texts

/-- A hash whose fields name the days of its records, which have a date. -/
def Dated (hash : RecordHash) : Prop :=
  ∀ e ∈ hash.entries, (recordOf e).field = e.1 ∧ IsoTime.ClockTime (recordOf e).at_

section AsTexts

variable {texts : NumberTexts} {hash : RecordHash} {hashTexts : RecordTexts}
  {luaSort : LuaSort} {luaTextSort : LuaTextSort} {records : List SignalRecord}
  {record : SignalRecord} {now : ℤ}

theorem sortsAlike_insertionSort (texts : NumberTexts) :
    SortsAlike texts insertionLuaSort insertionTextSort := by
  intro entries htimes
  refine (List.map_insertionSort _ _ _ entries fun e he e' he' => ?_).symm
  show e.2.at_ ≤ e'.2.at_ ↔ textTime ((recordOf e).valueText texts) ≤
    textTime ((recordOf e').valueText texts)
  rw [textTime_valueText (htimes e he),
    textTime_valueText (htimes e' he')]
  rfl

/-- A field is there if and only if its text is. -/
theorem AsTexts.isSome_iff (h : AsTexts texts hash hashTexts) (hdated : Dated hash)
    (hrecord : IsoTime.ClockTime record.at_) :
    (hashTexts.get? record.fieldText).isSome = true ↔ (hash.get? record.field).isSome = true := by
  rw [InsertionMap.isSome_get?_iff, InsertionMap.isSome_get?_iff, h, List.map_map]
  constructor
  · intro hmem
    obtain ⟨e, he, htext⟩ := List.mem_map.mp hmem
    obtain ⟨hfield, htime⟩ := hdated e he
    have hsame := (fieldText_inj htime.2 hrecord.2).mp htext
    exact List.mem_map.mpr ⟨e, he, hfield.symm.trans hsame⟩
  · intro hmem
    obtain ⟨e, he, hfield⟩ := List.mem_map.mp hmem
    refine List.mem_map.mpr ⟨e, he, ?_⟩
    exact (fieldText_inj (hdated e he).2.2 hrecord.2).mpr
      ((hdated e he).1.trans hfield)

/-- `HSETNX` of a record. -/
theorem AsTexts.setIfAbsent (h : AsTexts texts hash hashTexts) (hdated : Dated hash)
    (hrecord : IsoTime.ClockTime record.at_) :
    AsTexts texts (setIfAbsent hash record) (setTextIfAbsent hashTexts (record.entry texts)) ∧
      Dated (setIfAbsent hash record) := by
  have hiff := h.isSome_iff hdated hrecord
  rw [Signals.setIfAbsent, setTextIfAbsent, SignalRecord.entry]
  cases hget : hash.get? record.field with
  | some value =>
    rw [hget] at hiff
    rw [if_pos (hiff.mpr rfl), if_pos (show (some value).isSome = true from rfl)]
    exact ⟨h, hdated⟩
  | none =>
    have hnone : hashTexts.get? record.fieldText = none := by
      rw [hget] at hiff
      exact Option.not_isSome_iff_eq_none.mp fun hsome => absurd (hiff.mp hsome) (by simp)
    rw [hnone, if_neg (by simp), if_neg (by simp)]
    constructor
    · rw [AsTexts, InsertionMap.entries_set_of_get?_eq_none hnone,
        InsertionMap.entries_set_of_get?_eq_none hget, h, List.map_append]
      rfl
    · intro e he
      rw [InsertionMap.entries_set_of_get?_eq_none hget, List.mem_append] at he
      rcases he with he | he
      · exact hdated e he
      · rw [List.mem_singleton.mp he]
        exact ⟨rfl, hrecord⟩

theorem AsTexts.foldl_setIfAbsent (h : AsTexts texts hash hashTexts) (hdated : Dated hash)
    (hrecords : ∀ r ∈ records, IsoTime.ClockTime r.at_) :
    AsTexts texts (records.foldl Signals.setIfAbsent hash)
        ((records.map (SignalRecord.entry texts)).foldl setTextIfAbsent hashTexts) ∧
      Dated (records.foldl Signals.setIfAbsent hash) := by
  induction records generalizing hash hashTexts with
  | nil => exact ⟨h, hdated⟩
  | cons record records ih =>
    obtain ⟨hrecord, hrecords⟩ := List.forall_mem_cons.mp hrecords
    obtain ⟨hnext, hdated'⟩ := h.setIfAbsent hdated hrecord
    exact ih hnext hdated' hrecords

/-- **The texts the script drops** are those of the records it drops. -/
theorem droppedTexts_map {sorted : List (RecordField × RecordValue)} {cutoffMs : ℤ} {max : ℕ}
    (htimes : ∀ e ∈ sorted, IsoTime.ClockTime (recordOf e).at_) :
    droppedTexts cutoffMs ((sorted.length : ℤ) - max) 1
        (sorted.map fun e => (recordOf e).entry texts) =
      (sorted.take (sorted.length - max) ++ (sorted.drop (sorted.length - max)).filter
        fun e => e.2.at_ < cutoffMs).map fun e => (recordOf e).fieldText := by
  have hcount : ((sorted.length : ℤ) - max - 1 + 1).toNat = sorted.length - max := by omega
  rw [droppedTexts, hcount, ← List.map_take, ← List.map_drop, List.filter_map, ← List.map_append,
    List.map_map]
  refine congrArg _ (congrArg _ (List.filter_congr fun e he => ?_))
  refine decide_eq_decide.mpr ?_
  show textTime ((recordOf e).valueText texts) < cutoffMs ↔ _
  rw [textTime_valueText (htimes e (List.mem_of_mem_drop he))]
  rfl

/-- **`recordVerdicts` on texts is `recordVerdicts` on records**, as long as all of them have
a date. -/
theorem asTexts_recordVerdicts (hsort : SortsAlike texts luaSort luaTextSort)
    (h : AsTexts texts hash hashTexts) (hdated : Dated hash)
    (hrecords : ∀ r ∈ records, IsoTime.ClockTime r.at_) (now : ℤ) :
    AsTexts texts (recordVerdicts luaSort hash records now)
      (recordVerdictTexts texts luaTextSort hashTexts records now) := by
  rw [recordVerdicts, recordVerdictTexts]
  split_ifs with hempty
  · exact h
  obtain ⟨hstored, hdated'⟩ := h.foldl_setIfAbsent hdated hrecords
  set stored := records.foldl Signals.setIfAbsent hash with hstoredEq
  have htimes : ∀ e ∈ luaSort.sort stored.entries, IsoTime.ClockTime (recordOf e).at_ := fun e he =>
    (hdated' e ((luaSort.perm _).mem_iff.mp he)).2
  have hsorted := hsort stored.entries fun e he => (hdated' e he).2
  have hlength : (luaTextSort.sort
      ((records.map (SignalRecord.entry texts)).foldl setTextIfAbsent hashTexts).entries).length =
        (luaSort.sort stored.entries).length := by
    rw [hstored, hsorted, List.length_map]
  show (dropLoop _ _ 1 _ _).entries = (stored.entries.filter _).map _
  rw [dropLoop_eq]
  show List.filter _ _ = _
  have hfold : (records.map fun record => (record.fieldText, record.valueText texts)).foldl
      setTextIfAbsent hashTexts =
        (records.map (SignalRecord.entry texts)).foldl setTextIfAbsent hashTexts := rfl
  rw [hfold, hlength, hstored, hsorted, droppedTexts_map htimes, List.filter_map, droppedFields]
  have hsubset : ∀ e ∈ (luaSort.sort stored.entries).take
        ((luaSort.sort stored.entries).length - maxRecordsPerChat) ++
      ((luaSort.sort stored.entries).drop
        ((luaSort.sort stored.entries).length - maxRecordsPerChat)).filter
          (fun e => e.2.at_ < now - recordTtlDays * dayMs), e ∈ stored.entries := by
    intro e he
    refine (luaSort.perm _).mem_iff.mp ?_
    rcases List.mem_append.mp he with he | he
    · exact List.mem_of_mem_take he
    · exact List.mem_of_mem_drop (List.mem_of_mem_filter he)
  generalize (luaSort.sort stored.entries).take _ ++ _ = dropped at hsubset ⊢
  -- Fields are dropped together with their texts.
  refine congrArg (List.map _) (List.filter_congr fun e he => ?_)
  have hiff : (recordOf e).fieldText ∈ dropped.map (fun e => (recordOf e).fieldText) ↔
      e.1 ∈ dropped.map Prod.fst := by
    obtain ⟨hfield, htime⟩ := hdated' e he
    constructor
    · intro hmem
      obtain ⟨e', he', htext⟩ := List.mem_map.mp hmem
      obtain ⟨hfield', htime'⟩ := hdated' e' (hsubset e' he')
      have hsame := (fieldText_inj htime'.2 htime.2).mp htext
      exact List.mem_map.mpr ⟨e', he', hfield'.symm.trans (hsame.trans hfield)⟩
    · intro hmem
      obtain ⟨e', he', heq⟩ := List.mem_map.mp hmem
      obtain ⟨hfield', htime'⟩ := hdated' e' (hsubset e' he')
      refine List.mem_map.mpr ⟨e', he', ?_⟩
      exact (fieldText_inj htime'.2 htime.2).mpr
        (hfield'.trans (heq.trans hfield.symm))
  show decide (¬_) = decide (¬_)
  exact decide_eq_decide.mpr (not_congr hiff)

end AsTexts
/-! ### A symbol with a colon -/

/-- The verdict on `btc` twice, and ten days before it one on `a:b`. -/
def verdictsOfDays : List SignalRecord :=
  repeatedVerdict ++ [{ verdictOn "a:b" with at_ := 1791375600000 - 10 * dayMs }]

/-- Of a week, the first record of `btc` is listed. -/
theorem listRecordTexts_perm_iff_btc :
    (((listRecordTexts fractionTexts (recordVerdictTexts fractionTexts insertionTextSort .empty
              verdictsOfDays 1791375600000).entries (1791375600000 - 7 * dayMs)).Perm
            ((expectedRecords verdictsOfDays (1791375600000 - 7 * dayMs)).map
              SignalRecord.listed) ∧
          (listRecordTexts fractionTexts (recordVerdictTexts fractionTexts insertionTextSort .empty
            verdictsOfDays 1791375600000).entries (1791375600000 - 7 * dayMs)).Pairwise
              fun r r' => r.at_ ≤ r'.at_) ↔
        ∀ r ∈ expectedRecords verdictsOfDays (1791375600000 - 7 * dayMs), ':' ∉ r.symbol.toList) ∧
      expectedRecords verdictsOfDays (1791375600000 - 7 * dayMs) = [verdictOn "btc"] := by
  refine ⟨listRecordTexts_perm_iff ?_ ?_ (by decide) (List.Perm.refl _) _, by decide +kernel⟩
  · decide +kernel
  · decide +kernel

/-- **`/dangky a:b` puts a symbol with a colon on the watchlist**, and a verdict on it is lost. -/
theorem listRecordTexts_colon :
    (Commands.parse Commands.asciiTables "/dangky a:b" = .subscribe ["a:b"] ∧
        Subscribers.normalizeWatchlist Prices.asciiCasing ["a:b"] = .ok ["a:b"]) ∧
      ¬((listRecordTexts fractionTexts (recordVerdictTexts fractionTexts insertionTextSort .empty
            [verdictOn "a:b"] 1791375600000).entries 0).Perm
          ((expectedRecords [verdictOn "a:b"] 0).map SignalRecord.listed)) := by
  refine ⟨⟨by decide +kernel, by decide +kernel⟩, fun hperm => ?_⟩
  have hlength := hperm.length_eq
  have hlost : (listRecordTexts fractionTexts (recordVerdictTexts fractionTexts insertionTextSort
      .empty [verdictOn "a:b"] 1791375600000).entries 0).length = 0 := by
    decide +kernel
  rw [hlost] at hlength
  cases hlength

end Signals

end CryptoZaloBot
