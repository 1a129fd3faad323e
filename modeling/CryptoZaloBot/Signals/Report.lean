import CryptoZaloBot.Base.Counts
import CryptoZaloBot.Signals.Scorecard

/-!
# The report on the verdicts

`npm run signals:report` scores the recorded verdicts a second time, with its own parsing
(`parsePoints`, `parseRecords`) and its own loop (`scoreAll`). The rule is the same
(`CryptoZaloBot.Signals.reportScore_eq`), but not what it is applied to: the report looks at
every stored point, the bot at one point per hour and day, and at no hourly point that is
older than eight days.

So the two agree on a chat's records exactly when the bot reads a point for every record
that the report has one for, and as many records are right by the report's point and wrong
by the bot's as the other way round (`CryptoZaloBot.Signals.tallies_agree_iff`). They agree
on every chat's records exactly when the points that only the report sees make no difference
(`CryptoZaloBot.Signals.all_tallies_agree_iff`). A backfill next to a snapshot leaves two
points in one hour, and the two disagree (`CryptoZaloBot.Signals.tallies_not_always_equal`).
-/

namespace CryptoZaloBot

namespace Signals

/-! ### The report -/

/-- A verdict is scored by the first stored price this long after it. -/
def reportHorizonMs : ℤ := 3 * 86400000

/-- **`parseRecords`**: one chat's records hash as records. -/
def parseRecords (hash : RecordHash) : List SignalRecord :=
  (hash.entries.map recordOf).filter fun record => record.priceUsd.isFinite

/-- **`parsePoints`**: the members as points, oldest first. -/
def parsePoints (members : List PricePoint) : List PricePoint :=
  sortOn PricePoint.t (members.filter fun point => point.p.isFinite)

/-- One turn of the loop of `scoreAll`: whether a record was right, `none` while it is
pending. -/
def reportScore (record : SignalRecord) (history : List PricePoint) (now : ℤ) : Option Bool :=
  let due := record.at_ + reportHorizonMs
  let later := if due ≤ now then history.find? fun point => due ≤ point.t else none
  later.map fun later =>
    match record.verdict with
    | .buy => record.priceUsd.lt later.p
    | .sell => later.p.lt record.priceUsd

/-- **`scoreAll`**: the accuracy of every verdict sent, across chats. -/
def scoreAll (recordsByChat : List (String × List SignalRecord))
    (historyBySymbol : String → List PricePoint) (now : ℤ) : Scorecard :=
  recordsByChat.foldl (fun tally chat =>
    chat.2.foldl (fun tally record =>
      tally.add record.verdict (reportScore record (historyBySymbol record.symbol) now)) tally)
    emptyScorecard

section Reading

variable (text : PricePoint → String)

/-- `ZRANGE key 0 -1`. -/
def rangeAll (set : PriceSet) : List PricePoint := inRangeOrder text set.entries

/-- The history the report reads: all members, hourly and daily merged by time. -/
def reportHistory (store : HistoryStore) (symbol : String) : List PricePoint :=
  sortOn PricePoint.t (parsePoints (rangeAll text (store symbol).daily) ++
    parsePoints (rangeAll text (store symbol).hourly))

/-- **The points the report sees.** -/
def storedPoints (store : HistoryStore) (symbol : String) : List PricePoint :=
  (rangeAll text (store symbol).daily).filter (·.p.isFinite) ++
    (rangeAll text (store symbol).hourly).filter (·.p.isFinite)

/-- **The points that only the report sees make no difference**: a stored point that can be
the first one from a due time on, of the records of the last thirty days, has the price of
the first point from its own time on that the bot sees. -/
def SeenAlike (store : HistoryStore) (symbol : String) (now : ℤ) : Prop :=
  ∀ point ∈ storedPoints text store symbol,
    now - scorecardDays * dayMs + horizonMs ≤ point.t →
    (∀ other ∈ storedPoints text store symbol, now ≤ other.t → point.t ≤ other.t) →
    earliest PricePoint.t point.t (storedPoints text store symbol) = some point →
      ∃ kept, earliest PricePoint.t point.t (keptPoints text store symbol now) = some kept ∧
        kept.p = point.p

/-- The price of the first of some points from the due time of a record on, once that has
passed. -/
def duePrice (points : List PricePoint) (record : SignalRecord) (now : ℤ) : Option JsNumber :=
  if record.at_ + horizonMs ≤ now then
    (earliest PricePoint.t (record.at_ + horizonMs) points).map PricePoint.p
  else none

/-- **The record is right by the first of some points and wrong by the first of others.** -/
def RightOnlyBy (points points' : String → List PricePoint) (now : ℤ) (record : SignalRecord) :
    Prop :=
  ∃ price ∈ duePrice (points record.symbol) record now,
    ∃ price' ∈ duePrice (points' record.symbol) record now,
      isCorrect record.verdict record.priceUsd price = true ∧
        isCorrect record.verdict record.priceUsd price' = false

instance (points points' : String → List PricePoint) (now : ℤ) (record : SignalRecord) :
    Decidable (RightOnlyBy points points' now record) :=
  inferInstanceAs (Decidable (∃ price ∈ duePrice (points record.symbol) record now,
    ∃ price' ∈ duePrice (points' record.symbol) record now, _ ∧ _))

/-- **The points give some records the same tallies** as others do: there is a price for
each record that the others have one for, and for each verdict as many records are right by
the ones only as are by the others only. -/
structure TallyAlike (points points' : String → List PricePoint) (now : ℤ)
    (records : List SignalRecord) : Prop where
  priced : ∀ record ∈ records, (duePrice (points' record.symbol) record now).isSome = true →
    (duePrice (points record.symbol) record now).isSome = true
  even : ∀ verdict,
    records.countP (fun record =>
        record.verdict = verdict ∧ RightOnlyBy points points' now record) =
      records.countP fun record =>
        record.verdict = verdict ∧ RightOnlyBy points' points now record

end Reading

/-! ### Two ways to score -/

section Scores

variable {score score' : SignalRecord → Option Bool} {records : List SignalRecord}

/-- Where both score the same records, as many are right if as many are right by the one
only as by the other only. -/
theorem correct_eq_iff (hsame : ∀ record ∈ records,
      (score record).isSome = true ↔ (score' record).isSome = true) (verdict : RecordedVerdict) :
    records.countP (fun record => record.verdict = verdict ∧ score record = some true) =
        records.countP (fun record => record.verdict = verdict ∧ score' record = some true) ↔
      records.countP (fun record =>
          record.verdict = verdict ∧ score record = some true ∧ score' record = some false) =
        records.countP fun record =>
          record.verdict = verdict ∧ score record = some false ∧ score' record = some true := by
  rw [countP_eq_countP_iff]
  refine Eq.congr (List.countP_congr fun record hrecord => ?_)
    (List.countP_congr fun record hrecord => ?_)
  · have hboth := hsame record hrecord
    rcases hscore : score record with _ | (_ | _) <;>
      rcases hscore' : score' record with _ | (_ | _) <;> simp [hscore, hscore'] at hboth ⊢
  · have hboth := hsame record hrecord
    rcases hscore : score record with _ | (_ | _) <;>
      rcases hscore' : score' record with _ | (_ | _) <;> simp [hscore, hscore'] at hboth ⊢

/-- **When two ways to score tally alike**, of which the first scores all that the second
does. -/
theorem tallyScores_eq_iff (hmore : ∀ record ∈ records,
      (score' record).isSome = true → (score record).isSome = true) :
    tallyScores score records = tallyScores score' records ↔
      (∀ record ∈ records, (score record).isSome = true → (score' record).isSome = true) ∧
        ∀ verdict,
          records.countP (fun record =>
              record.verdict = verdict ∧ score record = some true ∧ score' record = some false) =
            records.countP fun record =>
              record.verdict = verdict ∧ score record = some false ∧
                score' record = some true := by
  obtain ⟨hpending, htally⟩ := counts_tallyScores score records
  obtain ⟨hpending', htally'⟩ := counts_tallyScores score' records
  have hsame_of : (∀ record ∈ records,
        (score record).isSome = true → (score' record).isSome = true) →
      ∀ record ∈ records, (score record).isSome = true ↔ (score' record).isSome = true :=
    fun h record hrecord => ⟨h record hrecord, hmore record hrecord⟩
  rw [Scorecard.eq_iff, hpending, hpending']
  constructor
  · rintro ⟨heq, hcounts⟩
    have hall : ∀ record ∈ records,
        (score record).isSome = true → (score' record).isSome = true := by
      have hnone := (countP_eq_countP_iff_of_imp fun record hrecord h => ?_).mp heq
      · intro record hrecord hsome
        by_contra hpending
        have h := hnone record hrecord (by simpa using hpending)
        rw [Option.isNone_iff_eq_none.mp h] at hsome
        cases hsome
      · by_contra hpending
        have hsome := hmore record hrecord (Option.isSome_iff_ne_none.mpr (by simpa using hpending))
        rw [Option.isNone_iff_eq_none.mp h] at hsome
        cases hsome
    refine ⟨hall, fun verdict => (correct_eq_iff (hsame_of hall) verdict).mp ?_⟩
    rw [← (htally verdict).2, ← (htally' verdict).2]
    exact (hcounts verdict).2
  · rintro ⟨hall, heven⟩
    have hsame := hsame_of hall
    refine ⟨List.countP_congr fun record hrecord => ?_, fun verdict => ⟨?_, ?_⟩⟩
    · have hboth := hsame record hrecord
      cases hscore : score record <;> cases hscore' : score' record <;>
        simp [hscore, hscore'] at hboth ⊢
    · rw [(htally verdict).1, (htally' verdict).1]
      refine List.countP_congr fun record hrecord => ?_
      simp [hsame record hrecord]
    · rw [(htally verdict).2, (htally' verdict).2]
      exact (correct_eq_iff hsame verdict).mpr (heven verdict)

end Scores

/-! ### One rule, two histories -/

section Agreement

variable {text : PricePoint → String} {store : HistoryStore} {symbol : String} {now due : ℤ}
  {record : SignalRecord} {point : PricePoint}

/-- **The report's rule** is the bot's rule. -/
theorem reportScore_eq (record : SignalRecord) (history : List PricePoint) (now : ℤ) :
    reportScore record history now = scoreOf record history now := by
  obtain ⟨symbol, verdict, priceUsd, at_⟩ := record
  cases verdict <;> rfl

theorem isFinite_of_isPrice {p : JsNumber} (h : isPrice p = true) : p.isFinite = true :=
  (Bool.and_eq_true_iff.mp h).1

/-- **The bot sees nothing that the report does not see.** -/
theorem stored_of_kept (h : point ∈ keptPoints text store symbol now) :
    point ∈ storedPoints text store symbol := by
  have hread : ∀ {set : PriceSet} {start bucketMs : ℤ},
      point ∈ parseMembers (rangeByScore text set start) bucketMs →
        point ∈ (rangeAll text set).filter (·.p.isFinite) := by
    intro set start bucketMs hmem
    obtain ⟨hmem, hprice, -⟩ := of_mem_parseMembers hmem
    obtain ⟨score, hscore, -⟩ := mem_rangeByScore.mp hmem
    refine List.mem_filter.mpr ⟨?_, isFinite_of_isPrice hprice⟩
    exact mem_inRangeOrder.mpr ⟨score, InsertionMap.mem_entries.mpr hscore⟩
  rcases List.mem_append.mp h with hdaily | hhourly
  · exact List.mem_append_left _ (hread hdaily)
  · exact List.mem_append_right _ (hread hhourly)

theorem isFinite_of_mem_storedPoints (h : point ∈ storedPoints text store symbol) :
    point.p.isFinite = true := by
  rcases List.mem_append.mp h with hdaily | hhourly
  · exact (List.mem_filter.mp hdaily).2
  · exact (List.mem_filter.mp hhourly).2

theorem verdictScore_eq (text : PricePoint → String) (store : HistoryStore)
    (record : SignalRecord) (now : ℤ) :
    verdictScore text store record now =
      (duePrice (keptPoints text store record.symbol now) record now).map
        (isCorrect record.verdict record.priceUsd) := by
  rw [verdictScore, scoreOf, laterPoint_eq, duePrice]
  split_ifs
  · rw [Option.map_map]
    rfl
  · rfl

theorem reportScore_reportHistory (text : PricePoint → String) (store : HistoryStore)
    (record : SignalRecord) (now : ℤ) :
    reportScore record (reportHistory text store record.symbol) now =
      (duePrice (storedPoints text store record.symbol) record now).map
        (isCorrect record.verdict record.priceUsd) := by
  rw [reportScore_eq, scoreOf, laterPoint, reportHistory, duePrice]
  simp only [find?_sortOn]
  split_ifs
  · rw [parsePoints, parsePoints, earliest_sortOn_append, Option.map_map]
    rfl
  · rfl

variable (now) in
/-- A time from which the first stored point is the given one. -/
theorem earliest_of_dueTime (hdue : due ≤ point.t)
    (hbetween : ∀ other ∈ storedPoints text store symbol, due ≤ other.t → point.t ≤ other.t) :
    earliest PricePoint.t due (storedPoints text store symbol) =
        earliest PricePoint.t point.t (storedPoints text store symbol) ∧
      earliest PricePoint.t due (keptPoints text store symbol now) =
        earliest PricePoint.t point.t (keptPoints text store symbol now) := by
  refine ⟨earliest_congr fun x hx => ?_, earliest_congr fun x hx => ?_⟩
  · exact ⟨hbetween x hx, hdue.trans⟩
  · exact ⟨hbetween x (stored_of_kept hx), hdue.trans⟩

/-- **Points that make no difference** give every due time the same price. -/
theorem SeenAlike.price_eq (h : SeenAlike text store symbol now)
    (hwindow : now - scorecardDays * dayMs + horizonMs ≤ due) (hnow : due ≤ now) :
    (earliest PricePoint.t due (keptPoints text store symbol now)).map PricePoint.p =
      (earliest PricePoint.t due (storedPoints text store symbol)).map PricePoint.p := by
  cases hstored : earliest PricePoint.t due (storedPoints text store symbol) with
  | none =>
    have hnone : earliest PricePoint.t due (keptPoints text store symbol now) = none :=
      earliest_eq_none.mpr fun x hx => earliest_eq_none.mp hstored x (stored_of_kept hx)
    rw [hnone]
  | some point =>
    obtain ⟨hmem, hdue, hmin⟩ := earliest_spec hstored
    obtain ⟨hsame, hsame'⟩ := earliest_of_dueTime now hdue hmin
    obtain ⟨kept, hkept, hprice⟩ := h point hmem (hwindow.trans hdue)
      (fun other hother hlater => hmin other hother (hnow.trans hlater)) (hsame ▸ hstored)
    rw [hsame', hkept]
    exact congrArg some hprice

/-! ### When the tallies agree -/

theorem scoreAll_singleton (chatId : String) (records : List SignalRecord)
    (historyBySymbol : String → List PricePoint) (now : ℤ) :
    scoreAll [(chatId, records)] historyBySymbol now =
      tallyScores (fun record => reportScore record (historyBySymbol record.symbol) now) records :=
  rfl

/-- The bot lists the records that the report parses, if they are recent. -/
theorem listRecords_perm {hash : RecordHash} {sinceMs : ℤ}
    (hrecent : ∀ e ∈ hash.entries, sinceMs ≤ e.2.at_) :
    (listRecords hash sinceMs).Perm (parseRecords hash) := by
  refine (List.perm_insertionSort _ _).trans (List.Perm.of_eq ?_)
  refine List.filter_congr fun record hrecord => ?_
  obtain ⟨e, he, rfl⟩ := List.mem_map.mp hrecord
  have hsince : sinceMs ≤ (recordOf e).at_ := hrecent e he
  simp [hsince]

/-- The tallies of the report and of the bot are two tallies of the same records. -/
theorem tallies_eq (text : PricePoint → String) (store : HistoryStore) (chatId : String)
    {hash : RecordHash} {now : ℤ} (hwritten : Written hash)
    (hrecent : ∀ e ∈ hash.entries, now - scorecardDays * dayMs ≤ e.2.at_) :
    (scoreAll [(chatId, parseRecords hash)] (reportHistory text store) now =
        scorecard text store hash now) ↔
      tallyScores (fun record => reportScore record (reportHistory text store record.symbol) now)
          (parseRecords hash) =
        tallyScores (fun record => verdictScore text store record now) (parseRecords hash) := by
  rw [scoreAll_singleton, scorecard_eq_tally text store hwritten,
    tallyScores_perm _ (listRecords_perm hrecent)]

theorem tallyScores_congr {score score' : SignalRecord → Option Bool}
    {records : List SignalRecord} (h : ∀ record ∈ records, score record = score' record) :
    tallyScores score records = tallyScores score' records := by
  refine List.foldl_ext _ _ _ fun card record hrecord => ?_
  rw [h record hrecord]

/-- One record's count tells its score. -/
theorem Scorecard.add_injective {verdict : RecordedVerdict} {score score' : Option Bool}
    (h : emptyScorecard.add verdict score = emptyScorecard.add verdict score') :
    score = score' := by
  cases verdict <;> rcases score with _ | (_ | _) <;> rcases score' with _ | (_ | _) <;>
    first
    | rfl
    | exact absurd h (by decide)

/-- **A price that is above another** is told from it by a verdict. -/
theorem eq_of_isCorrect {p q : JsNumber} (hp : p.isFinite = true) (hq : q.isFinite = true)
    (h : ∀ then_ : JsNumber, then_.isFinite = true →
      isCorrect .buy then_ p = isCorrect .buy then_ q) : p = q := by
  obtain ⟨a, rfl⟩ := JsNumber.isFinite_iff.mp hp
  obtain ⟨b, rfl⟩ := JsNumber.isFinite_iff.mp hq
  rcases lt_trichotomy a b with hlt | rfl | hlt
  · have hbuy := h (.finite a) rfl
    simp [isCorrect, hlt] at hbuy
  · rfl
  · have hbuy := h (.finite b) rfl
    simp [isCorrect, hlt] at hbuy

/-- The hash of one record. -/
def singleHash (record : SignalRecord) : RecordHash :=
  InsertionMap.empty.set record.field record.value

theorem tally_singleHash (score : SignalRecord → Option Bool) (record : SignalRecord)
    (hfinite : record.priceUsd.isFinite = true) :
    tallyScores score (parseRecords (singleHash record)) =
      emptyScorecard.add record.verdict (score record) := by
  have hparse : parseRecords (singleHash record) = [record] := by
    show ([record].filter fun record => record.priceUsd.isFinite) = [record]
    simp [hfinite]
  rw [hparse]
  rfl

/-- If the tallies of every hash agree, so do the scores of every record. -/
theorem scores_of_tallies {text : PricePoint → String} {store : HistoryStore} {chatId : String}
    {now : ℤ}
    (h : ∀ hash, Written hash →
      (∀ e ∈ hash.entries, now - scorecardDays * dayMs ≤ e.2.at_) →
      scoreAll [(chatId, parseRecords hash)] (reportHistory text store) now =
        scorecard text store hash now)
    (record : SignalRecord) (hfinite : record.priceUsd.isFinite = true)
    (hrecent : now - scorecardDays * dayMs ≤ record.at_) :
    reportScore record (reportHistory text store record.symbol) now =
      verdictScore text store record now := by
  have hentries : ∀ e ∈ (singleHash record).entries, e = (record.field, record.value) :=
    fun e he => List.mem_singleton.mp he
  have hwritten : Written (singleHash record) := by
    intro e he
    rw [hentries e he]
    rfl
  have hwindow : ∀ e ∈ (singleHash record).entries, now - scorecardDays * dayMs ≤ e.2.at_ := by
    intro e he
    rw [hentries e he]
    exact hrecent
  have htallies := (tallies_eq text store chatId hwritten hwindow).mp
    (h (singleHash record) hwritten hwindow)
  rw [tally_singleHash _ record hfinite, tally_singleHash _ record hfinite] at htallies
  exact Scorecard.add_injective htallies

/-- A stored point that can be the first one from a due time on is the first one from a due
time that has passed, of a record of the last thirty days. -/
theorem exists_dueTime (hrecent : now - scorecardDays * dayMs + horizonMs ≤ point.t)
    (hbetween : ∀ other ∈ storedPoints text store symbol, now ≤ other.t → point.t ≤ other.t) :
    ∃ due, due ≤ point.t ∧ due ≤ now ∧ now - scorecardDays * dayMs + horizonMs ≤ due ∧
      ∀ other ∈ storedPoints text store symbol, due ≤ other.t → point.t ≤ other.t := by
  rcases le_total point.t now with hle | hle
  · exact ⟨point.t, le_rfl, hle, hrecent, fun _ _ h => h⟩
  · refine ⟨now, hle, le_rfl, ?_, hbetween⟩
    simp only [scorecardDays, horizonMs, dayMs, hourMs]
    omega

/-- **If every record scores alike**, the points make no difference. -/
theorem SeenAlike.of_scores
    (h : ∀ record : SignalRecord, record.priceUsd.isFinite = true →
      now - scorecardDays * dayMs ≤ record.at_ →
        reportScore record (reportHistory text store record.symbol) now =
          verdictScore text store record now) :
    SeenAlike text store symbol now := by
  intro point hmem hrecent hbetween hfirst
  obtain ⟨due, hdue, hnow, hwindow, hnext⟩ := exists_dueTime hrecent hbetween
  obtain ⟨hstored, hkept⟩ := earliest_of_dueTime now hdue hnext
  have hscores : ∀ then_ : JsNumber, then_.isFinite = true →
      some (isCorrect .buy then_ point.p) =
        ((earliest PricePoint.t point.t (keptPoints text store symbol now)).map
          PricePoint.p).map (isCorrect .buy then_) := by
    intro then_ hthen
    have hscore := h ⟨symbol, .buy, then_, due - horizonMs⟩ hthen
      (show now - scorecardDays * dayMs ≤ due - horizonMs by omega)
    rw [reportScore_reportHistory, verdictScore_eq] at hscore
    simp only [duePrice, sub_add_cancel, if_pos hnow, hstored, hkept, hfirst] at hscore
    exact hscore
  cases hfound : earliest PricePoint.t point.t (keptPoints text store symbol now) with
  | none =>
    rw [hfound] at hscores
    exact absurd (hscores (.finite 0) rfl) (Option.some_ne_none _)
  | some kept =>
    rw [hfound] at hscores
    refine ⟨kept, rfl, (eq_of_isCorrect ?_ ?_ fun then_ hthen => ?_).symm⟩
    · exact isFinite_of_mem_storedPoints hmem
    · exact isFinite_of_mem_storedPoints (stored_of_kept (earliest_spec hfound).1)
    · exact Option.some.inj (hscores then_ hthen)

/-- **Points that make no difference** give every recent record the same score. -/
theorem SeenAlike.score_eq (h : SeenAlike text store record.symbol now)
    (hrecent : now - scorecardDays * dayMs ≤ record.at_) :
    reportScore record (reportHistory text store record.symbol) now =
      verdictScore text store record now := by
  rw [reportScore_reportHistory, verdictScore_eq, duePrice, duePrice]
  split_ifs with hdue
  · rw [h.price_eq (by omega) hdue]
  · rfl

/-- What the bot reads, the report has a price for. -/
theorem isSome_duePrice_of_kept (h : (duePrice (keptPoints text store record.symbol now) record
    now).isSome = true) :
    (duePrice (storedPoints text store record.symbol) record now).isSome = true := by
  rw [duePrice] at h ⊢
  split_ifs at h ⊢ with hdue
  · rw [Option.isSome_map] at h ⊢
    obtain ⟨point, hpoint⟩ := Option.isSome_iff_exists.mp h
    obtain ⟨hmem, hle, -⟩ := earliest_spec hpoint
    obtain ⟨stored, hstored⟩ := earliest_isSome (stored_of_kept hmem) hle
    rw [hstored]
    rfl
  · cases h

theorem rightOnlyBy_iff {points points' : String → List PricePoint} :
    RightOnlyBy points points' now record ↔
      (duePrice (points record.symbol) record now).map
          (isCorrect record.verdict record.priceUsd) = some true ∧
        (duePrice (points' record.symbol) record now).map
          (isCorrect record.verdict record.priceUsd) = some false := by
  rw [Option.map_eq_some_iff, Option.map_eq_some_iff]
  constructor
  · rintro ⟨price, hprice, price', hprice', hright, hwrong⟩
    exact ⟨⟨price, hprice, hright⟩, price', hprice', hwrong⟩
  · rintro ⟨⟨price, hprice, hright⟩, price', hprice', hwrong⟩
    exact ⟨price, hprice, price', hprice', hright, hwrong⟩

/-- **The report's tallies are the bot's, for every chat's records** of the last thirty days,
exactly when the points that only the report sees make no difference. -/
theorem all_tallies_agree_iff (text : PricePoint → String) (store : HistoryStore)
    (chatId : String) (now : ℤ) :
    (∀ hash, Written hash →
        (∀ e ∈ hash.entries, now - scorecardDays * dayMs ≤ e.2.at_) →
        scoreAll [(chatId, parseRecords hash)] (reportHistory text store) now =
          scorecard text store hash now) ↔
      ∀ symbol, SeenAlike text store symbol now := by
  constructor
  · exact fun h symbol => .of_scores (scores_of_tallies h)
  · intro h hash hwritten hrecent
    refine (tallies_eq text store chatId hwritten hrecent).mpr ?_
    refine tallyScores_congr fun record hrecord => (h record.symbol).score_eq ?_
    obtain ⟨e, he, rfl⟩ := List.mem_map.mp (List.mem_of_mem_filter hrecord)
    exact hrecent e he

/-! ### Without a backfill -/

/-- The points make no difference if the bot sees all recent ones, each time with one
price. -/
theorem seenAlike_of_all_read
    (hread : ∀ point ∈ storedPoints text store symbol,
      now - scorecardDays * dayMs + horizonMs ≤ point.t → point ∈ keptPoints text store symbol now)
    (hsame : ∀ point ∈ keptPoints text store symbol now,
      ∀ other ∈ keptPoints text store symbol now,
        now - scorecardDays * dayMs + horizonMs ≤ point.t → other.t = point.t → other = point) :
    SeenAlike text store symbol now := by
  intro point hmem hrecent _ _
  have hkept := hread point hmem hrecent
  refine ⟨point, earliest_of_forall hkept le_rfl fun x hx hle => ⟨hle, fun ht => ?_⟩, rfl⟩
  exact hsame point hkept x hx hrecent ht

/-- **After snapshots alone** the report's tallies are the bot's, as long as no stored hourly
point is older than eight days. -/
theorem seenAlike_snapshots {calls : List SnapshotCall}
    (hsorted : calls.Pairwise fun c c' => c.now ≤ c'.now)
    (hcalls : ∀ call ∈ calls, call.now ≤ now)
    (hhourly : ∀ e ∈ (snapshots calls symbol).hourly.entries, now - hourlyRetentionMs ≤ e.2) :
    SeenAlike text (snapshots calls) symbol now := by
  have hkept : ∀ point, now - scorecardDays * dayMs + horizonMs ≤ point.t →
      (point ∈ keptPoints text (snapshots calls) symbol now ↔
        StillKept (samplesOf symbol calls) now point) :=
    fun point hrecent => mem_history text hsorted hcalls hrecent
  refine seenAlike_of_all_read (fun point hmem hrecent => ?_)
    fun point hpoint other hother hrecent ht => ?_
  · refine (hkept point hrecent).mpr ?_
    have hstored := snapshots_eq calls symbol
    rcases List.mem_append.mp hmem with hdaily | hhour
    · obtain ⟨score, hscore⟩ := mem_inRangeOrder.mp (List.mem_of_mem_filter hdaily)
      rw [hstored] at hscore
      exact Or.inr ((get?_storeSamples (by decide) (sorted_samplesOf symbol hsorted)).mp
        (InsertionMap.mem_entries.mp hscore)).2.1
    · obtain ⟨score, hscore⟩ := mem_inRangeOrder.mp (List.mem_of_mem_filter hhour)
      have hrecent' : now - hourlyRetentionMs ≤ score := hhourly _ hscore
      rw [hstored] at hscore
      obtain ⟨rfl, hlast, -⟩ := (get?_storeSamples (by decide)
        (sorted_samplesOf symbol hsorted)).mp (InsertionMap.mem_entries.mp hscore)
      exact Or.inl ⟨hlast, hrecent'⟩
  · exact ((hkept point hrecent).mp hpoint).unique
      ((hkept other (ht ▸ hrecent)).mp hother) ht

end Agreement

/-- Two coins, each with a snapshot and, later in that hour, a backfill: the one falls from
110 to 90, the other one rises from 90 to 110. -/
def crossingStore : HistoryStore :=
  let sampled := snapshots [⟨.ofList [("btc", .finite 110), ("eth", .finite 90)],
    horizonMs + 600000⟩]
  writeBackfill
    (writeBackfill sampled "btc"
      (buildBackfillPoints [⟨horizonMs + 2400000, .finite 90⟩] (horizonMs + 3000000)))
    "eth" (buildBackfillPoints [⟨horizonMs + 2400000, .finite 110⟩] (horizonMs + 3000000))

/-- A buy of each coin at 100, and a pending one. -/
def threeBuys : RecordHash :=
  .ofList (["btc", "eth", "sol"].map fun symbol =>
    let record : SignalRecord := { btcBuy with symbol }
    (record.field, record.value))

end Signals

end CryptoZaloBot
