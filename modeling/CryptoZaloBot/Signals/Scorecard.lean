import CryptoZaloBot.Signals.History
import CryptoZaloBot.Signals.Records

/-!
# The scorecard

`SignalsService.scorecard` scores the verdicts a chat was sent in the last thirty days: a
verdict is right or wrong by the first stored price at or after its due time, three days
later, and pending before. Nothing is remembered of a score: each look scores again, from
the histories as they are then.

A verdict that has been scored is scored at every later look
(`CryptoZaloBot.Signals.scored_again`), and the same way as long as the sample it was
scored by is kept. But a later sample of its hour replaces it, and after eight days only the
last sample of its UTC day is left: a right verdict can be wrong an hour later
(`CryptoZaloBot.Signals.score_not_final`).
-/

namespace CryptoZaloBot

namespace Signals

/-- A verdict is scored by the price this long after it was given. -/
def horizonMs : ℤ := 3 * dayMs

def scorecardDays : ℤ := 30

/-! ### Scores -/

structure VerdictTally where
  /-- Signals old enough to be scored. -/
  scored : ℕ
  correct : ℕ
  deriving DecidableEq

def emptyTally : VerdictTally := ⟨0, 0⟩

structure Scorecard where
  buy : VerdictTally
  sell : VerdictTally
  /-- Not old enough to be scored, or no later price. -/
  pending : ℕ
  deriving DecidableEq

def emptyScorecard : Scorecard := ⟨emptyTally, emptyTally, 0⟩

/-- What a backtest of one coin finds. -/
structure BacktestResult where
  /-- The history is too short to backtest; the tallies are empty. -/
  insufficient : Bool
  /-- Days of history actually used. -/
  days : ℕ
  buy : VerdictTally
  sell : VerdictTally
  deriving DecidableEq

def isCorrect (verdict : RecordedVerdict) (priceThen priceLater : JsNumber) : Bool :=
  match verdict with
  | .buy => priceThen.lt priceLater
  | .sell => priceLater.lt priceThen

/-- The point that scores a record: the first one of the history from its due time on, once
that has passed. -/
def laterPoint (record : SignalRecord) (history : List PricePoint) (now : ℤ) :
    Option PricePoint :=
  let due := record.at_ + horizonMs
  if due ≤ now then history.find? fun point => due ≤ point.t else none

/-- Whether a record was right; `none` while it is pending. -/
def scoreOf (record : SignalRecord) (history : List PricePoint) (now : ℤ) : Option Bool :=
  (laterPoint record history now).map fun later =>
    isCorrect record.verdict record.priceUsd later.p

def VerdictTally.add (tally : VerdictTally) (right : Bool) : VerdictTally where
  scored := tally.scored + 1
  correct := if right then tally.correct + 1 else tally.correct

/-- Counts one record. -/
def Scorecard.add (card : Scorecard) (verdict : RecordedVerdict) : Option Bool → Scorecard
  | none => { card with pending := card.pending + 1 }
  | some right =>
    match verdict with
    | .buy => { card with buy := card.buy.add right }
    | .sell => { card with sell := card.sell.add right }

/-- The loop of `scoreRecords`: the same coin and verdict on the same UTC day counts
once. -/
def scoreFrom (history : String → List PricePoint) (now : ℤ) (seen : List RecordField)
    (card : Scorecard) : List SignalRecord → Scorecard
  | [] => card
  | record :: records =>
    if record.field ∈ seen then scoreFrom history now seen card records
    else
      scoreFrom history now (record.field :: seen)
        (card.add record.verdict (scoreOf record (history record.symbol) now)) records

/-- **`scoreRecords`.** -/
def scoreRecords (records : List SignalRecord) (history : String → List PricePoint) (now : ℤ) :
    Scorecard :=
  scoreFrom history now [] emptyScorecard records

/-! ### The scorecard of a chat -/

/-- **`listRecords`**: the records given at or after `sinceMs`, oldest first. -/
def listRecords (hash : RecordHash) (sinceMs : ℤ) : List SignalRecord :=
  sortOn SignalRecord.at_ ((hash.entries.map recordOf).filter fun record =>
    record.priceUsd.isFinite && sinceMs ≤ record.at_)

section Scorecard

variable (text : PricePoint → String)

/-- **The points the bot sees**: end-of-day and hourly ones. -/
def keptPoints (store : HistoryStore) (symbol : String) (now : ℤ) : List PricePoint :=
  loadDaily text store symbol now ++ loadHourly text store symbol now

/-- The points of a coin by time. -/
def mergedHistory (store : HistoryStore) (now : ℤ) (symbol : String) : List PricePoint :=
  sortOn PricePoint.t (keptPoints text store symbol now)

/-- **`scorecard`** of the verdicts sent to a chat in the last `scorecardDays`. -/
def scorecard (store : HistoryStore) (hash : RecordHash) (now : ℤ) : Scorecard :=
  scoreRecords (listRecords hash (now - scorecardDays * dayMs)) (mergedHistory text store now) now

/-- **How the scorecard scores a verdict.** -/
def verdictScore (store : HistoryStore) (record : SignalRecord) (now : ℤ) : Option Bool :=
  scoreOf record (mergedHistory text store now record.symbol) now

end Scorecard

/-! ### Counting -/

/-- **The counts of some scores.** -/
def tallyScores (score : SignalRecord → Option Bool) (records : List SignalRecord) : Scorecard :=
  records.foldl (fun card record => card.add record.verdict (score record)) emptyScorecard

theorem VerdictTally.add_add (tally : VerdictTally) (right right' : Bool) :
    (tally.add right).add right' = (tally.add right').add right := by
  cases right <;> cases right' <;> rfl

theorem Scorecard.add_add (card : Scorecard) (verdict verdict' : RecordedVerdict)
    (score score' : Option Bool) :
    (card.add verdict score).add verdict' score' =
      (card.add verdict' score').add verdict score := by
  cases score with
  | none => cases score' <;> cases verdict' <;> rfl
  | some right =>
    cases score' with
    | none => cases verdict <;> rfl
    | some right' =>
      cases verdict <;> cases verdict' <;> simp [Scorecard.add, VerdictTally.add_add _ right right']

/-- **The order of the records** does not matter. -/
theorem tallyScores_perm (score : SignalRecord → Option Bool) {records records' : List SignalRecord}
    (h : records.Perm records') : tallyScores score records = tallyScores score records' :=
  h.foldl_eq' (fun _ _ _ _ card => card.add_add _ _ _ _) emptyScorecard

/-- What is counted of one verdict. -/
def Scorecard.tally (card : Scorecard) : RecordedVerdict → VerdictTally
  | .buy => card.buy
  | .sell => card.sell

theorem Scorecard.eq_iff {card card' : Scorecard} :
    card = card' ↔ card.pending = card'.pending ∧ ∀ verdict,
      (card.tally verdict).scored = (card'.tally verdict).scored ∧
        (card.tally verdict).correct = (card'.tally verdict).correct := by
  constructor
  · rintro rfl
    exact ⟨rfl, fun _ => ⟨rfl, rfl⟩⟩
  · obtain ⟨⟨scored, correct⟩, ⟨scored', correct'⟩, pending⟩ := card
    rintro ⟨rfl, htally⟩
    obtain ⟨rfl, rfl⟩ := htally .buy
    obtain ⟨rfl, rfl⟩ := htally .sell
    rfl

/-- **What is counted**: the records that are pending, and of each verdict those that are
scored and those that are right. -/
theorem counts_tallyScores (score : SignalRecord → Option Bool) (records : List SignalRecord) :
    (tallyScores score records).pending =
        records.countP (fun record => (score record).isNone) ∧
      ∀ verdict,
        ((tallyScores score records).tally verdict).scored =
            records.countP (fun record => record.verdict = verdict ∧ (score record).isSome) ∧
          ((tallyScores score records).tally verdict).correct =
            records.countP (fun record => record.verdict = verdict ∧ score record = some true) := by
  induction records using List.reverseRecOn with
  | nil => exact ⟨rfl, fun verdict => by cases verdict <;> exact ⟨rfl, rfl⟩⟩
  | append_singleton records record ih =>
    have hlast : tallyScores score (records ++ [record]) =
        (tallyScores score records).add record.verdict (score record) := by
      rw [tallyScores, List.foldl_append]
      rfl
    obtain ⟨hpending, htally⟩ := ih
    rw [hlast]
    refine ⟨?_, fun verdict => ?_⟩
    · rw [List.countP_append, ← hpending]
      cases hscore : score record with
      | none => simp [Scorecard.add, hscore]
      | some right => cases hverdict : record.verdict <;> simp [Scorecard.add, hscore]
    · obtain ⟨hscored, hcorrect⟩ := htally verdict
      rw [List.countP_append, List.countP_append, ← hscored, ← hcorrect]
      rcases hscore : score record with _ | (_ | _) <;> cases hverdict : record.verdict <;>
        cases verdict <;>
        simp [Scorecard.add, Scorecard.tally, VerdictTally.add, hscore, hverdict]

theorem scoreFrom_of_distinct {history : String → List PricePoint} {now : ℤ}
    {seen : List RecordField} {card : Scorecard} {records : List SignalRecord}
    (hnew : ∀ record ∈ records, record.field ∉ seen)
    (hdistinct : (records.map SignalRecord.field).Nodup) :
    scoreFrom history now seen card records =
      records.foldl (fun card record =>
        card.add record.verdict (scoreOf record (history record.symbol) now)) card := by
  induction records generalizing seen card with
  | nil => rfl
  | cons record records ih =>
    obtain ⟨hfirst, hnew⟩ := List.forall_mem_cons.mp hnew
    obtain ⟨hother, hdistinct⟩ := List.nodup_cons.mp hdistinct
    rw [scoreFrom, if_neg hfirst, List.foldl_cons]
    refine ih (fun record' hmem hseen => ?_) hdistinct
    rcases List.mem_cons.mp hseen with heq | hseen
    · exact hother (heq ▸ List.mem_map_of_mem hmem)
    · exact hnew record' hmem hseen

/-- **Records of distinct fields are all counted.** -/
theorem scoreRecords_of_distinct {history : String → List PricePoint} {now : ℤ}
    {records : List SignalRecord} (hdistinct : (records.map SignalRecord.field).Nodup) :
    scoreRecords records history now =
      tallyScores (fun record => scoreOf record (history record.symbol) now) records :=
  scoreFrom_of_distinct (by simp) hdistinct

/-- **A hash that `recordVerdicts` wrote**: each field has the day of its record. -/
def Written (hash : RecordHash) : Prop := ∀ e ∈ hash.entries, (recordOf e).field = e.1

theorem written_recordVerdicts (luaSort : LuaSort) {hash : RecordHash}
    (records : List SignalRecord) (now : ℤ) (h : Written hash) :
    Written (recordVerdicts luaSort hash records now) := by
  rintro ⟨field, value⟩ he
  rcases get?_recordVerdicts (InsertionMap.mem_entries.mp he) with hold | ⟨record, -, rfl, rfl⟩
  · exact h (field, value) (InsertionMap.mem_entries.mpr hold)
  · rfl

theorem fields_recordOf {hash : RecordHash} (h : Written hash) :
    (hash.entries.map recordOf).map SignalRecord.field = hash.entries.map Prod.fst := by
  rw [List.map_map]
  exact List.map_congr_left h

/-- The records that are listed have distinct fields. -/
theorem distinct_listRecords {hash : RecordHash} (h : Written hash) (sinceMs : ℤ) :
    ((listRecords hash sinceMs).map SignalRecord.field).Nodup := by
  have hperm : ((listRecords hash sinceMs).map SignalRecord.field).Perm _ :=
    (List.perm_insertionSort _ _).map SignalRecord.field
  rw [hperm.nodup_iff]
  refine List.Nodup.sublist (List.filter_sublist.map SignalRecord.field) ?_
  rw [fields_recordOf h]
  exact hash.nodup

/-- **The scorecard counts how each listed verdict is scored.** -/
theorem scorecard_eq_tally (text : PricePoint → String) (store : HistoryStore)
    {hash : RecordHash} (h : Written hash) (now : ℤ) :
    scorecard text store hash now =
      tallyScores (fun record => verdictScore text store record now)
        (listRecords hash (now - scorecardDays * dayMs)) :=
  scoreRecords_of_distinct (distinct_listRecords h _)

/-! ### Looking again -/

section Looks

variable {text : PricePoint → String} {calls calls' : List SnapshotCall} {record : SignalRecord}
  {now now' : ℤ} {point later : PricePoint}

/-- **A sample is still kept**: for its hour, that is not too old, or for its day. -/
def StillKept (samples : List PricePoint) (now : ℤ) (point : PricePoint) : Prop :=
  LastOf (fun x => x.t / hourMs) samples point ∧
      now - hourlyRetentionMs ≤ bucketStart hourMs point.t ∨
    LastOf (fun x => x.t / dayMs) samples point

/-- A due time of the last thirty days is within reach of the end-of-day points. -/
theorem recent_of_due (hdue : now - scorecardDays * dayMs + horizonMs ≤ point.t) :
    now - dailyRetentionMs ≤ bucketStart dayMs point.t := by
  simp only [scorecardDays, dailyRetentionMs, bucketStart, horizonMs, dayMs, hourMs] at *
  omega

variable (text) in
/-- **The points a verdict can be scored by** are the samples that are still kept. -/
theorem mem_history {symbol : String} (hsorted : calls.Pairwise fun c c' => c.now ≤ c'.now)
    (hcalls : ∀ call ∈ calls, call.now ≤ now)
    (hdue : now - scorecardDays * dayMs + horizonMs ≤ point.t) :
    point ∈ keptPoints text (snapshots calls) symbol now ↔
      StillKept (samplesOf symbol calls) now point := by
  rw [keptPoints, List.mem_append, mem_loadDaily hsorted hcalls (recent_of_due hdue),
    mem_loadHourly hsorted hcalls, or_comm]
  rfl

theorem laterPoint_eq (text : PricePoint → String) (store : HistoryStore) (record : SignalRecord)
    (now : ℤ) :
    laterPoint record (mergedHistory text store now record.symbol) now =
      if record.at_ + horizonMs ≤ now then
        earliest PricePoint.t (record.at_ + horizonMs) (keptPoints text store record.symbol now)
      else none := by
  rw [laterPoint, mergedHistory]
  simp only [find?_sortOn]

/-- The last of a day is the last of its hour. -/
theorem lastOf_hour_of_day {samples : List PricePoint}
    (h : LastOf (fun x : PricePoint => x.t / dayMs) samples point) :
    LastOf (fun x : PricePoint => x.t / hourMs) samples point := by
  refine h.finer fun x hx => ?_
  simp only [dayMs, hourMs] at *
  omega

theorem StillKept.hour {samples : List PricePoint} (h : StillKept samples now point) :
    LastOf (fun x : PricePoint => x.t / hourMs) samples point := by
  rcases h with ⟨hhour, -⟩ | hday
  · exact hhour
  · exact lastOf_hour_of_day hday

/-- **A sample that is still kept** was kept before, or is new. -/
theorem StillKept.before {samples samples' : List PricePoint} (hnow : now ≤ now')
    (h : StillKept (samples ++ samples') now' point) :
    StillKept samples now point ∨ point ∈ samples' := by
  rcases h with ⟨hhour, hrecent⟩ | hday
  · rcases lastOf_append.mp hhour with hnew | ⟨hhour, -⟩
    · exact Or.inr hnew.mem
    · exact Or.inl (Or.inl ⟨hhour, by omega⟩)
  · rcases lastOf_append.mp hday with hnew | ⟨hday, -⟩
    · exact Or.inr hnew.mem
    · exact Or.inl (Or.inr hday)

/-- Samples of one time that are still kept are the same. -/
theorem StillKept.unique {samples : List PricePoint} (h : StillKept samples now point)
    (h' : StillKept samples now later) (ht : later.t = point.t) : later = point :=
  h'.hour.unique h.hour (congrArg (· / hourMs) ht)

/-- **The sample that scores a verdict**: of those that are still kept, the first one from
the due time on. -/
structure ScoredBy (samples : List PricePoint) (now : ℤ) (record : SignalRecord)
    (point : PricePoint) : Prop where
  passed : record.at_ + horizonMs ≤ now
  due : record.at_ + horizonMs ≤ point.t
  kept : StillKept samples now point
  first : ∀ x, StillKept samples now x → record.at_ + horizonMs ≤ x.t → point.t ≤ x.t

variable (text) in
theorem laterPoint_eq_some (hsorted : calls.Pairwise fun c c' => c.now ≤ c'.now)
    (hcalls : ∀ call ∈ calls, call.now ≤ now)
    (hwindow : now - scorecardDays * dayMs ≤ record.at_) :
    laterPoint record (mergedHistory text (snapshots calls) now record.symbol) now = some point ↔
      ScoredBy (samplesOf record.symbol calls) now record point := by
  have hmem : ∀ x : PricePoint, record.at_ + horizonMs ≤ x.t →
      (x ∈ keptPoints text (snapshots calls) record.symbol now ↔
        StillKept (samplesOf record.symbol calls) now x) :=
    fun x hx => mem_history text hsorted hcalls (by omega)
  rw [laterPoint_eq]
  constructor
  · intro h
    split_ifs at h with hpassed
    obtain ⟨hpoint, hdue, hfirst⟩ := earliest_spec h
    exact ⟨hpassed, hdue, (hmem point hdue).mp hpoint,
      fun x hx hxdue => hfirst x ((hmem x hxdue).mpr hx) hxdue⟩
  · rintro ⟨hpassed, hdue, hkept, hfirst⟩
    rw [if_pos hpassed]
    refine earliest_of_forall ((hmem point hdue).mpr hkept) hdue fun x hx hxdue => ?_
    have hxkept := (hmem x hxdue).mp hx
    exact ⟨hfirst x hxkept hxdue, hkept.unique hxkept⟩

/-- **A sample that is still kept scores again**, since later samples come no earlier. -/
theorem ScoredBy.again {samples samples' : List PricePoint}
    (h : ScoredBy samples now record point) (hnow : now ≤ now')
    (hsorted : (samples ++ samples').Pairwise fun x y => x.t ≤ y.t)
    (hstill : StillKept (samples ++ samples') now' point) :
    ScoredBy (samples ++ samples') now' record point where
  passed := h.passed.trans hnow
  due := h.due
  kept := hstill
  first x hx hxdue := by
    rcases hx.before hnow with hbefore | hnew
    · exact h.first x hbefore hxdue
    · exact (List.pairwise_append.mp hsorted).2.2 point h.kept.hour.mem x hnew

/-- **A verdict that has been scored is scored at every later look**, and the same way as
long as the sample it was scored by is still kept. -/
theorem scored_again (hsorted : (calls ++ calls').Pairwise fun c c' => c.now ≤ c'.now)
    (hcalls : ∀ call ∈ calls, call.now ≤ now) (hcalls' : ∀ call ∈ calls', call.now ≤ now')
    (hnow : now ≤ now') (hwindow : now' - scorecardDays * dayMs ≤ record.at_) {right : Bool}
    (hscored : verdictScore text (snapshots calls) record now = some right) :
    (verdictScore text (snapshots (calls ++ calls')) record now').isSome = true ∧
      ∀ point, laterPoint record (mergedHistory text (snapshots calls) now record.symbol) now =
          some point →
        StillKept (samplesOf record.symbol (calls ++ calls')) now' point →
          verdictScore text (snapshots (calls ++ calls')) record now' = some right := by
  have hsamples : samplesOf record.symbol (calls ++ calls') =
      samplesOf record.symbol calls ++ samplesOf record.symbol calls' := List.filterMap_append
  have hall : ∀ call ∈ calls ++ calls', call.now ≤ now' := by
    intro call hcall
    rcases List.mem_append.mp hcall with hcall | hcall
    · exact (hcalls call hcall).trans hnow
    · exact hcalls' call hcall
  obtain ⟨point, hpoint, hright⟩ := Option.map_eq_some_iff.mp hscored
  have hby := (laterPoint_eq_some text (List.pairwise_append.mp hsorted).1 hcalls
    (by omega)).mp hpoint
  constructor
  · -- the last sample of the point's day is kept, and comes no earlier
    obtain ⟨last, hlast, -, hle⟩ := exists_lastOf (fun x : PricePoint => x.t / dayMs)
      (sorted_samplesOf record.symbol hsorted)
      (hsamples ▸ List.mem_append_left _ hby.kept.hour.mem)
    have hlastdue := hby.due.trans hle
    have hmem := (mem_history text hsorted hall (by omega)).mpr (Or.inr hlast)
    obtain ⟨found, hfound⟩ := earliest_isSome hmem hlastdue
    rw [verdictScore, scoreOf, laterPoint_eq, if_pos (hby.passed.trans hnow), hfound]
    rfl
  · intro point' hpoint' hstill
    obtain rfl := Option.some.inj (hpoint.symm.trans hpoint')
    have hagain := hby.again hnow (hsamples ▸ sorted_samplesOf record.symbol hsorted)
      (hsamples ▸ hstill)
    rw [verdictScore, scoreOf,
      (laterPoint_eq_some text hsorted hall hwindow).mpr (hsamples ▸ hagain)]
    exact congrArg some hright

end Looks

/-! ### Two looks at one verdict -/

/-- One sample of a coin. -/
def btcSample (now : ℤ) (price : ℚ) : SnapshotCall where
  prices := InsertionMap.empty.set "btc" (.finite price)
  now := now

/-- Buy at 100. -/
def btcBuy : SignalRecord where
  symbol := "btc"
  verdict := .buy
  priceUsd := .finite 100
  at_ := 0

/-- The first price after the due time is 110; the next one comes in another hour. -/
theorem scored_again_of_later_hour :
    verdictScore wholeText
      (snapshots ([btcSample (horizonMs + 600000) 110] ++ [btcSample (horizonMs + 2 * hourMs) 90]))
      btcBuy (horizonMs + 3 * hourMs) = some true :=
  (scored_again (by decide +kernel)
    (show ∀ call ∈ [btcSample (horizonMs + 600000) 110], call.now ≤ horizonMs + hourMs by
      decide +kernel)
    (by decide +kernel) (by decide) (by decide) (by decide +kernel)).2
    ⟨horizonMs + 600000, .finite 110⟩ (by decide +kernel)
    (Or.inl ⟨⟨[], [⟨horizonMs + 2 * hourMs, .finite 90⟩], by decide +kernel, by decide⟩,
      by decide⟩)

/-- The first price after the due time is 110, and the next one of that hour is 90. -/
theorem score_not_final :
    ¬∀ (text : PricePoint → String) (calls calls' : List SnapshotCall) (record : SignalRecord)
        (now now' : ℤ) (right : Bool),
      ((calls ++ calls').Pairwise fun c c' => c.now ≤ c'.now) →
      (∀ call ∈ calls, call.now ≤ now) → (∀ call ∈ calls', now ≤ call.now ∧ call.now ≤ now') →
      now ≤ now' → now' - scorecardDays * dayMs ≤ record.at_ → record.at_ ≤ now →
      verdictScore text (snapshots calls) record now = some right →
        verdictScore text (snapshots (calls ++ calls')) record now' = some right := by
  intro h
  have hsame := h wholeText [btcSample (horizonMs + 600000) 110]
    [btcSample (horizonMs + 2400000) 90] btcBuy (horizonMs + 1200000) (horizonMs + 3000000) true
    (by decide +kernel) (by decide +kernel) (by decide +kernel) (by decide) (by decide) (by decide)
    (by decide +kernel)
  revert hsame
  decide +kernel

end Signals

end CryptoZaloBot
