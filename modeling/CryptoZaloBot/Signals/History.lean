import Mathlib.Logic.Function.Basic
import CryptoZaloBot.Base.InsertionMap
import CryptoZaloBot.Base.Timeline
import CryptoZaloBot.Signals.Evaluator

/-!
# Price histories

`SignalsHistoryService` keeps two sorted sets of Redis per coin: one of the last sample of
each hour, for eight days, and one of the last sample of each UTC day, for ninety. A
snapshot replaces the samples of its hour and its day
(`CryptoZaloBot.Signals.storeSample`); a backfill only adds. What is read is sifted again,
one point per hour or day (`CryptoZaloBot.Signals.parseMembers`).

After snapshots alone a sample is read as long as it is the last of its bucket and its
bucket is not too old (`CryptoZaloBot.Signals.mem_loadHourly`,
`CryptoZaloBot.Signals.mem_loadDaily`).

A member is a text, `<ms>:<usd>`; here it is the point it stands for. The text only tells
in which order Redis lists the members of one score, and is a parameter. The expiry of the
two keys is left out: a key expires when every point in it is too old to be read.
-/

namespace CryptoZaloBot

namespace Signals

/-- Hourly price points are kept this long: 7 days of range plus slack for the 7-day
coverage check. -/
def hourlyRetentionMs : ℤ := 8 * dayMs

/-- End-of-day price points are kept this long. -/
def dailyRetentionMs : ℤ := 90 * dayMs

/-- Backtest looks at no more than this many days. -/
def backtestDays : ℤ := 90

/-! ### What is stored -/

/-- A sorted set of samples: the score of each member. -/
abbrev PriceSet := InsertionMap PricePoint ℤ

/-- The two sets of a coin. -/
structure SymbolHistory where
  /-- Score = hour bucket start. -/
  hourly : PriceSet
  /-- Score = UTC day start. -/
  daily : PriceSet

/-- The histories of all coins. -/
abbrev HistoryStore := String → SymbolHistory

def HistoryStore.empty : HistoryStore := fun _ => ⟨.empty, .empty⟩

/-- A finite positive number. -/
def isPrice (p : JsNumber) : Bool := p.isFinite && (JsNumber.finite 0).lt p

/-- The start of the bucket of a time, its score. -/
def bucketStart (bucketMs t : ℤ) : ℤ := t / bucketMs * bucketMs

/-- **A sample replaces the one of its bucket**, and what is past retention is cut. -/
def storeSample (bucketMs retentionMs : ℤ) (set : PriceSet) (point : PricePoint) : PriceSet :=
  let bucket := bucketStart bucketMs point.t
  let replaced := (set.filter fun e => e.2 ≠ bucket).set point bucket
  replaced.filter fun e => point.t - retentionMs ≤ e.2

/-- The script of `snapshot`, for one coin. -/
def SymbolHistory.snapshot (history : SymbolHistory) (point : PricePoint) : SymbolHistory where
  hourly := storeSample hourMs hourlyRetentionMs history.hourly point
  daily := storeSample dayMs dailyRetentionMs history.daily point

/-- The sample of a coin among some prices. -/
def sampleOf (prices : InsertionMap String JsNumber) (now : ℤ) (symbol : String) :
    Option PricePoint :=
  ((prices.get? symbol).filter isPrice).map fun p => ⟨now, p⟩

/-- **`snapshot`**: records `prices` as of `now`. -/
def snapshot (store : HistoryStore) (prices : InsertionMap String JsNumber) (now : ℤ) :
    HistoryStore :=
  fun symbol =>
    match sampleOf prices now symbol with
    | none => store symbol
    | some point => (store symbol).snapshot point

/-! ### What is read -/

section Reading

variable (text : PricePoint → String)

/-- The order in which Redis lists members: by score, those of one score by their texts. -/
def inRangeOrder (entries : List (PricePoint × ℤ)) : List PricePoint :=
  (entries.insertionSort fun e e' =>
    e.2 < e'.2 ∨ e.2 = e'.2 ∧ text e.1 ≤ text e'.1).map Prod.fst

/-- `ZRANGEBYSCORE`, from a score on. -/
def rangeByScore (set : PriceSet) (start : ℤ) : List PricePoint :=
  inRangeOrder text (set.entries.filter fun e => start ≤ e.2)

/-- One turn of the loop of `parseMembers`. -/
def keepLater (bucketMs : ℤ) (byBucket : InsertionMap ℤ PricePoint) (point : PricePoint) :
    InsertionMap ℤ PricePoint :=
  if isPrice point.p then
    let bucket := point.t / bucketMs
    match byBucket.get? bucket with
    | none => byBucket.set bucket point
    | some existing => if existing.t < point.t then byBucket.set bucket point else byBucket
  else byBucket

/-- **`parseMembers`**: oldest first, one per bucket (the later sample wins). -/
def parseMembers (members : List PricePoint) (bucketMs : ℤ) : List PricePoint :=
  sortOn PricePoint.t ((members.foldl (keepLater bucketMs) .empty).entries.map Prod.snd)

/-- Hourly points of the last `hourlyRetentionMs`, oldest first. -/
def loadHourly (store : HistoryStore) (symbol : String) (now : ℤ) : List PricePoint :=
  parseMembers (rangeByScore text (store symbol).hourly (now - hourlyRetentionMs)) hourMs

/-- End-of-day points of the last `backtestDays`, oldest first. -/
def loadDaily (store : HistoryStore) (symbol : String) (now : ℤ) : List PricePoint :=
  parseMembers (rangeByScore text (store symbol).daily (now - (backtestDays + 1) * dayMs)) dayMs

end Reading

/-- The text of a point whose price is a whole number. -/
def wholeText (point : PricePoint) : String :=
  toString point.t ++ ":" ++
    match point.p with
    | .finite q => toString q.num
    | .posInfinity => "Infinity"
    | .negInfinity => "-Infinity"
    | .nan => "NaN"

/-! ### The backfill -/

/-- The points of a chart that are kept. -/
structure BackfillPoints where
  hourly : List PricePoint
  daily : List PricePoint

/-- **`buildBackfillPoints`**: every hour of the last `hourlyRetentionMs`, and the last
sample of each UTC day. -/
def buildBackfillPoints (chart : List PricePoint) (now : ℤ) : BackfillPoints where
  hourly := parseMembers (chart.filter fun point => now - hourlyRetentionMs ≤ point.t) hourMs
  daily := parseMembers (chart.filter fun point => now - dailyRetentionMs ≤ point.t) dayMs

/-- `ZADD` of points, under the starts of their buckets. -/
def addPoints (bucketMs : ℤ) (set : PriceSet) (points : List PricePoint) : PriceSet :=
  points.foldl (fun set point => set.set point (bucketStart bucketMs point.t)) set

/-- **`writeBackfill`.** -/
def writeBackfill (store : HistoryStore) (symbol : String) (points : BackfillPoints) :
    HistoryStore :=
  Function.update store symbol
    { hourly := addPoints hourMs (store symbol).hourly points.hourly
      daily := addPoints dayMs (store symbol).daily points.daily }

/-! ### What `parseMembers` keeps -/

section Parsing

variable {bucketMs : ℤ} {members : List PricePoint} {byBucket : InsertionMap ℤ PricePoint}

/-- **What the map of the loop holds**: a price per bucket, none of the bucket later. -/
structure Sifted (bucketMs : ℤ) (members : List PricePoint)
    (byBucket : InsertionMap ℤ PricePoint) : Prop where
  kept : ∀ bucket point, byBucket.get? bucket = some point →
    point ∈ members ∧ isPrice point.p = true ∧ point.t / bucketMs = bucket
  covers : ∀ point ∈ members, isPrice point.p = true →
    ∃ later, byBucket.get? (point.t / bucketMs) = some later ∧ point.t ≤ later.t

/-- A later price takes its bucket. -/
theorem Sifted.set (h : Sifted bucketMs members byBucket) {point : PricePoint}
    (hprice : isPrice point.p = true)
    (hlater : ∀ existing, byBucket.get? (point.t / bucketMs) = some existing →
      existing.t ≤ point.t) :
    Sifted bucketMs (members ++ [point]) (byBucket.set (point.t / bucketMs) point) where
  kept bucket x hx := by
    by_cases hbucket : bucket = point.t / bucketMs
    · subst hbucket
      obtain rfl := Option.some.inj ((byBucket.get?_set_self _ _).symm.trans hx)
      exact ⟨by simp, hprice, rfl⟩
    · rw [byBucket.get?_set_of_ne _ hbucket] at hx
      obtain ⟨hmem, hx⟩ := h.kept bucket x hx
      exact ⟨List.mem_append_left _ hmem, hx⟩
  covers x hx hxprice := by
    by_cases hbucket : x.t / bucketMs = point.t / bucketMs
    · refine ⟨point, by rw [hbucket, byBucket.get?_set_self], ?_⟩
      rcases List.mem_append.mp hx with hx | hx
      · obtain ⟨later, hkept, hle⟩ := h.covers x hx hxprice
        exact hle.trans (hlater later (hbucket ▸ hkept))
      · rw [List.mem_singleton.mp hx]
    · rcases List.mem_append.mp hx with hx | hx
      · rw [byBucket.get?_set_of_ne _ hbucket]
        exact h.covers x hx hxprice
      · exact absurd (List.mem_singleton.mp hx ▸ rfl) hbucket

/-- A member that does not take its bucket is no price, or another one is later. -/
theorem Sifted.skip (h : Sifted bucketMs members byBucket) {point : PricePoint}
    (hpoint : isPrice point.p = true →
      ∃ later, byBucket.get? (point.t / bucketMs) = some later ∧ point.t ≤ later.t) :
    Sifted bucketMs (members ++ [point]) byBucket where
  kept bucket x hx := by
    obtain ⟨hmem, hx⟩ := h.kept bucket x hx
    exact ⟨List.mem_append_left _ hmem, hx⟩
  covers x hx hxprice := by
    rcases List.mem_append.mp hx with hx | hx
    · exact h.covers x hx hxprice
    · rw [List.mem_singleton.mp hx] at hxprice ⊢
      exact hpoint hxprice

theorem Sifted.keepLater (h : Sifted bucketMs members byBucket) (point : PricePoint) :
    Sifted bucketMs (members ++ [point]) (keepLater bucketMs byBucket point) := by
  unfold Signals.keepLater
  by_cases hprice : isPrice point.p = true
  · rw [if_pos hprice]
    cases hexisting : byBucket.get? (point.t / bucketMs) with
    | none =>
      simp only [hexisting]
      refine h.set hprice fun existing hx => ?_
      rw [hexisting] at hx
      cases hx
    | some existing =>
      by_cases hlt : existing.t < point.t
      · simp only [hexisting, if_pos hlt]
        refine h.set hprice fun x hx => ?_
        rw [Option.some.inj (hx.symm.trans hexisting)]
        exact hlt.le
      · simp only [hexisting, if_neg hlt]
        exact h.skip fun _ => ⟨existing, hexisting, not_lt.mp hlt⟩
  · rw [if_neg hprice]
    exact h.skip fun hprice' => absurd hprice' hprice

theorem sifted_foldl (bucketMs : ℤ) (members : List PricePoint) :
    Sifted bucketMs members (members.foldl (keepLater bucketMs) .empty) := by
  induction members using List.reverseRecOn with
  | nil => exact ⟨nofun, nofun⟩
  | append_singleton members point ih =>
    rw [List.foldl_concat]
    exact ih.keepLater point

theorem mem_parseMembers_iff {point : PricePoint} :
    point ∈ parseMembers members bucketMs ↔
      ∃ bucket, (members.foldl (keepLater bucketMs) .empty).get? bucket = some point := by
  rw [parseMembers, mem_sortOn, List.mem_map]
  constructor
  · rintro ⟨⟨bucket, x⟩, hmem, rfl⟩
    exact ⟨bucket, InsertionMap.mem_entries.mp hmem⟩
  · rintro ⟨bucket, h⟩
    exact ⟨(bucket, point), InsertionMap.mem_entries.mpr h, rfl⟩

/-- **What is parsed** is a price of the members, and none of its bucket is later. -/
theorem of_mem_parseMembers {point : PricePoint} (h : point ∈ parseMembers members bucketMs) :
    point ∈ members ∧ isPrice point.p = true ∧
      ∀ x ∈ members, isPrice x.p = true → x.t / bucketMs = point.t / bucketMs → x.t ≤ point.t := by
  obtain ⟨bucket, hkept⟩ := mem_parseMembers_iff.mp h
  have hsifted := sifted_foldl bucketMs members
  obtain ⟨hmem, hprice, rfl⟩ := hsifted.kept bucket point hkept
  refine ⟨hmem, hprice, fun x hx hxprice hbucket => ?_⟩
  obtain ⟨later, hlater, hle⟩ := hsifted.covers x hx hxprice
  rw [hbucket] at hlater
  exact Option.some.inj (hlater.symm.trans hkept) ▸ hle

/-- **Prices that are alone in their buckets are all kept.** -/
theorem mem_parseMembers_of_alone (hprices : ∀ x ∈ members, isPrice x.p = true)
    (halone : ∀ x ∈ members, ∀ y ∈ members, x.t / bucketMs = y.t / bucketMs → x = y)
    {point : PricePoint} : point ∈ parseMembers members bucketMs ↔ point ∈ members := by
  refine ⟨fun h => (of_mem_parseMembers h).1, fun h => ?_⟩
  have hsifted := sifted_foldl bucketMs members
  obtain ⟨later, hkept, -⟩ := hsifted.covers point h (hprices point h)
  obtain ⟨hmem, -, hbucket⟩ := hsifted.kept _ later hkept
  obtain rfl := halone later hmem point h hbucket
  exact mem_parseMembers_iff.mpr ⟨_, hkept⟩

end Parsing

/-! ### What snapshots leave -/

section Snapshots

variable {text : PricePoint → String} {bucketMs retentionMs start : ℤ} {set : PriceSet}
  {samples : List PricePoint} {point : PricePoint}

theorem mem_inRangeOrder {entries : List (PricePoint × ℤ)} :
    point ∈ inRangeOrder text entries ↔ ∃ score, (point, score) ∈ entries := by
  rw [inRangeOrder, List.mem_map]
  constructor
  · rintro ⟨⟨x, score⟩, hmem, rfl⟩
    exact ⟨score, (List.mem_insertionSort _).mp hmem⟩
  · rintro ⟨score, hmem⟩
    exact ⟨(point, score), (List.mem_insertionSort _).mpr hmem, rfl⟩

theorem mem_rangeByScore :
    point ∈ rangeByScore text set start ↔ ∃ score, set.get? point = some score ∧ start ≤ score := by
  rw [rangeByScore, mem_inRangeOrder]
  simp only [List.mem_filter, InsertionMap.mem_entries, decide_eq_true_eq]

theorem get?_storeSample {score : ℤ} {x : PricePoint} :
    (storeSample bucketMs retentionMs set point).get? x = some score ↔
      (x = point ∧ score = bucketStart bucketMs point.t ∨
        x ≠ point ∧ set.get? x = some score ∧ score ≠ bucketStart bucketMs point.t) ∧
      point.t - retentionMs ≤ score := by
  rw [storeSample, InsertionMap.get?_filter, Option.filter_eq_some_iff, InsertionMap.get?_set,
    decide_eq_true_iff]
  refine and_congr_left' ?_
  by_cases hx : x = point
  · simp [hx, eq_comm]
  · simp [hx, InsertionMap.get?_filter, Option.filter_eq_some_iff]

/-- The samples of one bucket size, stored one after another. -/
def storeSamples (bucketMs retentionMs : ℤ) (samples : List PricePoint) : PriceSet :=
  samples.foldl (storeSample bucketMs retentionMs) .empty

/-- **What is stored after samples in time order**: the last one of each bucket that is not
past retention. -/
theorem get?_storeSamples (hbucket : 0 < bucketMs)
    (hsorted : samples.Pairwise fun x y => x.t ≤ y.t) {score : ℤ} {x : PricePoint} :
    (storeSamples bucketMs retentionMs samples).get? x = some score ↔
      score = bucketStart bucketMs x.t ∧ LastOf (fun x => x.t / bucketMs) samples x ∧
        ∀ y ∈ samples, y.t - retentionMs ≤ score := by
  have hsame : ∀ x y : PricePoint,
      bucketStart bucketMs x.t = bucketStart bucketMs y.t ↔ x.t / bucketMs = y.t / bucketMs :=
    fun x y => Int.mul_eq_mul_right_iff hbucket.ne'
  induction samples using List.reverseRecOn generalizing score with
  | nil =>
    refine ⟨nofun, fun h => ?_⟩
    exact nomatch h.2.1.mem
  | append_singleton samples point ih =>
    obtain ⟨hsorted, -, hlast⟩ := List.pairwise_append.mp hsorted
    have hle : ∀ y ∈ samples, y.t ≤ point.t := fun y hy => hlast y hy point (by simp)
    have hbefore : (storeSamples bucketMs retentionMs samples).get? x = some score ↔ _ := ih hsorted
    rw [storeSamples, List.foldl_concat, ← storeSamples, get?_storeSample, hbefore, lastOf_concat,
      List.forall_mem_append, List.forall_mem_singleton]
    constructor
    · rintro ⟨⟨rfl, rfl⟩ | ⟨-, ⟨rfl, hx, hkept⟩, hother⟩, hcut⟩
      · exact ⟨rfl, Or.inl rfl, fun y hy => by have := hle y hy; omega, hcut⟩
      · refine ⟨rfl, Or.inr ⟨hx, fun heq => hother ?_⟩, hkept, hcut⟩
        exact (hsame x point).mpr heq.symm
    · rintro ⟨rfl, rfl | ⟨hx, hother⟩, hkept, hcut⟩
      · exact ⟨Or.inl ⟨rfl, rfl⟩, hcut⟩
      · refine ⟨Or.inr ⟨?_, ⟨rfl, hx, hkept⟩, fun heq => ?_⟩, hcut⟩
        · rintro rfl
          exact hother rfl
        · exact hother ((hsame x point).mp heq).symm

/-- **What is read after samples in time order.** -/
theorem mem_parseMembers_storeSamples (hbucket : 0 < bucketMs)
    (hsorted : samples.Pairwise fun x y => x.t ≤ y.t)
    (hprices : ∀ x ∈ samples, isPrice x.p = true) :
    point ∈ parseMembers (rangeByScore text (storeSamples bucketMs retentionMs samples) start)
        bucketMs ↔
      LastOf (fun x => x.t / bucketMs) samples point ∧
        (∀ y ∈ samples, y.t - retentionMs ≤ bucketStart bucketMs point.t) ∧
        start ≤ bucketStart bucketMs point.t := by
  have hread : ∀ x, x ∈ rangeByScore text (storeSamples bucketMs retentionMs samples) start ↔
      LastOf (fun x => x.t / bucketMs) samples x ∧
        (∀ y ∈ samples, y.t - retentionMs ≤ bucketStart bucketMs x.t) ∧
        start ≤ bucketStart bucketMs x.t := by
    intro x
    rw [mem_rangeByScore]
    constructor
    · rintro ⟨score, hget, hstart⟩
      obtain ⟨rfl, hlast, hkept⟩ := (get?_storeSamples hbucket hsorted).mp hget
      exact ⟨hlast, hkept, hstart⟩
    · rintro ⟨hlast, hkept, hstart⟩
      exact ⟨_, (get?_storeSamples hbucket hsorted).mpr ⟨rfl, hlast, hkept⟩, hstart⟩
  rw [mem_parseMembers_of_alone, hread]
  · exact fun x hx => hprices x ((hread x).mp hx).1.mem
  · exact fun x hx y hy hsame => ((hread x).mp hx).1.unique ((hread y).mp hy).1 hsame

/-! ### Runs of snapshots -/

/-- A call of `snapshot`. -/
structure SnapshotCall where
  prices : InsertionMap String JsNumber
  now : ℤ

/-- **The histories after some calls** of `snapshot`, from none. -/
def snapshots (calls : List SnapshotCall) : HistoryStore :=
  calls.foldl (fun store call => snapshot store call.prices call.now) .empty

/-- The samples of a coin that calls stored. -/
def samplesOf (symbol : String) (calls : List SnapshotCall) : List PricePoint :=
  calls.filterMap fun call => sampleOf call.prices call.now symbol

variable {calls : List SnapshotCall} {symbol : String} {now : ℤ}

theorem snapshots_eq (calls : List SnapshotCall) (symbol : String) :
    snapshots calls symbol =
      { hourly := storeSamples hourMs hourlyRetentionMs (samplesOf symbol calls)
        daily := storeSamples dayMs dailyRetentionMs (samplesOf symbol calls) } := by
  induction calls using List.reverseRecOn with
  | nil => rfl
  | append_singleton calls call ih =>
    rw [snapshots, List.foldl_concat, ← snapshots, samplesOf, List.filterMap_append, ← samplesOf]
    unfold snapshot
    cases hsample : sampleOf call.prices call.now symbol with
    | none => simp [hsample, ih]
    | some point => simp [hsample, ih, SymbolHistory.snapshot, storeSamples, List.foldl_append]

theorem sampleOf_eq_some {prices : InsertionMap String JsNumber}
    (h : sampleOf prices now symbol = some point) : isPrice point.p = true ∧ point.t = now := by
  obtain ⟨p, hp, rfl⟩ := Option.map_eq_some_iff.mp h
  exact ⟨(Option.filter_eq_some_iff.mp hp).2, rfl⟩

theorem isPrice_of_mem_samplesOf (h : point ∈ samplesOf symbol calls) : isPrice point.p = true := by
  obtain ⟨call, -, hsample⟩ := List.mem_filterMap.mp h
  exact (sampleOf_eq_some hsample).1

/-- A sample has the time of its call. -/
theorem exists_call_of_mem_samplesOf (h : point ∈ samplesOf symbol calls) :
    ∃ call ∈ calls, point.t = call.now := by
  obtain ⟨call, hcall, hsample⟩ := List.mem_filterMap.mp h
  exact ⟨call, hcall, (sampleOf_eq_some hsample).2⟩

variable (symbol) in
theorem sorted_samplesOf (hsorted : calls.Pairwise fun c c' => c.now ≤ c'.now) :
    (samplesOf symbol calls).Pairwise fun x y => x.t ≤ y.t := by
  refine hsorted.filterMap _ fun call call' hle x hx y hy => ?_
  rw [(sampleOf_eq_some hx).2, (sampleOf_eq_some hy).2]
  exact hle

/-- **An hourly point that is read** is the last sample of its hour. -/
theorem mem_loadHourly (hsorted : calls.Pairwise fun c c' => c.now ≤ c'.now)
    (hnow : ∀ call ∈ calls, call.now ≤ now) :
    point ∈ loadHourly text (snapshots calls) symbol now ↔
      LastOf (fun x => x.t / hourMs) (samplesOf symbol calls) point ∧
        now - hourlyRetentionMs ≤ bucketStart hourMs point.t := by
  rw [loadHourly, snapshots_eq, mem_parseMembers_storeSamples (by decide)
    (sorted_samplesOf symbol hsorted) fun x hx => isPrice_of_mem_samplesOf hx]
  refine and_congr_right' ⟨fun h => h.2, fun h => ⟨fun y hy => ?_, h⟩⟩
  obtain ⟨call, hcall, hy⟩ := exists_call_of_mem_samplesOf hy
  have hle := hnow call hcall
  omega

/-- **An end-of-day point of the last ninety days** is read if it is the last sample of its
day. -/
theorem mem_loadDaily (hsorted : calls.Pairwise fun c c' => c.now ≤ c'.now)
    (hnow : ∀ call ∈ calls, call.now ≤ now)
    (hrecent : now - dailyRetentionMs ≤ bucketStart dayMs point.t) :
    point ∈ loadDaily text (snapshots calls) symbol now ↔
      LastOf (fun x => x.t / dayMs) (samplesOf symbol calls) point := by
  rw [loadDaily, snapshots_eq, mem_parseMembers_storeSamples (by decide)
    (sorted_samplesOf symbol hsorted) fun x hx => isPrice_of_mem_samplesOf hx]
  refine ⟨fun h => h.1, fun h => ⟨h, fun y hy => ?_, ?_⟩⟩
  · obtain ⟨call, hcall, hy⟩ := exists_call_of_mem_samplesOf hy
    have hle := hnow call hcall
    omega
  · have hwider : now - (backtestDays + 1) * dayMs ≤ now - dailyRetentionMs := by
      simp only [backtestDays, dailyRetentionMs, dayMs, hourMs]
      omega
    exact hwider.trans hrecent

end Snapshots

end Signals

end CryptoZaloBot
