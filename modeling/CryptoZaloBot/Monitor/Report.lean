import Mathlib.Data.List.Sort
import CryptoZaloBot.Base.Counts
import CryptoZaloBot.Base.Gaps
import CryptoZaloBot.Monitor.Rules

/-!
# The outages of the report

`price-alerts-report.lib.js`: the report an admin runs by hand lists every stretch of at
least 15 minutes without a healthy run, with what was seen in it. It reads the whole log,
in whatever order, and a map from minutes to the calls rejected in them.

The starts of the healthy runs cut the report's window into gaps, and an outage is a gap
that is long enough; within one, what was recorded cuts it again, and a gap of three
minutes there means the check was not called. Both are read off the gaps of
`CryptoZaloBot.Base.Gaps`. `CryptoZaloBot.Monitor.buildOutages_spec` puts together what
the report promises about its list.
-/

namespace CryptoZaloBot

namespace Monitor

open PriceAlerts (minutes RunOutcome)

/-! ### The report's data -/

/-- Inside an outage, a stretch this long with nothing recorded counts as "not called". -/
def notCalledGapMs : ℤ := minutes 3

/-- An entry of the run log, as the report reads it. -/
structure DatedRun where
  startedAt : ℤ
  outcome : Option RunOutcome
  deriving DecidableEq

/-- Runs logged before there were outcomes have none; only completed ones were logged. -/
def outcomeOf (run : DatedRun) : RunOutcome := run.outcome.getD .healthy

/-- One outage of the report, in milliseconds. -/
structure ReportedOutage where
  start : ℤ
  endAt : ℤ
  durationMs : ℤ
  ongoing : Bool
  notCalled : Bool
  counts : OutageSignal
  deriving DecidableEq

/-! ### The outages -/

/-- The report's window, cut by the healthy runs that started strictly inside it. -/
def outageBounds (runs : List DatedRun) (windowStart windowEnd : ℤ) : List ℤ :=
  let healthy := ((runs.filter (outcomeOf · = .healthy)).map (·.startedAt)).insertionSort (· ≤ ·)
  windowStart ::
    ((healthy.filter fun startedAt => windowStart < startedAt ∧ startedAt < windowEnd) ++
      [windowEnd])

/-- The runs that started strictly inside an outage, the healthy ones apart. -/
def runsBetween (runs : List DatedRun) (start endAt : ℤ) : List DatedRun :=
  runs.filter fun run => start < run.startedAt ∧ run.startedAt < endAt ∧ outcomeOf run ≠ .healthy

/-- The minutes with rejected calls, from an outage's start on. -/
def minutesBetween (rejectedByMinute : InsertionMap ℤ ℕ) (start endAt : ℤ) : List (ℤ × ℕ) :=
  rejectedByMinute.entries.filter fun minute => start ≤ minute.1 ∧ minute.1 < endAt

/-- An outage, cut by what was recorded in it. -/
def outageMarks (runs : List DatedRun) (rejectedByMinute : InsertionMap ℤ ℕ)
    (start endAt : ℤ) : List ℤ :=
  let seen := (runsBetween runs start endAt).map (·.startedAt) ++
    (minutesBetween rejectedByMinute start endAt).map Prod.fst
  start :: (seen.insertionSort (· ≤ ·) ++ [endAt])

/-- What was seen in an outage. -/
def outageCounts (runs : List DatedRun) (rejectedByMinute : InsertionMap ℤ ℕ) (start endAt : ℤ) :
    OutageSignal :=
  let counts := (runsBetween runs start endAt).foldl
    (fun (counts : OutageSignal) run => counts.count (outcomeOf run)) {}
  (minutesBetween rejectedByMinute start endAt).foldl
    (fun counts minute => { counts with rejected := counts.rejected + minute.2 }) counts

/-- The report's entry for an outage. -/
def outageBetween (runs : List DatedRun) (rejectedByMinute : InsertionMap ℤ ℕ) (start endAt : ℤ)
    (ongoing : Bool) : ReportedOutage where
  start := start
  endAt := endAt
  durationMs := endAt - start
  ongoing := ongoing
  notCalled := (gaps (outageMarks runs rejectedByMinute start endAt)).any fun gap =>
    notCalledGapMs ≤ gap.2 - gap.1
  counts := outageCounts runs rejectedByMinute start endAt

/-- **Stretches of at least 15 minutes without a healthy run**, each with what was seen
inside it. The last one is still open at the end of the window. -/
def buildOutages (runs : List DatedRun) (rejectedByMinute : InsertionMap ℤ ℕ)
    (windowStart windowEnd : ℤ) : List ReportedOutage :=
  let bounds := outageBounds runs windowStart windowEnd
  ((gaps bounds).zipIdx 1).filterMap fun bound =>
    if bound.1.2 - bound.1.1 < outageThresholdMs then none
    else some (outageBetween runs rejectedByMinute bound.1.1 bound.1.2
      (bound.2 = bounds.length - 1))

section Bounds

variable {runs : List DatedRun} {rejectedByMinute : InsertionMap ℤ ℕ} {windowStart windowEnd : ℤ}

/-- A healthy run started then. -/
def HealthyStart (runs : List DatedRun) (t : ℤ) : Prop :=
  ∃ run ∈ runs, outcomeOf run = .healthy ∧ run.startedAt = t

/-- **The points that cut the window**: its ends, and the healthy starts strictly inside. -/
def CutPoint (runs : List DatedRun) (windowStart windowEnd t : ℤ) : Prop :=
  t = windowStart ∨ t = windowEnd ∨ (windowStart < t ∧ t < windowEnd ∧ HealthyStart runs t)

theorem mem_outageBounds {t : ℤ} :
    t ∈ outageBounds runs windowStart windowEnd ↔ CutPoint runs windowStart windowEnd t := by
  simp only [outageBounds, List.mem_cons, List.mem_append, List.mem_filter,
    List.mem_insertionSort, List.mem_map, List.not_mem_nil, or_false, decide_eq_true_eq, CutPoint,
    HealthyStart, and_assoc]
  refine or_congr_right (or_comm.trans (or_congr_right ?_))
  constructor
  · rintro ⟨hstart, hlow, hhigh⟩
    exact ⟨hlow, hhigh, hstart⟩
  · rintro ⟨hlow, hhigh, hstart⟩
    exact ⟨hstart, hlow, hhigh⟩

theorem pairwise_outageBounds (hle : windowStart ≤ windowEnd) :
    (outageBounds runs windowStart windowEnd).Pairwise (· ≤ ·) := by
  refine pairwise_between ((List.pairwise_insertionSort _ _).filter _) hle fun t ht => ?_
  obtain ⟨hlow, hhigh⟩ := of_decide_eq_true (List.mem_filter.mp ht).2
  exact ⟨hlow.le, hhigh.le⟩

/-- **An outage of the report is a long gap**; the last gap is the ongoing one. -/
theorem mem_buildOutages {o : ReportedOutage} :
    o ∈ buildOutages runs rejectedByMinute windowStart windowEnd ↔
      ∃ i p, (gaps (outageBounds runs windowStart windowEnd))[i]? = some p ∧
        outageThresholdMs ≤ p.2 - p.1 ∧
        o = outageBetween runs rejectedByMinute p.1 p.2
          (i + 1 = (outageBounds runs windowStart windowEnd).length - 1) := by
  rw [buildOutages, List.mem_filterMap]
  constructor
  · rintro ⟨⟨p, i⟩, hmem, ho⟩
    obtain ⟨hi, hp⟩ := List.mk_mem_zipIdx_iff_le_and_getElem?_sub.mp hmem
    dsimp only at ho
    split_ifs at ho with hshort
    refine ⟨i - 1, p, hp, not_lt.mp hshort, ?_⟩
    rw [Nat.sub_add_cancel hi]
    exact (Option.some.inj ho).symm
  · rintro ⟨i, p, hp, hlong, rfl⟩
    refine ⟨(p, i + 1), List.mk_mem_zipIdx_iff_le_and_getElem?_sub.mpr ⟨by omega, hp⟩, ?_⟩
    rw [if_neg (not_lt.mpr hlong)]

/-- The gap an outage fills. -/
theorem gap_of_mem {o : ReportedOutage}
    (ho : o ∈ buildOutages runs rejectedByMinute windowStart windowEnd) :
    (o.start, o.endAt) ∈ gaps (outageBounds runs windowStart windowEnd) ∧
      outageThresholdMs ≤ o.endAt - o.start ∧
      o = outageBetween runs rejectedByMinute o.start o.endAt o.ongoing := by
  obtain ⟨i, p, hp, hlong, rfl⟩ := mem_buildOutages.mp ho
  exact ⟨List.mem_of_getElem? hp, hlong, rfl⟩

/-- Every long gap is an outage. -/
theorem exists_mem_of_gap {p : ℤ × ℤ} (hp : p ∈ gaps (outageBounds runs windowStart windowEnd))
    (hlong : outageThresholdMs ≤ p.2 - p.1) :
    ∃ o ∈ buildOutages runs rejectedByMinute windowStart windowEnd,
      o.start = p.1 ∧ o.endAt = p.2 := by
  obtain ⟨i, hi⟩ := List.mem_iff_getElem?.mp hp
  exact ⟨_, mem_buildOutages.mpr ⟨i, p, hi, hlong, rfl⟩, rfl, rfl⟩

/-- **Only the last outage is ongoing**: it ends where the window does. -/
theorem end_eq_of_ongoing {o : ReportedOutage}
    (ho : o ∈ buildOutages runs rejectedByMinute windowStart windowEnd) (h : o.ongoing = true) :
    o.endAt = windowEnd := by
  obtain ⟨i, p, hp, -, rfl⟩ := mem_buildOutages.mp ho
  have hlast : i + 1 = (outageBounds runs windowStart windowEnd).length - 1 := of_decide_eq_true h
  have hsnd := (getElem?_gaps hp).2
  rw [hlast, ← List.getLast?_eq_getElem?] at hsnd
  have hend : (outageBounds runs windowStart windowEnd).getLast? = some windowEnd := by
    rw [outageBounds, List.getLast?_cons, List.getLast?_append]
    rfl
  exact Option.some.inj (hsnd.symm.trans hend)

/-- **Outages come in order**, one after the other. -/
theorem pairwise_buildOutages (hle : windowStart ≤ windowEnd) :
    (buildOutages runs rejectedByMinute windowStart windowEnd).Pairwise
      fun o o' => o.endAt ≤ o'.start := by
  have hgaps : (gaps (outageBounds runs windowStart windowEnd)).Pairwise fun p q => p.2 ≤ q.1 :=
    pairwise_gaps (pairwise_outageBounds hle)
  rw [← List.zipIdx_map_fst 1 (gaps _), List.pairwise_map] at hgaps
  rw [buildOutages, List.pairwise_filterMap]
  refine hgaps.imp fun {bound bound'} horder o ho o' ho' => ?_
  split_ifs at ho ho'
  rw [← Option.some.inj ho, ← Option.some.inj ho']
  exact horder

/-- Two outages that overlap are one. -/
theorem eq_of_overlap (hle : windowStart ≤ windowEnd) {o o' : ReportedOutage}
    (ho : o ∈ buildOutages runs rejectedByMinute windowStart windowEnd)
    (ho' : o' ∈ buildOutages runs rejectedByMinute windowStart windowEnd)
    (hlt : o.start < o'.endAt) (hlt' : o'.start < o.endAt) : o = o' := by
  have horder := List.pairwise_iff_getElem.mp
    (@pairwise_buildOutages runs rejectedByMinute windowStart windowEnd hle)
  obtain ⟨i, hi, rfl⟩ := List.mem_iff_getElem.mp ho
  obtain ⟨j, hj, rfl⟩ := List.mem_iff_getElem.mp ho'
  rcases lt_trichotomy i j with hij | rfl | hij
  · exact absurd hlt' (not_lt.mpr (horder i j hi hj hij))
  · rfl
  · exact absurd hlt (not_lt.mpr (horder j i hj hi hij))

/-- No healthy run started strictly inside an outage. -/
theorem not_healthy_inside (hle : windowStart ≤ windowEnd) {o : ReportedOutage}
    (ho : o ∈ buildOutages runs rejectedByMinute windowStart windowEnd) {t : ℤ}
    (ht : HealthyStart runs t) : ¬(o.start < t ∧ t < o.endAt) := by
  rintro ⟨hlt, hgt⟩
  obtain ⟨hstart, hend, -, hfree⟩ := gaps_spec (pairwise_outageBounds hle) (gap_of_mem ho).1
  have hlow : windowStart ≤ o.start := by
    rcases mem_outageBounds.mp hstart with heq | heq | hin <;> omega
  have hhigh : o.endAt ≤ windowEnd := by
    rcases mem_outageBounds.mp hend with heq | heq | hin <;> omega
  have hcut : CutPoint runs windowStart windowEnd t :=
    Or.inr (Or.inr ⟨by omega, by omega, ht⟩)
  rcases hfree t (mem_outageBounds.mpr hcut) with hle | hle <;> dsimp only at hle <;> omega

/-- **The outages are the long stretches between neighbouring cut points.** -/
theorem exists_outage_iff (hle : windowStart ≤ windowEnd) {x y : ℤ} :
    (∃ o ∈ buildOutages runs rejectedByMinute windowStart windowEnd,
        o.start = x ∧ o.endAt = y) ↔
      CutPoint runs windowStart windowEnd x ∧ CutPoint runs windowStart windowEnd y ∧
        (∀ t, CutPoint runs windowStart windowEnd t → ¬(x < t ∧ t < y)) ∧
        outageThresholdMs ≤ y - x := by
  have hsorted : (outageBounds runs windowStart windowEnd).Pairwise (· ≤ ·) :=
    pairwise_outageBounds hle
  have hpos : 0 < outageThresholdMs := by decide
  constructor
  · rintro ⟨o, ho, rfl, rfl⟩
    obtain ⟨hgap, hlong, -⟩ := gap_of_mem ho
    obtain ⟨hstart, hend, hfree⟩ := (mem_gaps_iff hsorted (by omega)).mp hgap
    refine ⟨mem_outageBounds.mp hstart, mem_outageBounds.mp hend, fun t ht hin => ?_, hlong⟩
    rcases hfree t (mem_outageBounds.mpr ht) with h | h <;> omega
  · rintro ⟨hx, hy, hfree, hlong⟩
    refine exists_mem_of_gap (p := (x, y)) ((mem_gaps_iff hsorted (by omega)).mpr
      ⟨mem_outageBounds.mpr hx, mem_outageBounds.mpr hy, fun t ht => ?_⟩) hlong
    have := hfree t (mem_outageBounds.mp ht)
    omega

/-- **A long stretch without a healthy start lies in exactly one outage.** -/
theorem existsUnique_outage (hle : windowStart ≤ windowEnd) {x y : ℤ} (hx : windowStart ≤ x)
    (hy : y ≤ windowEnd) (hlong : outageThresholdMs ≤ y - x)
    (hfree : ∀ t, HealthyStart runs t → ¬(x < t ∧ t < y)) :
    ∃! o, o ∈ buildOutages runs rejectedByMinute windowStart windowEnd ∧
      o.start ≤ x ∧ y ≤ o.endAt := by
  have hsorted : (outageBounds runs windowStart windowEnd).Pairwise (· ≤ ·) :=
    pairwise_outageBounds hle
  have hpos : 0 < outageThresholdMs := by decide
  have hcut : ∀ t ∈ outageBounds runs windowStart windowEnd, t ≤ x ∨ y ≤ t := by
    intro t ht
    rcases mem_outageBounds.mp ht with heq | heq | ⟨-, -, hstart⟩
    · omega
    · omega
    · have := hfree t hstart
      omega
  obtain ⟨p, hp, hpx, hpy⟩ := exists_gap hsorted hx (x := x) (y := y) (by omega)
    ⟨windowEnd, mem_outageBounds.mpr (Or.inr (Or.inl rfl)), hy⟩ hcut
  have hwide : outageThresholdMs ≤ p.2 - p.1 := by omega
  obtain ⟨o, ho, hstart, hend⟩ := @exists_mem_of_gap runs rejectedByMinute _ _ p hp hwide
  refine ⟨o, ⟨ho, by omega, by omega⟩, ?_⟩
  rintro o' ⟨ho', hx', hy'⟩
  exact eq_of_overlap hle ho' ho (by omega) (by omega)

end Bounds

/-! ### What was seen in an outage -/

/-- How often an outcome was counted. -/
def OutageSignal.seen (signal : OutageSignal) : RunOutcome → ℕ
  | .healthy => 0
  | .noPrice => signal.noPrice
  | .failed => signal.failed
  | .skipped => signal.skipped

theorem seen_count (signal : OutageSignal) {outcome : RunOutcome} (hne : outcome ≠ .healthy)
    (other : RunOutcome) :
    (signal.count other).seen outcome = signal.seen outcome + if other = outcome then 1 else 0 := by
  cases outcome <;> cases other <;> first | rfl | exact absurd rfl hne

theorem seen_foldl_count (runs : List DatedRun) (signal : OutageSignal) {outcome : RunOutcome}
    (hne : outcome ≠ .healthy) :
    (runs.foldl (fun (counts : OutageSignal) run => counts.count (outcomeOf run)) signal).seen
        outcome = signal.seen outcome + runs.countP (outcomeOf · = outcome) := by
  induction runs generalizing signal with
  | nil => rfl
  | cons run runs ih =>
    rw [List.foldl_cons, ih, seen_count signal hne, List.countP_cons]
    simp only [decide_eq_true_eq]
    omega

/-- Rejected calls are no runs. -/
theorem seen_foldl_rejected (minutes : List (ℤ × ℕ)) (signal : OutageSignal)
    (outcome : RunOutcome) :
    (minutes.foldl (fun (counts : OutageSignal) minute =>
      { counts with rejected := counts.rejected + minute.2 }) signal).seen outcome =
        signal.seen outcome := by
  induction minutes generalizing signal with
  | nil => rfl
  | cons minute minutes ih =>
    rw [List.foldl_cons, ih]
    cases outcome <;> rfl

theorem rejected_foldl_rejected (minutes : List (ℤ × ℕ)) (signal : OutageSignal) :
    (minutes.foldl (fun (counts : OutageSignal) minute =>
      { counts with rejected := counts.rejected + minute.2 }) signal).rejected =
        signal.rejected + (minutes.map Prod.snd).sum := by
  induction minutes generalizing signal with
  | nil => rfl
  | cons minute minutes ih =>
    rw [List.foldl_cons, ih, List.map_cons, List.sum_cons, ← Nat.add_assoc]

/-- Runs are no rejected calls. -/
theorem rejected_foldl_count (runs : List DatedRun) (signal : OutageSignal) :
    (runs.foldl (fun (counts : OutageSignal) run => counts.count (outcomeOf run))
      signal).rejected = signal.rejected := by
  induction runs generalizing signal with
  | nil => rfl
  | cons run runs ih =>
    rw [List.foldl_cons, ih]
    cases outcomeOf run <;> rfl

section Seen

variable {runs : List DatedRun} {rejectedByMinute : InsertionMap ℤ ℕ} {start endAt : ℤ}

/-- **Each outcome is counted by itself.** -/
theorem seen_outageCounts {outcome : RunOutcome} (hne : outcome ≠ .healthy) :
    (outageCounts runs rejectedByMinute start endAt).seen outcome =
      runs.countP fun run =>
        start < run.startedAt ∧ run.startedAt < endAt ∧ outcomeOf run = outcome := by
  rw [outageCounts, seen_foldl_rejected, seen_foldl_count _ _ hne, runsBetween, List.countP_filter]
  have hzero : OutageSignal.seen {} outcome = 0 := by cases outcome <;> rfl
  rw [hzero, Nat.zero_add]
  refine List.countP_congr fun run _ => ?_
  simp only [Bool.and_eq_true, decide_eq_true_eq]
  constructor
  · rintro ⟨heq, hlow, hhigh, -⟩
    exact ⟨hlow, hhigh, heq⟩
  · rintro ⟨hlow, hhigh, heq⟩
    exact ⟨heq, hlow, hhigh, heq ▸ hne⟩

/-- **The rejected calls of an outage** are those of the minutes that start in it. -/
theorem rejected_outageCounts :
    (outageCounts runs rejectedByMinute start endAt).rejected =
      rejectedByMinute.sumOf fun t => start ≤ t ∧ t < endAt := by
  rw [outageCounts, rejected_foldl_rejected, rejected_foldl_count]
  exact Nat.zero_add _

theorem mem_outageMarks {t : ℤ} :
    t ∈ outageMarks runs rejectedByMinute start endAt ↔
      t = start ∨ t = endAt ∨
        (∃ run ∈ runs, run.startedAt = t ∧ start < t ∧ t < endAt ∧ outcomeOf run ≠ .healthy) ∨
        (∃ minute ∈ rejectedByMinute.entries, minute.1 = t ∧ start ≤ t ∧ t < endAt) := by
  have hrun : t ∈ (runsBetween runs start endAt).map (·.startedAt) ↔
      ∃ run ∈ runs, run.startedAt = t ∧ start < t ∧ t < endAt ∧ outcomeOf run ≠ .healthy := by
    simp only [runsBetween, List.mem_map, List.mem_filter, decide_eq_true_eq]
    constructor
    · rintro ⟨run, ⟨hmem, hlow, hhigh, hne⟩, rfl⟩
      exact ⟨run, hmem, rfl, hlow, hhigh, hne⟩
    · rintro ⟨run, hmem, rfl, hlow, hhigh, hne⟩
      exact ⟨run, ⟨hmem, hlow, hhigh, hne⟩, rfl⟩
  have hminute : t ∈ (minutesBetween rejectedByMinute start endAt).map Prod.fst ↔
      ∃ minute ∈ rejectedByMinute.entries, minute.1 = t ∧ start ≤ t ∧ t < endAt := by
    simp only [minutesBetween, List.mem_map, List.mem_filter, decide_eq_true_eq]
    constructor
    · rintro ⟨minute, ⟨hmem, hlow, hhigh⟩, rfl⟩
      exact ⟨minute, hmem, rfl, hlow, hhigh⟩
    · rintro ⟨minute, hmem, rfl, hlow, hhigh⟩
      exact ⟨minute, ⟨hmem, hlow, hhigh⟩, rfl⟩
  rw [outageMarks, List.mem_cons, List.mem_append, List.mem_insertionSort, List.mem_append,
    List.mem_singleton, hrun, hminute]
  exact or_congr_right or_comm

theorem pairwise_outageMarks (hle : start ≤ endAt) :
    (outageMarks runs rejectedByMinute start endAt).Pairwise (· ≤ ·) := by
  refine pairwise_between (List.pairwise_insertionSort _ _) hle fun t ht => ?_
  have hmark : t ∈ outageMarks runs rejectedByMinute start endAt :=
    List.mem_cons_of_mem _ (List.mem_append_left _ ht)
  rcases mem_outageMarks.mp hmark with heq | heq | ⟨_, -, -, hlow, hhigh, -⟩ | ⟨_, -, -, hin⟩ <;>
    omega

/-- **When the check was not called**: for three minutes nothing was recorded. -/
theorem notCalled_iff (hle : start ≤ endAt)
    (hhealthy : ∀ t, HealthyStart runs t → ¬(start < t ∧ t < endAt)) (ongoing : Bool) :
    (outageBetween runs rejectedByMinute start endAt ongoing).notCalled = true ↔
      ∃ x y, start ≤ x ∧ y ≤ endAt ∧ notCalledGapMs ≤ y - x ∧
        (∀ run ∈ runs, ¬(x < run.startedAt ∧ run.startedAt < y)) ∧
        ∀ minute ∈ rejectedByMinute.entries, ¬(x < minute.1 ∧ minute.1 < y) := by
  have hsorted : (outageMarks runs rejectedByMinute start endAt).Pairwise (· ≤ ·) :=
    pairwise_outageMarks hle
  have hend : endAt ∈ outageMarks runs rejectedByMinute start endAt :=
    mem_outageMarks.mpr (Or.inr (Or.inl rfl))
  have hlast : ∀ t ∈ outageMarks runs rejectedByMinute start endAt, t ≤ endAt := by
    intro t ht
    rcases mem_outageMarks.mp ht with heq | heq | ⟨_, -, -, -, hhigh, -⟩ | ⟨_, -, -, hin⟩ <;> omega
  have hpos : 0 < notCalledGapMs := by decide
  have hwide := exists_wide_gap_iff hsorted hend hlast hpos
  simp only [outageBetween, List.any_eq_true, decide_eq_true_eq]
  refine hwide.trans (exists_congr fun x => exists_congr fun y => ?_)
  refine and_congr_right fun hx => and_congr_right fun hy => and_congr_right fun _ => ?_
  -- What is recorded strictly inside the stretch is a mark, and the other way round.
  constructor
  · intro hfree
    refine ⟨fun run hrun hin => ?_, fun minute hminute hin => ?_⟩
    · have hinside : start < run.startedAt ∧ run.startedAt < endAt := by omega
      have hne : outcomeOf run ≠ .healthy := fun heq =>
        hhealthy run.startedAt ⟨run, hrun, heq, rfl⟩ hinside
      refine hfree run.startedAt (mem_outageMarks.mpr (Or.inr (Or.inr (Or.inl ?_)))) hin
      exact ⟨run, hrun, rfl, hinside.1, hinside.2, hne⟩
    · refine hfree minute.1 (mem_outageMarks.mpr (Or.inr (Or.inr (Or.inr ?_)))) hin
      exact ⟨minute, hminute, rfl, by omega, by omega⟩
  · rintro ⟨hruns, hminutes⟩ t ht hin
    rcases mem_outageMarks.mp ht with heq | heq | ⟨run, hrun, rfl, -⟩ | ⟨minute, hminute, rfl, -⟩
    · omega
    · omega
    · exact hruns run hrun hin
    · exact hminutes minute hminute hin

end Seen

/-! ### The report's list -/

/-- **What the report promises about its outages**, for any log and any rejected calls. They
are exactly the stretches of at least 15 minutes between two neighbouring cut points of the
window, in order, without a healthy start strictly inside; every stretch that long without
one lies in exactly one of them; each counts the runs strictly inside it by their outcome,
and no other one does; only one that ends with the window is ongoing; and the check was not
called in one if for three minutes nothing was recorded. -/
theorem buildOutages_spec (runs : List DatedRun) (rejectedByMinute : InsertionMap ℤ ℕ)
    {windowStart windowEnd : ℤ} (hle : windowStart ≤ windowEnd) :
    let outages := buildOutages runs rejectedByMinute windowStart windowEnd
    (∀ x y, (∃ o ∈ outages, o.start = x ∧ o.endAt = y) ↔
      CutPoint runs windowStart windowEnd x ∧ CutPoint runs windowStart windowEnd y ∧
        (∀ t, CutPoint runs windowStart windowEnd t → ¬(x < t ∧ t < y)) ∧
        outageThresholdMs ≤ y - x) ∧
    (outages.Pairwise fun o o' => o.endAt ≤ o'.start) ∧
    (∀ o ∈ outages, ∀ t, HealthyStart runs t → ¬(o.start < t ∧ t < o.endAt)) ∧
    (∀ x y, windowStart ≤ x → y ≤ windowEnd → outageThresholdMs ≤ y - x →
      (∀ t, HealthyStart runs t → ¬(x < t ∧ t < y)) →
      ∃! o, o ∈ outages ∧ o.start ≤ x ∧ y ≤ o.endAt) ∧
    (∀ o ∈ outages, ∀ outcome ≠ RunOutcome.healthy, o.counts.seen outcome = runs.countP fun run =>
      o.start < run.startedAt ∧ run.startedAt < o.endAt ∧ outcomeOf run = outcome) ∧
    (∀ o ∈ outages, ∀ o' ∈ outages, ∀ t, o.start < t ∧ t < o.endAt →
      o'.start < t ∧ t < o'.endAt → o = o') ∧
    (∀ o ∈ outages, o.ongoing = true → o.endAt = windowEnd) ∧
    ∀ o ∈ outages, (o.notCalled = true ↔
      ∃ x y, o.start ≤ x ∧ y ≤ o.endAt ∧ notCalledGapMs ≤ y - x ∧
        (∀ run ∈ runs, ¬(x < run.startedAt ∧ run.startedAt < y)) ∧
        ∀ minute ∈ rejectedByMinute.entries, ¬(x < minute.1 ∧ minute.1 < y)) := by
  have hpos : 0 < outageThresholdMs := by decide
  refine ⟨fun x y => exists_outage_iff hle, pairwise_buildOutages hle,
    fun o ho t ht => not_healthy_inside hle ho ht,
    fun x y hx hy hlong hfree => existsUnique_outage hle hx hy hlong hfree,
    fun o ho outcome hne => ?_, fun o ho o' ho' t ht ht' => ?_, fun o ho => end_eq_of_ongoing ho,
    fun o ho => ?_⟩
  · rw [(gap_of_mem ho).2.2]
    exact seen_outageCounts hne
  · exact eq_of_overlap hle ho ho' (by omega) (by omega)
  · obtain ⟨-, hlong, heq⟩ := gap_of_mem ho
    rw [heq]
    exact notCalled_iff (by omega) (fun t ht => not_healthy_inside hle ho ht) o.ongoing

/-- Healthy until minute 9, a run without prices in minute 25, rejected from minute 41 on,
and healthy again in minute 61. -/
theorem buildOutages_spec_hour :
    let runs := [⟨minutes 61, some .healthy⟩, ⟨minutes 9, none⟩, ⟨minutes 25, some .noPrice⟩,
      ⟨minutes 0, some .healthy⟩]
    let rejected := InsertionMap.ofList [(minutes 41, 20)]
    buildOutages runs rejected (minutes 0) (minutes 70) =
        [⟨minutes 9, minutes 61, minutes 52, false, true, ⟨20, 1, 0, 0⟩⟩] ∧
      (buildOutages runs rejected (minutes 0) (minutes 70)).Pairwise
        fun o o' => o.endAt ≤ o'.start :=
  ⟨by decide +kernel, (buildOutages_spec _ _ (by decide)).2.1⟩

end Monitor

end CryptoZaloBot
