import CryptoZaloBot.Monitor.Rejections
import CryptoZaloBot.Monitor.Report

/-!
# Rejected calls, reported twice

How many calls were rejected in an outage is told in two places. The owner's message counts
what is logged from the minute the outage began in (`countRejectionsSince`), comparing the
texts of minutes. The report flattens the same hashes into a map from minutes to counts and
compares times: a minute is in an outage if it *starts* in it.

The two differ in the minute the outage began in, unless it began with the minute, and in
minutes that are not over before the report is made
(`CryptoZaloBot.Monitor.rejected_eq_count_iff`). The last healthy run is rarely on the
minute, so that what is rejected right after it is in the message and not in the report.
-/

namespace CryptoZaloBot

namespace Monitor

open IsoTime

/-! ### The report's map of minutes -/

/-- One field of a day's hash, if the day and the field make a date. -/
def addField (day : List Char) (byMinute : InsertionMap ℤ ℕ) (field : List Char × ℕ) :
    InsertionMap ℤ ℕ :=
  match dateParse (day ++ 'T' :: (field.1 ++ ":00.000Z".toList)) with
  | none => byMinute
  | some t => byMinute.increment t field.2

/-- **Per-day hashes, flattened into a map from minute starts to counts.** -/
def flattenRejections (hashesByDay : List (List Char × RejectionHash)) : InsertionMap ℤ ℕ :=
  hashesByDay.foldl (fun byMinute day => day.2.counts.entries.foldl (addField day.1) byMinute)
    InsertionMap.empty

/-- The hashes the report reads: today's and yesterday's. -/
def readRejections (hgetall : List Char → RejectionHash) (now : ℤ) :
    List (List Char × RejectionHash) :=
  [dayText now, dayText (now - dayMs)].map fun day => (day, hgetall day)

/-- Whether a field of a day stands for a time that meets a condition. -/
def FieldAt (p : ℤ → Prop) (day : List Char) (field : List Char × ℕ) : Prop :=
  ∃ t ∈ dateParse (day ++ 'T' :: (field.1 ++ ":00.000Z".toList)), p t

instance (p : ℤ → Prop) [DecidablePred p] (day : List Char) : DecidablePred (FieldAt p day) :=
  fun field => by
    unfold FieldAt
    infer_instance

theorem fieldAt_iff {p : ℤ → Prop} {day : List Char} {field : List Char × ℕ} {t : ℤ}
    (h : dateParse (day ++ 'T' :: (field.1 ++ ":00.000Z".toList)) = some t) :
    FieldAt p day field ↔ p t := by
  constructor
  · rintro ⟨t', ht', hp⟩
    rw [h, Option.mem_some_iff] at ht'
    exact ht' ▸ hp
  · exact fun hp => ⟨t, h, hp⟩

section Sums

variable (p : ℤ → Prop) [DecidablePred p]

theorem sumOf_addField (day : List Char) (byMinute : InsertionMap ℤ ℕ) (field : List Char × ℕ) :
    (addField day byMinute field).sumOf p =
      byMinute.sumOf p + if FieldAt p day field then field.2 else 0 := by
  rw [addField]
  cases hparse : dateParse (day ++ 'T' :: (field.1 ++ ":00.000Z".toList)) with
  | none =>
    have hnot : ¬FieldAt p day field := by
      rintro ⟨t, ht, -⟩
      rw [hparse] at ht
      exact absurd ht (Option.not_mem_none t)
    rw [if_neg hnot, Nat.add_zero]
  | some t =>
    rw [InsertionMap.sumOf_increment]
    simp only [fieldAt_iff hparse]

theorem sumOf_foldl_addField (day : List Char) (byMinute : InsertionMap ℤ ℕ)
    (fields : List (List Char × ℕ)) :
    (fields.foldl (addField day) byMinute).sumOf p =
      byMinute.sumOf p + ((fields.filter (FieldAt p day)).map Prod.snd).sum := by
  induction fields generalizing byMinute with
  | nil => rfl
  | cons field fields ih =>
    rw [List.foldl_cons, ih, sumOf_addField]
    by_cases hfield : FieldAt p day field <;> simp [hfield, Nat.add_assoc]

/-- **What the report's map counts**, from the fields of the two days. -/
theorem sumOf_flattenRejections (hgetall : List Char → RejectionHash) (now : ℤ) :
    (flattenRejections (readRejections hgetall now)).sumOf p =
      (((hgetall (dayText now)).counts.entries.filter (FieldAt p (dayText now))).map
          Prod.snd).sum +
        (((hgetall (dayText (now - dayMs))).counts.entries.filter
          (FieldAt p (dayText (now - dayMs)))).map Prod.snd).sum := by
  simp only [flattenRejections, readRejections, List.map_cons, List.map_nil, List.foldl_cons,
    List.foldl_nil, sumOf_foldl_addField, InsertionMap.sumOf_empty, Nat.zero_add]

end Sums

/-! ### The fields of a day -/

/-- **A field of a day's hash is a minute of that day.** -/
theorem exists_minute {x : ℤ} (hx : InRange x) {hash : RejectionHash} {field : List Char × ℕ}
    (hfield : field ∈ hash.counts.entries) :
    ∃ t, t % minuteMs = 0 ∧ t / dayMs = x / dayMs ∧ field.1 = clockText (minuteOfDay t) ∧
      dateParse (dayText x ++ 'T' :: (field.1 ++ ":00.000Z".toList)) = some t := by
  obtain ⟨minute, hminute, hclock⟩ := hash.clock field hfield
  obtain ⟨hday, hlt⟩ := dayOf_spec hx
  have hparse := dateParse_text hlt hminute
  have hsub : (dayOf x : ℤ) - epochDay = x / dayMs := by omega
  rw [hsub] at hparse
  refine ⟨_, ?_, ?_, ?_, hclock ▸ hparse⟩
  · simp only [dayMs, minuteMs]
    omega
  · simp only [dayMs, minuteMs]
    omega
  · have hmin : minuteOfDay (x / dayMs * dayMs + minute * minuteMs) = minute := by
      simp only [minuteOfDay, dayMs, minuteMs]
      omega
    rw [hclock, hmin]

/-- A minute of a day is a field of the day's hash. -/
theorem dateParse_minute {x t : ℤ} (hx : InRange x) (hday : t / dayMs = x / dayMs)
    (hstart : t % minuteMs = 0) :
    dateParse (dayText x ++ 'T' :: (clockText (minuteOfDay t) ++ ":00.000Z".toList)) = some t := by
  obtain ⟨hnumber, hlt⟩ := dayOf_spec hx
  have hparse := dateParse_text hlt (minuteOfDay_lt t)
  have htime : ((dayOf x : ℤ) - epochDay) * dayMs + minuteOfDay t * minuteMs = t := by
    have hsub : (dayOf x : ℤ) - epochDay = t / dayMs := by omega
    rw [hsub]
    simp only [minuteOfDay, dayMs, minuteMs] at *
    omega
  rw [htime] at hparse
  exact hparse

section Day

variable {x S now : ℤ}

/-- The text of a minute that is a field of the day of another time. -/
theorem countedSince_field {t : ℤ} (hx : InRange x) (hS : InRange S)
    (hday : t / dayMs = x / dayMs) :
    CountedSince S (dayText x) (clockText (minuteOfDay t)) ↔ S / minuteMs ≤ t / minuteMs := by
  have ht : InRange t := by
    obtain ⟨hlow, hhigh⟩ := hx
    refine ⟨?_, ?_⟩ <;> simp only [dayMs] at * <;> omega
  rw [← dayText_congr hday]
  exact countedSince_iff hS ht

/-- What the report counts of a day is counted by the message. -/
theorem counted_of_fieldAt (hx : InRange x) (hS : InRange S) {hash : RejectionHash}
    {field : List Char × ℕ} (hfield : field ∈ hash.counts.entries)
    (h : FieldAt (fun t => S ≤ t ∧ t < now) (dayText x) field) :
    CountedSince S (dayText x) field.1 := by
  obtain ⟨t, -, hday, hclock, hparse⟩ := exists_minute hx hfield
  rw [hclock, countedSince_field hx hS hday]
  exact Int.ediv_le_ediv (by decide) ((fieldAt_iff hparse).mp h).1

theorem day_counts_le (hx : InRange x) (hS : InRange S) (hash : RejectionHash) :
    ((hash.counts.entries.filter (FieldAt (fun t => S ≤ t ∧ t < now) (dayText x))).map
        Prod.snd).sum ≤ hash.counts.sumOf (CountedSince S (dayText x)) :=
  sum_filter_le Prod.snd fun _ hfield => counted_of_fieldAt hx hS hfield

/-- **Where the two counts of a day differ.** -/
theorem day_counts_eq_iff (hx : InRange x) (hS : InRange S) (hle : S ≤ now)
    (hash : RejectionHash) :
    ((hash.counts.entries.filter (FieldAt (fun t => S ≤ t ∧ t < now) (dayText x))).map
        Prod.snd).sum = hash.counts.sumOf (CountedSince S (dayText x)) ↔
      ∀ t count, t % minuteMs = 0 → t / dayMs = x / dayMs →
        (clockText (minuteOfDay t), count) ∈ hash.counts.entries →
        (t < S ∧ S < t + minuteMs) ∨ now ≤ t → count = 0 := by
  have hpos : 0 < minuteMs := by decide
  refine (sum_filter_eq_iff Prod.snd fun field hfield =>
    counted_of_fieldAt hx hS hfield).trans ?_
  constructor
  · intro hzero t count hstart hday hmem hbetween
    refine hzero _ hmem ?_ ?_
    · rw [countedSince_field hx hS hday]
      simp only [minuteMs] at *
      omega
    · rw [fieldAt_iff (dateParse_minute hx hday hstart)]
      omega
  · intro hzero field hfield hcounted hnot
    obtain ⟨t, hstart, hday, hclock, hparse⟩ := exists_minute hx hfield
    rw [hclock, countedSince_field hx hS hday] at hcounted
    rw [fieldAt_iff hparse] at hnot
    refine hzero t field.2 hstart hday (hclock ▸ hfield) ?_
    simp only [minuteMs] at *
    omega

end Day

/-! ### The two counts -/

/-- **A minute with rejected calls** in the hashes of the last two days. -/
def RejectedAt (hgetall : List Char → RejectionHash) (now t : ℤ) (count : ℕ) : Prop :=
  t % minuteMs = 0 ∧ (t / dayMs = now / dayMs ∨ t / dayMs = now / dayMs - 1) ∧
    (clockText (minuteOfDay t), count) ∈ (hgetall (dayText t)).counts.entries

/-- **What the message counts**, from the fields of the two days. -/
theorem countRejectionsSince_eq {hgetall : List Char → RejectionHash} {S now : ℤ}
    (hnow : ClockTime now) (hle : S ≤ now) (hday : now / dayMs - 1 ≤ S / dayMs) :
    countRejectionsSince hgetall S now =
      (hgetall (dayText now)).counts.sumOf (CountedSince S (dayText now)) +
        (hgetall (dayText (now - dayMs))).counts.sumOf
          (CountedSince S (dayText (now - dayMs))) := by
  rw [countRejectionsSince, rejectionDays_eq hnow hle hday]
  split_ifs with hsame
  · -- Nothing of yesterday is in today's minutes.
    have hyesterday : (hgetall (dayText (now - dayMs))).counts.sumOf
        (CountedSince S (dayText (now - dayMs))) = 0 := by
      rw [InsertionMap.sumOf, List.filter_eq_nil_iff.mpr]
      · rfl
      · intro field hfield hcounted
        have hx := inRange_yesterday hnow
        have hS : InRange S := inRange_of_recent hnow hle (by omega)
        obtain ⟨t, -, htday, hclock, -⟩ := exists_minute hx hfield
        rw [decide_eq_true_iff, hclock, countedSince_field hx hS htday] at hcounted
        simp only [dayMs, minuteMs] at *
        omega
    rw [hyesterday, List.map_singleton, List.sum_singleton, Nat.add_zero]
  · rw [List.map_cons, List.map_singleton, List.sum_cons, List.sum_singleton]

/-- **The report and the message agree on an outage** that began at a time of the last two
days and is still open if and only if no call is recorded in the minute it began in, unless
it began with that minute, nor in a minute that starts when the report is made, or later. -/
theorem rejected_eq_count_iff (hgetall : List Char → RejectionHash) (runs : List DatedRun)
    {windowStart S now : ℤ} (hnow : ClockTime now) (hday : now / dayMs - 1 ≤ S / dayMs)
    {o : ReportedOutage}
    (ho : o ∈ buildOutages runs (flattenRejections (readRejections hgetall now)) windowStart now)
    (hopen : o.ongoing = true) (hstart : o.start = S) :
    o.counts.rejected = countRejectionsSince hgetall S now ↔
      ∀ t count, RejectedAt hgetall now t count →
        (t < S ∧ S < t + minuteMs) ∨ now ≤ t → count = 0 := by
  obtain ⟨-, hlong, heq⟩ := gap_of_mem ho
  have hend := end_eq_of_ongoing ho hopen
  rw [hstart, hend] at hlong heq
  have hle : S ≤ now := by
    have hpos : 0 < outageThresholdMs := by decide
    omega
  have hS : InRange S := inRange_of_recent hnow hle (by omega)
  have hx := inRange_yesterday hnow
  have hyesterday := sub_dayMs_ediv now
  have hreport : o.counts.rejected = (flattenRejections (readRejections hgetall now)).sumOf
      fun t => S ≤ t ∧ t < now := by
    rw [heq]
    exact rejected_outageCounts
  rw [hreport, sumOf_flattenRejections, countRejectionsSince_eq hnow hle hday]
  have htoday := day_counts_eq_iff hnow.2 hS hle (hgetall (dayText now))
  have hbefore := day_counts_eq_iff hx hS hle (hgetall (dayText (now - dayMs)))
  constructor
  · rintro hsum t count ⟨hminute, htday, hmem⟩ hbetween
    -- Neither day counts more in the report, so neither counts less.
    have hless : _ ≤ _ := @day_counts_le now S now hnow.2 hS (hgetall (dayText now))
    have hless' : _ ≤ _ :=
      @day_counts_le (now - dayMs) S now hx hS (hgetall (dayText (now - dayMs)))
    rcases htday with htday | htday
    · rw [dayText_congr htday] at hmem
      exact htoday.mp (by omega) t count hminute htday hmem hbetween
    · rw [← hyesterday] at htday
      rw [dayText_congr htday] at hmem
      exact hbefore.mp (by omega) t count hminute htday hmem hbetween
  · intro hzero
    rw [htoday.mpr, hbefore.mpr]
    · intro t count hminute htday hmem hbetween
      refine hzero t count ⟨hminute, Or.inr (htday.trans hyesterday), ?_⟩ hbetween
      rw [dayText_congr htday]
      exact hmem
    · intro t count hminute htday hmem hbetween
      refine hzero t count ⟨hminute, Or.inl htday, ?_⟩ hbetween
      rw [dayText_congr htday]
      exact hmem

/-- A log of some calls rejected in one minute. -/
def rejectedOnce (t : ℤ) (count : ℕ) (day : List Char) : RejectionHash :=
  if day = dayText t then RejectionHash.empty.increment t count else .empty

/-- The last healthy run was ten seconds past noon, and it is one o'clock: seven calls
rejected at five past noon are in both counts. -/
theorem rejected_eq_count_iff_hour :
    let hgetall := rejectedOnce 43500000 7
    ∃ o ∈ buildOutages [⟨43210000, some .healthy⟩]
        (flattenRejections (readRejections hgetall 46800000)) 43210000 46800000,
      o.counts.rejected = 7 ∧ ∀ t count, RejectedAt hgetall 46800000 t count →
        (t < 43210000 ∧ 43210000 < t + minuteMs) ∨ 46800000 ≤ t → count = 0 := by
  have ho : (⟨43210000, 46800000, 3590000, true, true, ⟨7, 0, 0, 0⟩⟩ : ReportedOutage) ∈
      buildOutages [⟨43210000, some .healthy⟩]
        (flattenRejections (readRejections (rejectedOnce 43500000 7) 46800000)) 43210000
          46800000 := by
    decide +kernel
  refine ⟨_, ho, rfl, ?_⟩
  exact (rejected_eq_count_iff _ _ (by decide +kernel) (by decide +kernel) ho rfl rfl).mp
    (by decide +kernel)

/-- Seven calls rejected in the minute of noon, right after that run, are in the message
only. -/
theorem rejected_ne_count_noon :
    let hgetall := rejectedOnce 43230000 7
    HealthyStart [⟨43210000, some .healthy⟩] 43210000 ∧
      ∃ o ∈ buildOutages [⟨43210000, some .healthy⟩]
          (flattenRejections (readRejections hgetall 46800000)) 43210000 46800000,
        o.ongoing = true ∧ o.start = 43210000 ∧ o.counts.rejected = 0 ∧
          countRejectionsSince hgetall 43210000 46800000 = 7 := by
  refine ⟨⟨_, List.mem_singleton_self _, rfl, rfl⟩, ?_⟩
  decide +kernel

end Monitor

end CryptoZaloBot
