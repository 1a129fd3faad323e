import CryptoZaloBot.Base.Counts
import CryptoZaloBot.Base.IsoTime
import CryptoZaloBot.Base.System

/-!
# Rejected calls

`PriceAlertsCronSecretGuard.onRejected`, `PriceAlertsService.recordRejections` and
`countRejectionsSince`: calls with a wrong secret are counted, so that the owner can be told
of them. Anyone can make such calls, so the guard writes at most once a minute. What it
holds back in between is written with the next call that may write – under the minute of
*that* call.

The guard keeps a number only. `CryptoZaloBot.Monitor.Holding` is the guard with the times
of the calls it holds back, which is what its promises are about. They are put together in
`CryptoZaloBot.Monitor.rejections_counted`: the writes are a minute apart and no call is
lost, and the count is a lower bound as long as no call is written under a later minute
than its own. A call that is held back and written an hour later is counted as if it had
come then.
-/

namespace CryptoZaloBot

namespace Monitor

open IsoTime

/-! ### The rejection log -/

/-- Days of the rejection log are kept this long after the last write. -/
def rejectionLogTtlSeconds : ℕ := 3 * 24 * 60 * 60

/-- Rejected calls are written at most once in this time. -/
def rejectionFlushIntervalMs : ℤ := 60000

/-- The rejected calls of a day, by `HH:MM`. -/
structure RejectionHash where
  counts : InsertionMap (List Char) ℕ
  /-- Every field is a time of day. -/
  clock : ∀ e ∈ counts.entries, ∃ minute < 1440, e.1 = clockText minute

/-- A day without a rejected call. -/
def RejectionHash.empty : RejectionHash := ⟨InsertionMap.empty, by simp⟩

theorem RejectionHash.clock_increment (hash : RejectionHash) {minute : ℕ} (h : minute < 1440)
    (count : ℕ) (e : List Char × ℕ)
    (he : e ∈ (hash.counts.increment (clockText minute) count).entries) :
    ∃ minute < 1440, e.1 = clockText minute := by
  rcases InsertionMap.mem_keys_increment he with heq | ⟨v, hv⟩
  · exact ⟨minute, h, heq⟩
  · exact hash.clock (e.1, v) hv

/-- `HINCRBY`, under the minute a time falls in. -/
def RejectionHash.increment (hash : RejectionHash) (t : ℤ) (count : ℕ) : RejectionHash where
  counts := hash.counts.increment (clockText (minuteOfDay t)) count
  clock := hash.clock_increment (minuteOfDay_lt t) count

/-- A day's hash, and when it expires. -/
structure RejectionKey where
  hash : RejectionHash
  expiresAt : ℤ

/-- The hashes, by `YYYY-MM-DD`. -/
def RejectionLog := List Char → Option RejectionKey

/-- `HGETALL`, of a day: no fields if there is no hash. -/
def RejectionLog.hgetall (log : RejectionLog) (now : ℤ) (day : List Char) : RejectionHash :=
  match log day with
  | none => .empty
  | some key => if now < key.expiresAt then key.hash else .empty

/-- **Adds rejected calls to the minute a time falls in**: `HINCRBY`, then `EXPIRE`. -/
def RejectionLog.recordRejections (log : RejectionLog) (count : ℕ) (t : ℤ) : RejectionLog :=
  fun day =>
    if day = dayText t then
      some
        { hash := (log.hgetall t (dayText t)).increment t count
          expiresAt := t + rejectionLogTtlSeconds * 1000 }
    else log day

/-- The days `countRejectionsSince` reads, the latest first. -/
def rejectionDays (since now : ℤ) : List (List Char) :=
  let days := (List.range (rejectionLogTtlSeconds / 86400)).map fun i : ℕ =>
    dayText (now - i * dayMs)
  days.takeWhile fun day => ¬day < dayText since

/-- Whether a field of a day's hash is counted. -/
def CountedSince (since : ℤ) (day minute : List Char) : Prop :=
  ¬day ++ 'T' :: minute < minuteText since

instance (since : ℤ) (day : List Char) : DecidablePred (CountedSince since day) := fun _ =>
  inferInstanceAs (Decidable (¬_))

/-- **Rejected calls counted from the minute `since` falls in** up to now, one hash per day. -/
def countRejectionsSince (hgetall : List Char → RejectionHash) (since now : ℤ) : ℕ :=
  ((rejectionDays since now).map fun day =>
    (hgetall day).counts.sumOf (CountedSince since day)).sum

/-! ### The guard -/

/-- What the guard keeps in memory. -/
structure RejectionGuard where
  pendingRejections : ℕ
  /-- `none` before the first write. -/
  lastFlushAt : Option ℤ
  deriving DecidableEq

/-- One write: how many calls, and when. -/
structure Flush where
  count : ℕ
  flushedAt : ℤ
  deriving DecidableEq

/-- A call that comes too soon after the last write is held back. -/
def Waits (lastFlushAt : Option ℤ) (now : ℤ) : Prop :=
  ∃ t ∈ lastFlushAt, now - t < rejectionFlushIntervalMs

instance (lastFlushAt : Option ℤ) (now : ℤ) : Decidable (Waits lastFlushAt now) := by
  unfold Waits
  infer_instance

/-- **`onRejected`.** The call is held back, or written with all that are. -/
def RejectionGuard.onRejected (guard : RejectionGuard) (now : ℤ) :
    RejectionGuard × Option Flush :=
  let pendingRejections := guard.pendingRejections + 1
  if Waits guard.lastFlushAt now then ({ guard with pendingRejections }, none)
  else (⟨0, some now⟩, some ⟨pendingRejections, now⟩)

/-- One instance, with the log it writes to and the time of the latest call. -/
structure Rejecting where
  guard : RejectionGuard
  log : RejectionLog
  lastCallAt : ℤ

/-- An instance that was just started, and no log yet. -/
def Rejecting.start : Rejecting := ⟨⟨0, none⟩, fun _ => none, 0⟩

/-- **Rejected calls on one instance**, one after the other; every write succeeds. They
output the writes. -/
def rejections : System Rejecting ℤ Flush where
  legal s now := ClockTime now ∧ s.lastCallAt ≤ now
  next s now :=
    { guard := (s.guard.onRejected now).1
      log := (s.guard.onRejected now).2.elim s.log fun flush =>
        s.log.recordRejections flush.count flush.flushedAt
      lastCallAt := now }
  out s now := (s.guard.onRejected now).2.toList

instance (s : Rejecting) (now : ℤ) : Decidable (rejections.legal s now) :=
  inferInstanceAs (Decidable (ClockTime now ∧ s.lastCallAt ≤ now))

/-! ### The calls held back -/

/-- **The guard with the times of the calls it holds back.** -/
structure Holding where
  lastFlushAt : Option ℤ
  held : List ℤ

/-- One more call. -/
def Holding.call (h : Holding) (now : ℤ) : Holding :=
  if Waits h.lastFlushAt now then { h with held := h.held ++ [now] } else ⟨some now, []⟩

/-- What some calls leave held back. -/
def holding (calls : List ℤ) : Holding := calls.foldl Holding.call ⟨none, []⟩

theorem holding_concat (calls : List ℤ) (now : ℤ) :
    holding (calls ++ [now]) = (holding calls).call now := by
  rw [holding, List.foldl_append]
  rfl

/-- The guard counts the calls it holds back. -/
def RejectionGuard.Counts (guard : RejectionGuard) (h : Holding) : Prop :=
  guard.pendingRejections = h.held.length ∧ guard.lastFlushAt = h.lastFlushAt

/-- **What a call does**: it is held back, or it is written with all that are. -/
inductive CallStep (s : Rejecting) (h : Holding) (now : ℤ) (s' : Rejecting) (h' : Holding) :
    List Flush → Prop
  | held (waits : Waits h.lastFlushAt now) (counts : s'.guard.Counts h') (log : s'.log = s.log)
      (last : h'.lastFlushAt = h.lastFlushAt) (more : h'.held = h.held ++ [now]) :
      CallStep s h now s' h' []
  | written (due : ¬Waits h.lastFlushAt now) (counts : s'.guard.Counts h')
      (log : s'.log = s.log.recordRejections (h.held.length + 1) now)
      (last : h'.lastFlushAt = some now) (none : h'.held = []) :
      CallStep s h now s' h' [⟨h.held.length + 1, now⟩]

theorem CallStep.counts {s s' : Rejecting} {h h' : Holding} {now : ℤ} {written : List Flush}
    (hstep : CallStep s h now s' h' written) : s'.guard.Counts h' := by
  cases hstep with
  | held _ counts => exact counts
  | written _ counts => exact counts

theorem callStep {s : Rejecting} {h : Holding} (hcounts : s.guard.Counts h) (now : ℤ) :
    CallStep s h now (rejections.next s now) (h.call now) (rejections.out s now) := by
  obtain ⟨hpending, hlast⟩ := hcounts
  by_cases hwaits : Waits h.lastFlushAt now
  · have hcall : s.guard.onRejected now =
        ({ s.guard with pendingRejections := s.guard.pendingRejections + 1 }, none) :=
      if_pos (hlast.symm ▸ hwaits)
    have hheld : h.call now = { h with held := h.held ++ [now] } := if_pos hwaits
    have hout : rejections.out s now = [] := by
      change (s.guard.onRejected now).2.toList = []
      rw [hcall]
      rfl
    rw [hout, hheld]
    refine .held hwaits ⟨?_, ?_⟩ ?_ rfl rfl
    · change (s.guard.onRejected now).1.pendingRejections = (h.held ++ [now]).length
      rw [hcall, List.length_append, ← hpending]
      rfl
    · change (s.guard.onRejected now).1.lastFlushAt = h.lastFlushAt
      rw [hcall, ← hlast]
    · change (s.guard.onRejected now).2.elim s.log _ = s.log
      rw [hcall]
      rfl
  · have hcall : s.guard.onRejected now =
        (⟨0, some now⟩, some ⟨s.guard.pendingRejections + 1, now⟩) :=
      if_neg (hlast.symm ▸ hwaits)
    have hheld : h.call now = ⟨some now, []⟩ := if_neg hwaits
    have hout : rejections.out s now = [⟨h.held.length + 1, now⟩] := by
      change (s.guard.onRejected now).2.toList = _
      rw [hcall, hpending]
      rfl
    rw [hout, hheld]
    refine .written hwaits ⟨?_, ?_⟩ ?_ rfl rfl
    · change (s.guard.onRejected now).1.pendingRejections = 0
      rw [hcall]
    · change (s.guard.onRejected now).1.lastFlushAt = some now
      rw [hcall]
    · change (s.guard.onRejected now).2.elim s.log _ = _
      rw [hcall, hpending]
      rfl

/-! ### Runs of calls -/

/-- The state some calls lead to. -/
def after (calls : List ℤ) : Rejecting := rejections.final .start calls

/-- The writes of some calls. -/
def flushes (calls : List ℤ) : List Flush := rejections.outputs .start calls

theorem after_concat (calls : List ℤ) (now : ℤ) :
    after (calls ++ [now]) = rejections.next (after calls) now :=
  System.final_concat _ _ _

/-- The guard counts what is held back, after any calls. -/
theorem counts_after (calls : List ℤ) : (after calls).guard.Counts (holding calls) := by
  induction calls using List.reverseRecOn with
  | nil => exact ⟨rfl, rfl⟩
  | append_singleton calls now ih =>
    rw [after_concat, holding_concat]
    exact (callStep ih now).counts

/-- **Induction over the calls**, the latest one apart. -/
theorem calls_induction {P : List ℤ → Prop} (hnil : P [])
    (hstep : ∀ calls now written, ClockTime now → (after calls).lastCallAt ≤ now →
      CallStep (after calls) (holding calls) now (after (calls ++ [now]))
        (holding (calls ++ [now])) written →
      flushes (calls ++ [now]) = flushes calls ++ written → P calls → P (calls ++ [now]))
    {calls : List ℤ} (hr : rejections.Run .start calls) : P calls := by
  refine hr.induction_concat hnil fun calls now _ hleg hP => ?_
  have hcall := callStep (counts_after calls) now
  rw [← holding_concat, ← after_concat] at hcall
  exact hstep calls now _ hleg.1 hleg.2 hcall (System.outputs_concat _ _ _) hP

/-- **The writes are a minute apart.** -/
theorem flushes_apart {calls : List ℤ} (hr : rejections.Run .start calls) :
    ((flushes calls).Pairwise fun f f' =>
      f.flushedAt + rejectionFlushIntervalMs ≤ f'.flushedAt) ∧
    ∀ f ∈ flushes calls, ∃ t ∈ (holding calls).lastFlushAt, f.flushedAt ≤ t := by
  refine calls_induction (P := fun calls => ((flushes calls).Pairwise fun f f' =>
    f.flushedAt + rejectionFlushIntervalMs ≤ f'.flushedAt) ∧
    ∀ f ∈ flushes calls, ∃ t ∈ (holding calls).lastFlushAt, f.flushedAt ≤ t)
    ⟨List.Pairwise.nil, fun f hf => absurd hf List.not_mem_nil⟩ ?_ hr
  rintro calls now written - - hstep hflushes ⟨hapart, hlast⟩
  rw [hflushes]
  cases hstep with
  | held _ _ _ last =>
    rw [List.append_nil, last]
    exact ⟨hapart, hlast⟩
  | written due _ _ last =>
    -- The last write is a minute ago, and the others are no later.
    have hbefore : ∀ f ∈ flushes calls, f.flushedAt + rejectionFlushIntervalMs ≤ now := by
      intro f hf
      obtain ⟨t, ht, hle⟩ := hlast f hf
      have hnot : ¬now - t < rejectionFlushIntervalMs := fun hlt => due ⟨t, ht, hlt⟩
      omega
    refine ⟨List.pairwise_append.mpr ⟨hapart, List.pairwise_singleton _ _, ?_⟩, fun f hf => ?_⟩
    · intro f hf f' hf'
      rw [List.mem_singleton.mp hf']
      exact hbefore f hf
    · refine ⟨now, last, ?_⟩
      rcases List.mem_append.mp hf with hf | hf
      · have := hbefore f hf
        have hpos : 0 < rejectionFlushIntervalMs := by decide
        omega
      · rw [List.mem_singleton.mp hf]

/-- **No call is lost**: every one is written or held back. -/
theorem written_add_held {calls : List ℤ} (hr : rejections.Run .start calls) :
    ((flushes calls).map Flush.count).sum + (holding calls).held.length = calls.length := by
  refine calls_induction (P := fun calls =>
    ((flushes calls).map Flush.count).sum + (holding calls).held.length = calls.length)
    rfl ?_ hr
  intro calls now written _ _ hstep hflushes hsum
  rw [hflushes, List.map_append, List.sum_append, List.length_append, List.length_singleton]
  cases hstep with
  | held _ _ _ _ more =>
    rw [more, List.length_append, List.length_singleton, List.map_nil, List.sum_nil]
    omega
  | written _ _ _ _ none =>
    rw [none, List.map_singleton, List.sum_singleton, List.length_nil]
    dsimp only
    omega

/-- **The calls are those written and those held back**, in this order, and what is written
came no later than the last write. -/
theorem exists_flushed {calls : List ℤ} (hr : rejections.Run .start calls) :
    (∃ flushed, calls = flushed ++ (holding calls).held ∧
      ∀ u ∈ flushed, ∃ t ∈ (holding calls).lastFlushAt, u ≤ t) ∧
    ∀ u ∈ calls, u ≤ (after calls).lastCallAt := by
  refine calls_induction (P := fun calls =>
    (∃ flushed, calls = flushed ++ (holding calls).held ∧
      ∀ u ∈ flushed, ∃ t ∈ (holding calls).lastFlushAt, u ≤ t) ∧
    ∀ u ∈ calls, u ≤ (after calls).lastCallAt)
    ⟨⟨[], rfl, by simp⟩, by simp⟩ ?_ hr
  rintro calls now written - hle hstep - ⟨⟨flushed, hcalls, hflushed⟩, hclock⟩
  have hnow : ∀ u ∈ calls ++ [now], u ≤ now := by
    intro u hu
    rcases List.mem_append.mp hu with hu | hu
    · exact (hclock u hu).trans hle
    · exact (List.mem_singleton.mp hu).le
  rw [after_concat]
  refine ⟨?_, hnow⟩
  cases hstep with
  | held _ _ _ last more =>
    refine ⟨flushed, ?_, last ▸ hflushed⟩
    rw [more, ← List.append_assoc, ← hcalls]
  | written _ _ _ last none =>
    refine ⟨calls ++ [now], ?_, fun u hu => ⟨now, last, hnow u hu⟩⟩
    rw [none, List.append_nil]

/-! ### What is written under a minute -/

/-- The calls of the writes made at times that meet a condition. -/
def writtenAt (q : ℤ → Prop) [DecidablePred q] (writes : List Flush) : ℕ :=
  ((writes.filter fun f => q f.flushedAt).map Flush.count).sum

theorem writtenAt_append (q : ℤ → Prop) [DecidablePred q] (writes writes' : List Flush) :
    writtenAt q (writes ++ writes') = writtenAt q writes + writtenAt q writes' := by
  rw [writtenAt, List.filter_append, List.map_append, List.sum_append]
  rfl

theorem writtenAt_singleton (q : ℤ → Prop) [DecidablePred q] (f : Flush) :
    writtenAt q [f] = if q f.flushedAt then f.count else 0 := by
  by_cases hq : q f.flushedAt <;> simp [writtenAt, hq]

/-- **No call is written under a later minute than its own**: when a call is written, the
calls held back are of the same minute. -/
def NoneCarriedOver (calls : List ℤ) : Prop :=
  ∀ pre now post, calls = pre ++ now :: post → ¬Waits (holding pre).lastFlushAt now →
    ∀ u ∈ (holding pre).held, u / minuteMs = now / minuteMs

theorem NoneCarriedOver.of_append {calls rest : List ℤ} (h : NoneCarriedOver (calls ++ rest)) :
    NoneCarriedOver calls := by
  intro pre now post hcalls
  exact h pre now (post ++ rest) (by rw [hcalls, List.append_assoc, List.cons_append])

/-- **Then every call is written under its own minute.** -/
theorem writtenAt_add_held {q : ℤ → Prop} [DecidablePred q]
    (hq : ∀ t t', t / minuteMs = t' / minuteMs → (q t ↔ q t')) {calls : List ℤ}
    (hr : rejections.Run .start calls) (hnone : NoneCarriedOver calls) :
    writtenAt q (flushes calls) + (holding calls).held.countP q = calls.countP q := by
  refine calls_induction (P := fun calls => NoneCarriedOver calls →
    writtenAt q (flushes calls) + (holding calls).held.countP q = calls.countP q)
    (fun _ => rfl) ?_ hr hnone
  intro calls now written _ _ hstep hflushes hsum hnone
  have hsum := hsum hnone.of_append
  rw [hflushes, writtenAt_append, List.countP_append, ← hsum]
  cases hstep with
  | held _ _ _ _ more =>
    rw [more, List.countP_append]
    simp only [writtenAt, List.filter_nil, List.map_nil, List.sum_nil]
    omega
  | written due _ _ _ none =>
    have hsame := hnone calls now [] rfl due
    have hheld : (holding calls).held.countP q =
        if q now then (holding calls).held.length else 0 := by
      by_cases hnow : q now
      · rw [if_pos hnow, List.countP_eq_length]
        exact fun u hu => decide_eq_true ((hq u now (hsame u hu)).mpr hnow)
      · rw [if_neg hnow, List.countP_eq_zero]
        exact fun u hu htrue => hnow ((hq u now (hsame u hu)).mp (of_decide_eq_true htrue))
    rw [none, writtenAt_singleton, hheld, List.countP_nil, List.countP_singleton]
    by_cases hnow : q now
    · simp [hnow]
      omega
    · simp [hnow]

/-! ### Reading the log -/

theorem inRange_of_recent {t now : ℤ} (hnow : ClockTime now) (hle : t ≤ now)
    (hday : now / dayMs - 2 ≤ t / dayMs) : InRange t := by
  obtain ⟨hzero, -, hhigh⟩ := hnow
  have hepoch : (2 : ℤ) * dayMs ≤ epochDay * dayMs := by decide
  refine ⟨?_, by omega⟩
  simp only [dayMs] at *
  omega

theorem sub_dayMs_ediv (now : ℤ) : (now - dayMs) / dayMs = now / dayMs - 1 := by
  simp only [dayMs]
  omega

theorem inRange_yesterday {now : ℤ} (hnow : ClockTime now) : InRange (now - dayMs) := by
  have hpos : 0 < dayMs := by decide
  have hday := sub_dayMs_ediv now
  exact inRange_of_recent hnow (by omega) (by omega)

/-- **The days that are read**: today, and the days before it that are not before `since`. -/
theorem rejectionDays_eq {since now : ℤ} (hnow : ClockTime now) (hle : since ≤ now)
    (hday : now / dayMs - 1 ≤ since / dayMs) :
    rejectionDays since now = if since / dayMs = now / dayMs then [dayText now]
      else [dayText now, dayText (now - dayMs)] := by
  have hsince : InRange since := inRange_of_recent hnow hle (by omega)
  have hback : ∀ i : ℤ, 0 ≤ i → i ≤ 2 →
      (dayText (now - i * dayMs) < dayText since ↔ now / dayMs - i < since / dayMs) := by
    intro i hi hi'
    have hdiv : (now - i * dayMs) / dayMs = now / dayMs - i := by
      rw [Int.sub_mul_ediv_right _ _ (by decide)]
    have hpos : 0 ≤ i * dayMs := mul_nonneg hi (by decide)
    rw [dayText_lt_iff (inRange_of_recent hnow (by omega) (by omega)) hsince, hdiv]
  have hdays : ((List.range (rejectionLogTtlSeconds / 86400)).map fun i : ℕ =>
      dayText (now - i * dayMs)) =
        [dayText (now - 0 * dayMs), dayText (now - 1 * dayMs), dayText (now - 2 * dayMs)] := rfl
  have hsinceday : since / dayMs ≤ now / dayMs := Int.ediv_le_ediv (by decide) hle
  have h0 := hback 0 (by omega) (by omega)
  have h1 := hback 1 (by omega) (by omega)
  have h2 := hback 2 (by omega) (by omega)
  have hkeep : ∀ day days, ¬day < dayText since →
      (day :: days).takeWhile (fun day => ¬day < dayText since) =
        day :: days.takeWhile fun day => ¬day < dayText since :=
    fun day days h => List.takeWhile_cons_of_pos (decide_eq_true h)
  have hstop : ∀ day days, day < dayText since →
      (day :: days).takeWhile (fun day => ¬day < dayText since) = [] :=
    fun day days h => List.takeWhile_cons_of_neg fun hnot => of_decide_eq_true hnot h
  rw [rejectionDays, hdays]
  have htoday : ¬dayText (now - 0 * dayMs) < dayText since := by
    rw [h0]
    omega
  by_cases hsame : since / dayMs = now / dayMs
  · have hyesterday : dayText (now - 1 * dayMs) < dayText since := by
      rw [h1]
      omega
    rw [if_pos hsame, hkeep _ _ htoday, hstop _ _ hyesterday, zero_mul, sub_zero]
  · have hyesterday : ¬dayText (now - 1 * dayMs) < dayText since := by
      rw [h1]
      omega
    have hearlier : dayText (now - 2 * dayMs) < dayText since := by
      rw [h2]
      omega
    rw [if_neg hsame, hkeep _ _ htoday, hkeep _ _ hyesterday, hstop _ _ hearlier, zero_mul,
      sub_zero, one_mul]

theorem nodup_rejectionDays {since now : ℤ} (hnow : ClockTime now) (hle : since ≤ now)
    (hday : now / dayMs - 1 ≤ since / dayMs) : (rejectionDays since now).Nodup := by
  rw [rejectionDays_eq hnow hle hday]
  split_ifs
  · exact List.nodup_singleton _
  · have hne : dayText now ≠ dayText (now - dayMs) := by
      rw [Ne, dayText_inj hnow.2 (inRange_yesterday hnow), sub_dayMs_ediv]
      omega
    simp [hne]

/-- **A field is counted from its minute on.** -/
theorem countedSince_iff {since t : ℤ} (hsince : InRange since) (ht : InRange t) :
    CountedSince since (dayText t) (clockText (minuteOfDay t)) ↔
      since / minuteMs ≤ t / minuteMs := by
  rw [CountedSince, ← not_lt]
  exact (minuteText_lt_iff ht hsince).not

/-- What is stored for a day, expired or not. -/
def RejectionLog.stored (log : RejectionLog) (day : List Char) : RejectionHash :=
  (log day).elim .empty RejectionKey.hash

theorem sumOf_hgetall_le (log : RejectionLog) (now : ℤ) (day : List Char) (p : List Char → Prop)
    [DecidablePred p] : (log.hgetall now day).counts.sumOf p ≤ (log.stored day).counts.sumOf p := by
  rw [RejectionLog.hgetall, RejectionLog.stored]
  cases log day with
  | none => exact le_rfl
  | some key =>
    dsimp only [Option.elim_some]
    split_ifs
    · exact le_rfl
    · exact Nat.zero_le _

theorem stored_recordRejections_of_ne {log : RejectionLog} {count : ℕ} {t : ℤ} {day : List Char}
    (hne : day ≠ dayText t) : (log.recordRejections count t).stored day = log.stored day := by
  rw [RejectionLog.stored, RejectionLog.recordRejections, if_neg hne]
  rfl

theorem stored_recordRejections (log : RejectionLog) (count : ℕ) (t : ℤ) :
    (log.recordRejections count t).stored (dayText t) =
      (log.hgetall t (dayText t)).increment t count := by
  rw [RejectionLog.stored, RejectionLog.recordRejections, if_pos rfl]
  rfl

/-- **The log holds no more than was written.** -/
theorem sum_stored_le {since : ℤ} (hsince : InRange since) {days : List (List Char)}
    (hnd : days.Nodup) {calls : List ℤ} (hr : rejections.Run .start calls) :
    (days.map fun day => ((after calls).log.stored day).counts.sumOf
        (CountedSince since day)).sum ≤
      writtenAt (fun t => since / minuteMs ≤ t / minuteMs) (flushes calls) := by
  refine calls_induction (P := fun calls =>
    (days.map fun day => ((after calls).log.stored day).counts.sumOf
        (CountedSince since day)).sum ≤
      writtenAt (fun t => since / minuteMs ≤ t / minuteMs) (flushes calls)) ?_ ?_ hr
  · refine (List.sum_eq_zero fun n hn => ?_).le
    obtain ⟨day, -, rfl⟩ := List.mem_map.mp hn
    rfl
  · intro calls now written hnow _ hstep hflushes hle
    rw [hflushes, writtenAt_append]
    cases hstep with
    | held _ _ log =>
      rw [log]
      exact hle.trans (Nat.le_add_right _ _)
    | written _ _ log =>
      rw [log, writtenAt_singleton]
      refine (sum_map_le_of_eq_of_ne (k := dayText now) ?_ (fun day hne => ?_) hnd).trans
        (Nat.add_le_add_right hle _)
      · -- The write adds to the sum if its minute is counted.
        have hfield := countedSince_iff hsince hnow.2
        rw [stored_recordRejections, RejectionHash.increment, InsertionMap.sumOf_increment]
        simp only [hfield]
        exact Nat.add_le_add_right (sumOf_hgetall_le _ _ _ _) _
      · rw [stored_recordRejections_of_ne hne]

theorem countRejectionsSince_le {since now : ℤ} (hnow : ClockTime now) (hle : since ≤ now)
    (hday : now / dayMs - 1 ≤ since / dayMs) {calls : List ℤ}
    (hr : rejections.Run .start calls) :
    countRejectionsSince ((after calls).log.hgetall now) since now ≤
      writtenAt (fun t => since / minuteMs ≤ t / minuteMs) (flushes calls) := by
  have hsince : InRange since := inRange_of_recent hnow hle (by omega)
  refine le_trans ?_ (sum_stored_le hsince (nodup_rejectionDays hnow hle hday) hr)
  exact List.sum_le_sum fun day _ => sumOf_hgetall_le _ now day _

/-- **What was just written is counted.** -/
theorem le_countRejectionsSince {now : ℤ} (hnow : ClockTime now) (log : RejectionLog) (count : ℕ) :
    count ≤ countRejectionsSince ((log.recordRejections count now).hgetall now) now now := by
  have hdays := rejectionDays_eq hnow le_rfl (Int.sub_le_self _ (by decide))
  rw [countRejectionsSince, hdays, if_pos rfl, List.map_singleton, List.sum_singleton]
  have hread : (log.recordRejections count now).hgetall now (dayText now) =
      (log.hgetall now (dayText now)).increment now count := by
    have hfresh : now < now + rejectionLogTtlSeconds * 1000 := by
      have : (0 : ℤ) < rejectionLogTtlSeconds * 1000 := by decide
      omega
    rw [RejectionLog.hgetall, RejectionLog.recordRejections, if_pos rfl]
    exact if_pos hfresh
  rw [hread]
  refine le_trans (Nat.le_add_left _ _) (InsertionMap.le_sumOf (InsertionMap.get?_set_self _ _ _)
    ((countedSince_iff hnow.2 hnow.2).mpr le_rfl))

/-! ### What the guard promises -/

/-- **A call that is carried over is counted too late**: the minute it is written under has
fewer calls than the log says. -/
theorem count_lt_of_carried {calls : List ℤ} {now u : ℤ} (hr : rejections.Run .start calls)
    (hleg : rejections.legal (after calls) now) (hdue : ¬Waits (holding calls).lastFlushAt now)
    (hu : u ∈ (holding calls).held) (hne : u / minuteMs ≠ now / minuteMs) :
    (calls ++ [now]).countP (fun t => now / minuteMs * minuteMs ≤ t) <
      (holding calls).held.length + 1 := by
  obtain ⟨⟨flushed, hcalls, hflushed⟩, hclock⟩ := exists_flushed hr
  have hpos : 0 < minuteMs := by decide
  have hstart : ∀ t, now / minuteMs * minuteMs ≤ t ↔ now / minuteMs ≤ t / minuteMs :=
    fun t => (Int.le_ediv_iff_mul_le hpos).symm
  -- What was written before is more than a minute old.
  have hold : flushed.countP (fun t => now / minuteMs * minuteMs ≤ t) = 0 := by
    refine List.countP_eq_zero.mpr fun t ht htrue => ?_
    obtain ⟨l, hl, hle⟩ := hflushed t ht
    have hlast : ¬now - l < rejectionFlushIntervalMs := fun hlt => hdue ⟨l, hl, hlt⟩
    have hmin := of_decide_eq_true htrue
    simp only [rejectionFlushIntervalMs, minuteMs] at *
    omega
  -- Of the calls held back, the one of an earlier minute is not among those of this minute.
  have hheld : (holding calls).held.countP (fun t => now / minuteMs * minuteMs ≤ t) <
      (holding calls).held.length := by
    refine lt_of_le_of_ne List.countP_le_length fun hall => ?_
    have hmin := (hstart u).mp (of_decide_eq_true (List.countP_eq_length.mp hall u hu))
    have hmem : u ∈ calls := hcalls ▸ List.mem_append_right _ hu
    have hle : u / minuteMs ≤ now / minuteMs :=
      Int.ediv_le_ediv hpos ((hclock u hmem).trans hleg.2)
    omega
  have hsplit : calls.countP (fun t => now / minuteMs * minuteMs ≤ t) =
      (holding calls).held.countP (fun t => now / minuteMs * minuteMs ≤ t) := by
    conv_lhs => rw [hcalls]
    rw [List.countP_append, hold, Nat.zero_add]
  have hone : [now].countP (fun t => now / minuteMs * minuteMs ≤ t) ≤ 1 := List.countP_le_length
  rw [List.countP_append, hsplit]
  omega

/-- **What the guard promises** about any calls it rejects, one after the other. Its writes
are a minute apart, and what is written and what it holds back are all of the calls. What is
counted since some time of the last two days is at most the calls from that minute on,
whenever it is asked – if and only if no call is written under a later minute than its
own. -/
theorem rejections_counted {calls : List ℤ} (hr : rejections.Run .start calls) :
    ((flushes calls).Pairwise fun f f' =>
      f.flushedAt + rejectionFlushIntervalMs ≤ f'.flushedAt) ∧
    ((flushes calls).map Flush.count).sum + (after calls).guard.pendingRejections =
      calls.length ∧
    ((∀ pre post since now, calls = pre ++ post → ClockTime now →
        (after pre).lastCallAt ≤ now → since ≤ now → now / dayMs - 1 ≤ since / dayMs →
        countRejectionsSince ((after pre).log.hgetall now) since now ≤
          pre.countP fun t => since / minuteMs * minuteMs ≤ t) ↔
      NoneCarriedOver calls) := by
  refine ⟨(flushes_apart hr).1, ?_, ?_, ?_⟩
  · rw [(counts_after calls).1]
    exact written_add_held hr
  · rintro hbound pre now post rfl hdue u hu
    by_contra hne
    obtain ⟨hpre, hleg, -⟩ := (System.run_append _ _ _ _).mp hr
    have hlog : (after (pre ++ [now])).log =
        (after pre).log.recordRejections ((holding pre).held.length + 1) now := by
      have hstep := callStep (counts_after pre) now
      rw [after_concat]
      generalize rejections.out (after pre) now = written at hstep
      cases hstep with
      | held waits => exact absurd waits hdue
      | written _ _ log => exact log
    have hlast : (after (pre ++ [now])).lastCallAt ≤ now := by
      rw [after_concat]
      exact le_rfl
    have hcount := hbound (pre ++ [now]) post now now (by rw [List.append_assoc]; rfl) hleg.1
      hlast le_rfl (Int.sub_le_self _ (by decide))
    rw [hlog] at hcount
    have hlow := le_countRejectionsSince hleg.1 (after pre).log ((holding pre).held.length + 1)
    have hfew := count_lt_of_carried hpre hleg hdue hu hne
    omega
  · rintro hnone pre post since now rfl hnow - hle hday
    obtain ⟨hpre, -⟩ := (System.run_append _ _ _ _).mp hr
    have hpos : 0 < minuteMs := by decide
    refine (countRejectionsSince_le hnow hle hday hpre).trans ?_
    have hsum := writtenAt_add_held (q := fun t => since / minuteMs ≤ t / minuteMs)
      (fun t t' heq => by rw [heq]) hpre hnone.of_append
    refine (Nat.le_add_right _ _).trans (hsum.le.trans ?_)
    refine List.countP_mono_left fun t _ ht => ?_
    exact decide_eq_true ((Int.le_ediv_iff_mul_le hpos).mp (of_decide_eq_true ht))

/-- Three calls around noon: the first is written at once, the other two together. -/
theorem rejections_counted_noon :
    let calls := [43230000, 43270000, 43291000]
    flushes calls = [⟨1, 43230000⟩, ⟨2, 43291000⟩] ∧
      ((flushes calls).map Flush.count).sum + (after calls).guard.pendingRejections =
        calls.length :=
  ⟨by decide +kernel, (rejections_counted (by decide +kernel)).2.1⟩

/-- Two calls at noon, and one at three o'clock: the call held back at noon is counted since
two o'clock. -/
theorem rejections_counted_late :
    let calls := [43200000, 43210000, 54000000]
    rejections.Run .start calls ∧
      ¬countRejectionsSince ((after calls).log.hgetall 54000000) 50400000 54000000 ≤
        calls.countP fun t => 50400000 / minuteMs * minuteMs ≤ t := by
  decide +kernel

end Monitor

end CryptoZaloBot
