import Mathlib.Tactic.Ring
import Mathlib.Tactic.IntervalCases
import CryptoZaloBot.Base.Decimal

/-!
# Times as texts

A time is a number of milliseconds since 1970; its text in the form of ISO 8601 names the day,
the hour and the minute in the calendar. As long as years have four digits all these texts have
one length, and their alphabetical order is the order of the times
(`CryptoZaloBot.IsoTime.minuteText_lt_iff`). A program may therefore compare texts, as long as it
compares minutes with minutes.

The calendar is the proleptic Gregorian one, counted in days from the first of January of the
year 0: a date has a number (`CryptoZaloBot.IsoTime.Date.number`), and every number is that of a
date (`CryptoZaloBot.IsoTime.dateOf_spec`).
-/

namespace CryptoZaloBot

namespace IsoTime

/-! ### Dates -/

/-- A year with a 29th of February. -/
def leapDay (year : ℕ) : ℕ :=
  if year % 4 = 0 ∧ (year % 100 ≠ 0 ∨ year % 400 = 0) then 1 else 0

/-- The days before the first of January of a year. -/
def daysBeforeYear (year : ℕ) : ℕ :=
  365 * year + ((year + 3) / 4 + (year + 399) / 400 - (year + 99) / 100)

/-- The days of a year before the first of a month; January is month 0. -/
def daysBeforeMonth (leap : ℕ) : ℕ → ℕ
  | 0 => 0
  | 1 => 31
  | 2 => 59 + leap
  | 3 => 90 + leap
  | 4 => 120 + leap
  | 5 => 151 + leap
  | 6 => 181 + leap
  | 7 => 212 + leap
  | 8 => 243 + leap
  | 9 => 273 + leap
  | 10 => 304 + leap
  | 11 => 334 + leap
  | _ => 365 + leap

/-- **A date**, its month and day counted from 0. -/
structure Date where
  year : ℕ
  month : ℕ
  day : ℕ
  deriving DecidableEq

/-- The number of a date. -/
def Date.number (date : Date) : ℕ :=
  daysBeforeYear date.year + (daysBeforeMonth (leapDay date.year) date.month + date.day)

/-- The last of some starts that has come. -/
def lastStart (start : ℕ → ℕ) (n : ℕ) : ℕ → ℕ
  | 0 => 0
  | k + 1 => if start (k + 1) ≤ n then k + 1 else lastStart start n k

/-- **The date of a day.** No year is shorter than 365 days. -/
def dateOf (n : ℕ) : Date :=
  let year := lastStart daysBeforeYear n (n / 365)
  let rest := n - daysBeforeYear year
  let month := lastStart (daysBeforeMonth (leapDay year)) rest 11
  { year, month, day := rest - daysBeforeMonth (leapDay year) month }

/-- **The last start has come, and the next one has not.** -/
theorem lastStart_spec {start : ℕ → ℕ} {n k : ℕ} (hzero : start 0 ≤ n) (hnext : n < start (k + 1)) :
    lastStart start n k ≤ k ∧ start (lastStart start n k) ≤ n ∧
      n < start (lastStart start n k + 1) := by
  induction k with
  | zero => exact ⟨le_rfl, hzero, hnext⟩
  | succ k ih =>
    rw [lastStart]
    split
    · next hcome => exact ⟨le_rfl, hcome, hnext⟩
    · next hcome =>
      obtain ⟨hle, h⟩ := ih (not_le.mp hcome)
      exact ⟨by omega, h⟩

theorem daysBeforeYear_succ (year : ℕ) :
    daysBeforeYear (year + 1) = daysBeforeYear year + (365 + leapDay year) := by
  have h4 : (year + 1 + 3) / 4 = (year + 3) / 4 + if year % 4 = 0 then 1 else 0 := by
    split <;> omega
  have h100 : (year + 1 + 99) / 100 = (year + 99) / 100 + if year % 100 = 0 then 1 else 0 := by
    split <;> omega
  have h400 : (year + 1 + 399) / 400 = (year + 399) / 400 + if year % 400 = 0 then 1 else 0 := by
    split <;> omega
  have h100of : year % 400 = 0 → year % 100 = 0 := by omega
  have h4of : year % 100 = 0 → year % 4 = 0 := by omega
  have hle : (year + 99) / 100 ≤ (year + 3) / 4 := by omega
  rw [daysBeforeYear, daysBeforeYear, leapDay, h4, h100, h400]
  clear h4 h100 h400
  generalize (year + 3) / 4 = fours at *
  generalize (year + 99) / 100 = hundreds at *
  generalize (year + 399) / 400 = fourHundreds at *
  split_ifs <;> omega

theorem daysBeforeYear_strictMono : StrictMono daysBeforeYear := by
  refine strictMono_nat_of_lt_succ fun year => ?_
  rw [daysBeforeYear_succ]
  omega

theorem leapDay_le (year : ℕ) : leapDay year ≤ 1 := by
  rw [leapDay]
  split <;> omega

/-- Months follow one another, and none is longer than 31 days. -/
theorem daysBeforeMonth_step {leap : ℕ} (hleap : leap ≤ 1) (month : ℕ) :
    daysBeforeMonth leap month ≤ daysBeforeMonth leap (month + 1) ∧
      daysBeforeMonth leap (month + 1) ≤ daysBeforeMonth leap month + 31 := by
  rcases Nat.lt_or_ge month 12 with hlt | hge
  · interval_cases month <;> simp only [daysBeforeMonth] <;> omega
  · obtain ⟨k, rfl⟩ := Nat.exists_eq_add_of_le' hge
    simp only [daysBeforeMonth]
    omega

theorem daysBeforeMonth_mono {leap : ℕ} (hleap : leap ≤ 1) : Monotone (daysBeforeMonth leap) :=
  monotone_nat_of_le_succ fun month => (daysBeforeMonth_step hleap month).1

/-- **A date in the ranges of a calendar.** -/
structure Date.Valid (date : Date) : Prop where
  month_lt : date.month < 12
  day_lt : date.day < 31
  inMonth : daysBeforeMonth (leapDay date.year) date.month + date.day <
    daysBeforeMonth (leapDay date.year) (date.month + 1)
  inYear : date.number < daysBeforeYear (date.year + 1)

/-- **Every day has a date.** -/
theorem dateOf_spec (n : ℕ) : (dateOf n).Valid ∧ (dateOf n).number = n := by
  have hlast : n < daysBeforeYear (n / 365 + 1) := by
    rw [daysBeforeYear]
    omega
  obtain ⟨-, hyear, hnext⟩ := lastStart_spec (Nat.zero_le n) hlast
  rw [dateOf]
  generalize lastStart daysBeforeYear n (n / 365) = year at *
  have hdays := daysBeforeYear_succ year
  have htwelve : daysBeforeMonth (leapDay year) (11 + 1) = 365 + leapDay year := rfl
  have hrest : n - daysBeforeYear year < daysBeforeMonth (leapDay year) (11 + 1) := by omega
  obtain ⟨hmonth, hcome, hlater⟩ := lastStart_spec (Nat.zero_le _) hrest
  generalize lastStart (daysBeforeMonth (leapDay year)) (n - daysBeforeYear year) 11 = month at *
  have hlength := (daysBeforeMonth_step (leapDay_le year) month).2
  have hnumber : daysBeforeYear year + (daysBeforeMonth (leapDay year) month +
      (n - daysBeforeYear year - daysBeforeMonth (leapDay year) month)) = n := by
    omega
  refine ⟨⟨?_, ?_, ?_, ?_⟩, hnumber⟩
  · exact Nat.lt_succ_of_le hmonth
  · show n - daysBeforeYear year - daysBeforeMonth (leapDay year) month < 31
    omega
  · show daysBeforeMonth (leapDay year) month +
        (n - daysBeforeYear year - daysBeforeMonth (leapDay year) month) <
      daysBeforeMonth (leapDay year) (month + 1)
    omega
  · exact hnumber.trans_lt hnext

/-- Dates are compared by their years, months and days, in this order. -/
def Date.Before (date date' : Date) : Prop :=
  date.year < date'.year ∨ date.year = date'.year ∧
    (date.month < date'.month ∨ date.month = date'.month ∧ date.day < date'.day)

/-- **Earlier days have earlier dates.** -/
theorem Date.Valid.before {date date' : Date} (h' : date'.Valid)
    (hlt : date.number < date'.number) : date.Before date' := by
  rcases lt_trichotomy date.year date'.year with hyear | hyear | hyear
  · exact Or.inl hyear
  · refine Or.inr ⟨hyear, ?_⟩
    rw [Date.number, Date.number, hyear] at hlt
    rcases lt_trichotomy date.month date'.month with hmonth | hmonth | hmonth
    · exact Or.inl hmonth
    · rw [hmonth] at hlt
      exact Or.inr ⟨hmonth, by omega⟩
    · have hstarts := daysBeforeMonth_mono (leapDay_le date'.year) (Nat.succ_le_of_lt hmonth)
      have hin := h'.inMonth
      rw [Nat.succ_eq_add_one] at hstarts
      omega
  · have hstarts := daysBeforeYear_strictMono.monotone (Nat.succ_le_of_lt hyear)
    have hin := h'.inYear
    rw [Date.number] at hlt
    rw [Nat.succ_eq_add_one] at hstarts
    omega

/-! ### Numbers of a fixed width -/

/-- A number in a fixed number of digits. -/
def pad : ℕ → ℕ → List Char
  | 0, _ => []
  | k + 1, n => pad k (n / 10) ++ [Nat.digitChar (n % 10)]

@[simp] theorem length_pad (k n : ℕ) : (pad k n).length = k := by
  induction k generalizing n with
  | zero => rfl
  | succ k ih => rw [pad, List.length_append, ih, List.length_singleton]

/-- **What is padded is read back.** -/
theorem value_pad {k n : ℕ} (h : n < 10 ^ k) : Decimal.value (pad k n) = n := by
  induction k generalizing n with
  | zero =>
    rw [pow_zero, Nat.lt_one_iff] at h
    rw [h]
    rfl
  | succ k ih =>
    have hdiv : n / 10 < 10 ^ k := Nat.div_lt_of_lt_mul (by rwa [pow_succ'] at h)
    rw [pad, Decimal.value_concat, ih hdiv, Decimal.digitValue_digitChar (Nat.mod_lt n (by omega))]
    omega

theorem isDigit_of_mem_pad {k n : ℕ} {c : Char} (h : c ∈ pad k n) : c.isDigit = true := by
  induction k generalizing n with
  | zero => cases h
  | succ k ih =>
    rcases List.mem_append.mp h with h | h
    · exact ih h
    · rw [List.mem_singleton.mp h]
      exact Decimal.isDigit_digitChar (Nat.mod_lt n (by omega))

/-- Of two texts that begin with equally long parts, the parts decide. -/
theorem append_lt_append {a a' b b' : List Char} (hlength : a.length = a'.length)
    (h : a < a' ∨ a = a' ∧ b < b') : a ++ b < a' ++ b' := by
  rcases h with h | ⟨rfl, h⟩
  · induction a generalizing a' with
    | nil =>
      rw [List.length_nil, eq_comm, List.length_eq_zero_iff] at hlength
      rw [hlength] at h
      exact absurd h (List.not_lt_nil [])
    | cons c a ih =>
      cases a' with
      | nil => cases hlength
      | cons c' a' =>
        rw [List.cons_append, List.cons_append, List.cons_lt_cons_iff]
        rcases List.cons_lt_cons_iff.mp h with hc | ⟨hc, h⟩
        · exact Or.inl hc
        · exact Or.inr ⟨hc, ih (Nat.succ.inj hlength) h⟩
  · exact List.append_left_lt h

theorem digitChar_lt {d d' : ℕ} (h : d < d') (h' : d' < 10) :
    Nat.digitChar d < Nat.digitChar d' := by
  have hall : ∀ d' < 10, ∀ d < d', Nat.digitChar d < Nat.digitChar d' := by decide
  exact hall d' h' d h

/-- **Smaller numbers have smaller texts.** -/
theorem pad_lt_pad {k n n' : ℕ} (hlt : n < n') (h' : n' < 10 ^ k) : pad k n < pad k n' := by
  induction k generalizing n n' with
  | zero =>
    rw [pow_zero] at h'
    omega
  | succ k ih =>
    have hdiv : n' / 10 < 10 ^ k := Nat.div_lt_of_lt_mul (by rwa [pow_succ'] at h')
    refine append_lt_append (by simp) ?_
    rcases Nat.lt_or_ge (n / 10) (n' / 10) with hless | hge
    · exact Or.inl (ih hless hdiv)
    · have hsame : n / 10 = n' / 10 := by omega
      refine Or.inr ⟨by rw [hsame], List.cons_lt_cons_iff.mpr (Or.inl ?_)⟩
      exact digitChar_lt (by omega) (Nat.mod_lt _ (by omega))

/-! ### Texts of times -/

def minuteMs : ℤ := 60000

def dayMs : ℤ := 24 * 60 * 60000

/-- The first of January 1970, counted from the year 0. -/
def epochDay : ℕ := daysBeforeYear 1970

/-- The number of the day of a time. -/
def dayOf (t : ℤ) : ℕ := (t / dayMs + epochDay).toNat

/-- The minute of the day of a time. -/
def minuteOfDay (t : ℤ) : ℕ := (t % dayMs / minuteMs).toNat

/-- A time whose year has four digits. -/
def InRange (t : ℤ) : Prop :=
  -(epochDay * dayMs) ≤ t ∧ t < (daysBeforeYear 10000 - epochDay) * dayMs

/-- **A reading of the clock**: after 1970, in a year of four digits. -/
def ClockTime (t : ℤ) : Prop := 0 ≤ t ∧ InRange t

instance (t : ℤ) : Decidable (ClockTime t) :=
  inferInstanceAs (Decidable (0 ≤ t ∧ _ ≤ t ∧ t < _))

/-- `YYYY-MM-DD`, of a day. -/
def dateText (day : ℕ) : List Char :=
  pad 4 (dateOf day).year ++ '-' ::
    (pad 2 ((dateOf day).month + 1) ++ '-' :: pad 2 ((dateOf day).day + 1))

/-- `HH:MM`, of a minute of a day. -/
def clockText (minute : ℕ) : List Char := pad 2 (minute / 60) ++ ':' :: pad 2 (minute % 60)

/-- `YYYY-MM-DD`, of a time. -/
def dayText (t : ℤ) : List Char := dateText (dayOf t)

/-- `YYYY-MM-DDTHH:MM`, of a time. -/
def minuteText (t : ℤ) : List Char := dayText t ++ 'T' :: clockText (minuteOfDay t)

@[simp] theorem length_dateText (day : ℕ) : (dateText day).length = 10 := by simp [dateText]

@[simp] theorem length_clockText (minute : ℕ) : (clockText minute).length = 5 := by
  simp [clockText]

/-- A year of four digits. -/
theorem year_lt_of_lt {day : ℕ} (h : day < daysBeforeYear 10000) : (dateOf day).year < 10000 := by
  have hnumber := (dateOf_spec day).2
  rw [Date.number] at hnumber
  refine daysBeforeYear_strictMono.lt_iff_lt.mp ?_
  omega

/-- **Earlier days have smaller texts.** -/
theorem dateText_lt {day day' : ℕ} (hlt : day < day') (h' : day' < daysBeforeYear 10000) :
    dateText day < dateText day' := by
  have hnumber := (dateOf_spec day).2
  obtain ⟨hvalid', hnumber'⟩ := dateOf_spec day'
  have hbefore : (dateOf day).Before (dateOf day') := hvalid'.before (by omega)
  have hmonth := hvalid'.month_lt
  have hday := hvalid'.day_lt
  refine append_lt_append (by simp) ?_
  rcases hbefore with hyear | ⟨hyear, hbefore⟩
  · exact Or.inl (pad_lt_pad hyear (year_lt_of_lt h'))
  · refine Or.inr ⟨by rw [hyear], List.cons_lt_cons_iff.mpr (Or.inr ⟨rfl, ?_⟩)⟩
    refine append_lt_append (by simp) ?_
    rcases hbefore with hm | ⟨hm, hd⟩
    · exact Or.inl (pad_lt_pad (by omega) (by omega))
    · refine Or.inr ⟨by rw [hm], List.cons_lt_cons_iff.mpr (Or.inr ⟨rfl, ?_⟩)⟩
      exact pad_lt_pad (by omega) (by omega)

/-- **Earlier minutes have smaller texts.** -/
theorem clockText_lt {minute minute' : ℕ} (hlt : minute < minute') (h' : minute' < 1440) :
    clockText minute < clockText minute' := by
  refine append_lt_append (by simp) ?_
  rcases Nat.lt_or_ge (minute / 60) (minute' / 60) with hless | hge
  · exact Or.inl (pad_lt_pad hless (by omega))
  · have hsame : minute / 60 = minute' / 60 := by omega
    refine Or.inr ⟨by rw [hsame], List.cons_lt_cons_iff.mpr (Or.inr ⟨rfl, ?_⟩)⟩
    exact pad_lt_pad (by omega) (by omega)

theorem dayOf_spec {t : ℤ} (h : InRange t) :
    (dayOf t : ℤ) = t / dayMs + epochDay ∧ dayOf t < daysBeforeYear 10000 := by
  obtain ⟨hlow, hhigh⟩ := h
  rw [dayOf]
  simp only [dayMs] at *
  omega

theorem minuteOfDay_lt (t : ℤ) : minuteOfDay t < 1440 := by
  simp only [minuteOfDay, dayMs, minuteMs]
  omega

/-- **The order of the texts of days** is that of the days. -/
theorem dayText_lt_iff {t t' : ℤ} (h : InRange t) (h' : InRange t') :
    dayText t < dayText t' ↔ t / dayMs < t' / dayMs := by
  obtain ⟨hday, hlt⟩ := dayOf_spec h
  obtain ⟨hday', hlt'⟩ := dayOf_spec h'
  constructor
  · intro htext
    rcases lt_trichotomy (dayOf t) (dayOf t') with hless | hsame | hmore
    · omega
    · rw [dayText, dayText, hsame] at htext
      exact absurd htext (List.lt_irrefl _)
    · exact absurd (dateText_lt hmore hlt) (List.lt_asymm htext)
  · intro hless
    exact dateText_lt (by omega) hlt'

theorem dayText_congr {t t' : ℤ} (h : t / dayMs = t' / dayMs) : dayText t = dayText t' := by
  rw [dayText, dayText, dayOf, dayOf, h]

/-- **Different days have different texts.** -/
theorem dayText_inj {t t' : ℤ} (h : InRange t) (h' : InRange t') :
    dayText t = dayText t' ↔ t / dayMs = t' / dayMs := by
  refine ⟨fun htext => ?_, dayText_congr⟩
  have hle := (dayText_lt_iff h h').not.mp (htext ▸ List.lt_irrefl _)
  have hge := (dayText_lt_iff h' h).not.mp (htext ▸ List.lt_irrefl _)
  omega

theorem minuteText_lt {t t' : ℤ} (h : InRange t) (h' : InRange t')
    (hless : t / minuteMs < t' / minuteMs) : minuteText t < minuteText t' := by
  obtain ⟨hday, -⟩ := dayOf_spec h
  obtain ⟨hday', hlt'⟩ := dayOf_spec h'
  have hclock : minuteOfDay t = t % dayMs / minuteMs ∧ minuteOfDay t' = t' % dayMs / minuteMs := by
    simp only [minuteOfDay, dayMs, minuteMs]
    omega
  refine append_lt_append (by simp [dayText]) ?_
  rcases Nat.lt_or_ge (dayOf t) (dayOf t') with hlt | hge
  · exact Or.inl (dateText_lt hlt hlt')
  · have hsame : dayOf t = dayOf t' := by
      simp only [dayMs, minuteMs] at *
      omega
    refine Or.inr ⟨by rw [dayText, dayText, hsame], List.cons_lt_cons_iff.mpr (Or.inr ⟨rfl, ?_⟩)⟩
    refine clockText_lt ?_ (minuteOfDay_lt t')
    simp only [dayMs, minuteMs] at *
    omega

/-- **The order of the texts of minutes** is that of the minutes. -/
theorem minuteText_lt_iff {t t' : ℤ} (h : InRange t) (h' : InRange t') :
    minuteText t < minuteText t' ↔ t / minuteMs < t' / minuteMs := by
  refine ⟨fun htext => ?_, minuteText_lt h h'⟩
  rcases lt_trichotomy (t / minuteMs) (t' / minuteMs) with hless | hsame | hmore
  · exact hless
  · have hday : dayOf t = dayOf t' ∧ minuteOfDay t = minuteOfDay t' := by
      simp only [dayOf, minuteOfDay, dayMs, minuteMs] at *
      omega
    rw [minuteText, minuteText, dayText, dayText, hday.1, hday.2] at htext
    exact absurd htext (List.lt_irrefl _)
  · exact absurd (minuteText_lt h' h hmore) (List.lt_asymm htext)

example : String.ofList (minuteText 1791375659999) = "2026-10-07T12:20" := by decide +kernel

/-! ### Reading a time -/

/-- **`Date.parse`** of `YYYY-MM-DDTHH:MM:00.000Z`, if it is the text of a minute. -/
def dateParse (text : List Char) : Option ℤ :=
  let year := text.take 4
  let month := (text.drop 5).take 2
  let day := (text.drop 8).take 2
  let hour := (text.drop 11).take 2
  let minute := (text.drop 14).take 2
  let date : Date :=
    { year := Decimal.value year, month := Decimal.value month - 1, day := Decimal.value day - 1 }
  if text = year ++ '-' :: (month ++ '-' :: (day ++ 'T' :: (hour ++ ':' :: (minute ++
        ":00.000Z".toList)))) ∧
      (year ++ month ++ day ++ hour ++ minute).all Char.isDigit = true ∧
      1 ≤ Decimal.value month ∧ date.month < 12 ∧ 1 ≤ Decimal.value day ∧
      daysBeforeMonth (leapDay date.year) date.month + date.day <
        daysBeforeMonth (leapDay date.year) (date.month + 1) ∧
      Decimal.value hour < 24 ∧ Decimal.value minute < 60 then
    some ((date.number - epochDay) * dayMs +
      (Decimal.value hour * 60 + Decimal.value minute) * minuteMs)
  else none

/-- The places where the parts of a text stand. -/
theorem take_drop_parts {y m d h n tail : List Char} (hy : y.length = 4) (hm : m.length = 2)
    (hd : d.length = 2) (hh : h.length = 2) (hn : n.length = 2) {text : List Char}
    (htext : text = y ++ '-' :: (m ++ '-' :: (d ++ 'T' :: (h ++ ':' :: (n ++ tail))))) :
    text.take 4 = y ∧ (text.drop 5).take 2 = m ∧ (text.drop 8).take 2 = d ∧
      (text.drop 11).take 2 = h ∧ (text.drop 14).take 2 = n := by
  have hnil : ∀ {l : List Char} {k : ℕ}, l.length ≤ k → l.drop k = [] := List.drop_eq_nil_of_le
  subst htext
  simp (disch := omega) [List.drop_append, hy, hm, hd, hh, hn, hnil]

/-- **The text of a minute is read back.** -/
theorem dateParse_text {day minute : ℕ} (hday : day < daysBeforeYear 10000)
    (hminute : minute < 1440) :
    dateParse (dateText day ++ 'T' :: (clockText minute ++ ":00.000Z".toList)) =
      some ((day - epochDay) * dayMs + minute * minuteMs) := by
  obtain ⟨hvalid, hnumber⟩ := dateOf_spec day
  have hyear := year_lt_of_lt hday
  rw [dateText]
  generalize dateOf day = date at *
  have hmonth := hvalid.month_lt
  have hdayOfMonth := hvalid.day_lt
  have htext : pad 4 date.year ++ '-' :: (pad 2 (date.month + 1) ++ '-' :: pad 2 (date.day + 1)) ++
      'T' :: (clockText minute ++ ":00.000Z".toList) =
      pad 4 date.year ++ '-' :: (pad 2 (date.month + 1) ++ '-' :: (pad 2 (date.day + 1) ++
        'T' :: (pad 2 (minute / 60) ++ ':' :: (pad 2 (minute % 60) ++ ":00.000Z".toList)))) := by
    simp [clockText]
  obtain ⟨hy, hm, hd, hh, hn⟩ := take_drop_parts (by simp) (by simp) (by simp) (by simp) (by simp)
    htext
  have hdigits : (pad 4 date.year ++ pad 2 (date.month + 1) ++ pad 2 (date.day + 1) ++
      pad 2 (minute / 60) ++ pad 2 (minute % 60)).all Char.isDigit = true := by
    simp only [List.all_append, Bool.and_eq_true, List.all_eq_true]
    exact ⟨⟨⟨⟨fun _ h => isDigit_of_mem_pad h, fun _ h => isDigit_of_mem_pad h⟩,
      fun _ h => isDigit_of_mem_pad h⟩, fun _ h => isDigit_of_mem_pad h⟩,
      fun _ h => isDigit_of_mem_pad h⟩
  rw [dateParse, hy, hm, hd, hh, hn, value_pad (by omega), value_pad (by omega),
    value_pad (by omega), value_pad (by omega), value_pad (by omega), Nat.add_sub_cancel,
    Nat.add_sub_cancel]
  have hsplit : ((minute / 60 : ℕ) : ℤ) * 60 + (minute % 60 : ℕ) = minute := by omega
  rw [if_pos ⟨htext, hdigits, by omega, hmonth, by omega, hvalid.inMonth, by omega, by omega⟩,
    hsplit, hnumber]

end IsoTime

end CryptoZaloBot
