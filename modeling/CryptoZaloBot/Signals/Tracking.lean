import CryptoZaloBot.Signals.Check
import CryptoZaloBot.Signals.HistoryWrites
import CryptoZaloBot.Signals.Scorecard
import CryptoZaloBot.Signals.Service

/-!
# Coins that are tracked

A coin that somebody asked about with `/tinhieu` is sampled by the signals check for four days,
even if it is on nobody's watchlist, and fifty such coins are tracked at a time. This file runs the
set of tracked coins, the checks and the price histories together.

Every call works with the time it was started at, and what it asks of Redis is carried out some
time later, in between what other calls ask (`CryptoZaloBot.Signals.Tracked.system`). An ask of a
call that was overtaken takes a coin's time back, and its sample replaces a later one.

* The set is what was granted last, in the order Redis carries the asks out, and a coin is granted
  if it is among it or there is room (`CryptoZaloBot.Signals.Tracked.tracked_coins`).
* Four days are enough for a verdict of three, with time to spare for calls that take long: once a
  check has priced the coin after the verdict is due, every later scorecard scores it, whatever
  else is written (`CryptoZaloBot.Signals.Tracked.tracked_verdicts_scored`).

A request that fails changes nothing, and is no event here.
-/

namespace CryptoZaloBot

namespace Signals

/-- **`listExtra`**: the coins that are still tracked, by the time they are. -/
def listExtra (extra : InsertionMap String ℤ) (now : ℤ) : List String :=
  ((extra.entries.filter fun e => now ≤ e.2).insertionSort fun e e' =>
    e.2 < e'.2 ∨ e.2 = e'.2 ∧ e.1 ≤ e'.1).map Prod.fst

/-- The coins of a check, read from the watchlists and the coins that are tracked. -/
def checkedSymbols (casing : Prices.Casing) (watchlists : InsertionMap String (List String))
    (extras : List String) : List String :=
  unique ((watchlists.entries.flatMap Prod.snd ++ extras).map casing.toLowerCase)

theorem watchedSymbols_eq (casing : Prices.Casing) (run : SignalsRun) :
    watchedSymbols casing run = checkedSymbols casing run.watchlists run.extras := rfl

/-- The samples `evaluateWithPrices` saves: coins without a positive price are left out. -/
def pricedSamples (symbols : List String) (prices : InsertionMap String JsNumber) :
    InsertionMap String JsNumber :=
  InsertionMap.ofList ((symbols.filter fun symbol => isPrice (priceOf prices symbol)).map
    fun symbol => (symbol, priceOf prices symbol))

/-! ### The set of tracked coins -/

section Set

variable {extra : InsertionMap String ℤ} {symbol other : String} {now : ℤ}

theorem mem_listExtra :
    symbol ∈ listExtra extra now ↔ ∃ x, extra.get? symbol = some x ∧ now ≤ x := by
  rw [listExtra, List.mem_map]
  constructor
  · rintro ⟨⟨_, x⟩, hmem, rfl⟩
    obtain ⟨hentry, hle⟩ := List.mem_filter.mp ((List.mem_insertionSort _).mp hmem)
    exact ⟨x, InsertionMap.mem_entries.mp hentry, of_decide_eq_true hle⟩
  · rintro ⟨x, hget, hle⟩
    refine ⟨(symbol, x), (List.mem_insertionSort _).mpr (List.mem_filter.mpr ⟨?_, ?_⟩), rfl⟩
    · exact InsertionMap.mem_entries.mpr hget
    · exact decide_eq_true hle

theorem get?_dropExpired {x : ℤ} :
    (dropExpired extra now).get? symbol = some x ↔ extra.get? symbol = some x ∧ now ≤ x := by
  rw [dropExpired, InsertionMap.get?_filter, Option.filter_eq_some_iff, decide_eq_true_iff]

/-- **What an ask leaves**: what has not expired, and the coin for four more days if there was
room for it. -/
theorem get?_trackExtra {x : ℤ} :
    (trackExtra extra symbol now).2.get? other = some x ↔
      if other = symbol ∧ IsTrackable extra symbol now then x = now + extraTrackTtlMs
      else extra.get? other = some x ∧ now ≤ x := by
  have hgranted : (trackExtra extra symbol now).1 = true ↔ IsTrackable extra symbol now :=
    trackExtra_iff
  rw [trackExtra] at hgranted ⊢
  split_ifs at hgranted with hfull
  · have hnot : ¬IsTrackable extra symbol now := hgranted.mpr
    rw [if_pos hfull, if_neg fun h => hnot h.2, get?_dropExpired]
  · have htrackable : IsTrackable extra symbol now := hgranted.mp rfl
    rw [if_neg hfull, InsertionMap.get?_set]
    rcases eq_or_ne other symbol with rfl | hne
    · rw [if_pos rfl, if_pos ⟨rfl, htrackable⟩, Option.some_inj, eq_comm]
    · rw [if_neg hne, if_neg fun h => hne h.1, get?_dropExpired]

/-- The coins that are still tracked. -/
def live (extra : InsertionMap String ℤ) (now : ℤ) : Set String :=
  {symbol | ∃ x, extra.get? symbol = some x ∧ now ≤ x}

theorem live_eq_keys :
    live extra now = {symbol | ((dropExpired extra now).get? symbol).isSome = true} := by
  ext symbol
  rw [live, Set.mem_ofPred_eq, Set.mem_ofPred_eq, Option.isSome_iff_exists]
  exact exists_congr fun x => get?_dropExpired.symm

theorem encard_live : (live extra now).encard = (dropExpired extra now).entries.length := by
  rw [live_eq_keys, InsertionMap.encard_keys]

/-- A coin is granted if it is tracked, or if there is room. -/
theorem isTrackable_iff :
    IsTrackable extra symbol now ↔
      symbol ∈ live extra now ∨ (live extra now).encard < maxExtraTracked := by
  rw [IsTrackable, encard_live, Nat.cast_lt, live_eq_keys]
  rfl

/-- The coins in the set, those that have expired included. -/
def stored (extra : InsertionMap String ℤ) : Set String :=
  {symbol | (extra.get? symbol).isSome = true}

theorem live_subset_stored : live extra now ⊆ stored extra := by
  rintro symbol ⟨x, hget, -⟩
  rw [stored, Set.mem_ofPred_eq, hget]
  rfl

/-- What an ask leaves in the set. -/
theorem stored_trackExtra :
    stored (trackExtra extra symbol now).2 =
      if IsTrackable extra symbol now then insert symbol (live extra now) else live extra now := by
  ext other
  rw [stored, Set.mem_ofPred_eq, Option.isSome_iff_exists]
  simp only [get?_trackExtra]
  by_cases htrackable : IsTrackable extra symbol now
  · rw [if_pos htrackable, Set.mem_insert_iff, live, Set.mem_ofPred_eq]
    rcases eq_or_ne other symbol with rfl | hne
    · simp [htrackable]
    · simp only [hne, false_and, if_false, false_or]
  · rw [if_neg htrackable]
    simp only [htrackable, and_false, if_false]
    rfl

/-- **Fifty at a time.** -/
theorem encard_stored_trackExtra (h : (stored extra).encard ≤ maxExtraTracked) :
    (stored (trackExtra extra symbol now).2).encard ≤ maxExtraTracked := by
  have hlive : (live extra now).encard ≤ maxExtraTracked :=
    (Set.encard_mono live_subset_stored).trans h
  rw [stored_trackExtra]
  split_ifs with htrackable
  · rcases isTrackable_iff.mp htrackable with hmem | hroom
    · rwa [Set.insert_eq_of_mem hmem]
    · exact (Set.encard_insert_le _ _).trans (Order.add_one_le_of_lt hroom)
  · exact hlive

end Set

/-! ### Asks, checks and writes over time -/

/-- **The stores the checks and the asks share**, and the clock. -/
structure Tracked where
  now : ℤ
  extra : InsertionMap String ℤ
  keys : KeyStore

namespace Tracked

/-- What Redis carries out, with the start of the call that asked for it. -/
inductive Event where
  | ticks (ms : ℕ)
  | asks (symbol : String) (startedAt : ℤ)
  /-- A check reads the set, and the watchlists. -/
  | lists (watchlists : InsertionMap String (List String)) (startedAt : ℤ)
  /-- A call that looked up prices saves its samples. -/
  | samples (symbols : List String) (prices : InsertionMap String JsNumber) (startedAt : ℤ)
  | fills (symbol : String) (points : BackfillPoints)

inductive News where
  | asked (symbol : String) (tracked : Bool) (startedAt : ℤ)
  | listed (symbols : List String) (startedAt : ℤ)

/-- **The bot as far as it tracks coins**, with calls that take no longer than `lag`. -/
def system (casing : Prices.Casing) (lag : ℤ) : System Tracked Event News where
  legal s e :=
    match e with
    | .ticks _ => True
    | .asks _ startedAt | .lists _ startedAt | .samples _ _ startedAt =>
      startedAt ≤ s.now ∧ s.now ≤ startedAt + lag
    | .fills _ points => ∀ point ∈ points.hourly ++ points.daily, point.t ≤ s.now
  next s e :=
    match e with
    | .ticks ms => { s with now := s.now + ms }
    | .asks symbol startedAt => { s with extra := (trackExtra s.extra symbol startedAt).2 }
    | .lists _ _ => s
    | .samples symbols prices startedAt =>
      { s with keys := snapshotKeys s.keys (pricedSamples symbols prices) startedAt s.now }
    | .fills symbol points => { s with keys := writeBackfillKeys s.keys symbol points s.now }
  out s e :=
    match e with
    | .asks symbol startedAt => [.asked symbol (trackExtra s.extra symbol startedAt).1 startedAt]
    | .lists watchlists startedAt =>
      [.listed (checkedSymbols casing watchlists (listExtra s.extra startedAt)) startedAt]
    | _ => []

/-- Nothing is stored yet. -/
def start (now : ℤ) : Tracked := ⟨now, .empty, .empty⟩

/-- **The last grant of a coin** was to a call of that time, and no ask since was of a call more
than four days later. -/
def KeptSince (h : List News) (symbol : String) (t : ℤ) : Prop :=
  ∃ pre post, h = pre ++ .asked symbol true t :: post ∧
    ∀ other tracked t', .asked other tracked t' ∈ post →
      t' ≤ t + extraTrackTtlMs ∧ ¬(other = symbol ∧ tracked = true)

/-- **The coins whose last grant is at most four days old.** -/
def granted (h : List News) (now : ℤ) : Set String :=
  {symbol | ∃ t, KeptSince h symbol t ∧ now ≤ t + extraTrackTtlMs}

variable {casing : Prices.Casing} {lag : ℤ} {s : Tracked} {e : Event} {h : List News}
  {symbol : String} {time : ℤ}

theorem keptSince_concat {news : News} {t : ℤ} :
    KeptSince (h ++ [news]) symbol t ↔
      news = .asked symbol true t ∨ KeptSince h symbol t ∧
        ∀ other tracked t', news = .asked other tracked t' →
          t' ≤ t + extraTrackTtlMs ∧ ¬(other = symbol ∧ tracked = true) := by
  constructor
  · rintro ⟨pre, post, heq, hpost⟩
    rcases List.eq_nil_or_concat post with rfl | ⟨post, last, rfl⟩
    · exact Or.inl (List.singleton_inj.mp (List.append_inj' heq rfl).2)
    · rw [List.concat_eq_append] at heq hpost
      rw [← List.cons_append, ← List.append_assoc] at heq
      obtain ⟨rfl, hlast⟩ := List.append_inj' heq rfl
      obtain rfl := List.singleton_inj.mp hlast
      refine Or.inr ⟨⟨pre, post, rfl, fun other tracked t' hmem => ?_⟩,
        fun other tracked t' hnews => ?_⟩
      · exact hpost other tracked t' (List.mem_append_left _ hmem)
      · exact hpost other tracked t' (by simp [hnews])
  · rintro (rfl | ⟨⟨pre, post, rfl, hpost⟩, hnews⟩)
    · exact ⟨h, [], rfl, nofun⟩
    · refine ⟨pre, post ++ [news], by simp, fun other tracked t' hmem => ?_⟩
      rcases List.mem_append.mp hmem with hmem | hmem
      · exact hpost other tracked t' hmem
      · exact hnews other tracked t' (List.mem_singleton.mp hmem).symm

/-- **The set remembers what was granted**, and no more than there is room for. -/
structure Remembers (s : Tracked) (h : List News) : Prop where
  kept : ∀ symbol x, s.extra.get? symbol = some x ↔ KeptSince h symbol (x - extraTrackTtlMs)
  room : (stored s.extra).encard ≤ maxExtraTracked

theorem remembers_start (now : ℤ) : Remembers (start now) [] where
  kept symbol x := by simp [start, KeptSince]
  room := by simp [stored, start]

/-- What is tracked is what was granted. -/
theorem Remembers.live_eq (hr : Remembers s h) (now : ℤ) : live s.extra now = granted h now := by
  ext symbol
  constructor
  · rintro ⟨x, hget, hle⟩
    refine ⟨_, (hr.kept symbol x).mp hget, ?_⟩
    rwa [sub_add_cancel]
  · rintro ⟨t, hkept, hle⟩
    refine ⟨t + extraTrackTtlMs, (hr.kept symbol _).mpr ?_, hle⟩
    rwa [add_sub_cancel_right]

theorem Remembers.asks (hr : Remembers s h) (symbol : String) (startedAt : ℤ) :
    Remembers ((system casing lag).next s (.asks symbol startedAt))
      (h ++ (system casing lag).out s (.asks symbol startedAt)) where
  kept other x := by
    refine get?_trackExtra.trans (Iff.trans ?_ keptSince_concat.symm)
    have hgranted : (trackExtra s.extra symbol startedAt).1 = true ↔
        IsTrackable s.extra symbol startedAt := trackExtra_iff
    by_cases hnew : other = symbol ∧ IsTrackable s.extra symbol startedAt
    · obtain ⟨rfl, htrackable⟩ := hnew
      rw [if_pos ⟨rfl, htrackable⟩, hgranted.mpr htrackable]
      constructor
      · rintro rfl
        exact Or.inl (by rw [add_sub_cancel_right])
      · rintro (heq | ⟨-, hnot⟩)
        · obtain ⟨-, -, heq⟩ := News.asked.inj heq
          omega
        · exact absurd ⟨rfl, rfl⟩ (hnot _ _ _ rfl).2
    · rw [if_neg hnew, hr.kept]
      constructor
      · rintro ⟨hkept, hle⟩
        refine Or.inr ⟨hkept, fun o b t' heq => ?_⟩
        obtain ⟨rfl, rfl, rfl⟩ := News.asked.inj heq
        exact ⟨by omega, fun hsame => hnew ⟨hsame.1.symm, hgranted.mp hsame.2⟩⟩
      · rintro (heq | ⟨hkept, hle⟩)
        · obtain ⟨rfl, htrue, -⟩ := News.asked.inj heq
          exact absurd ⟨rfl, hgranted.mp htrue⟩ hnew
        · have := (hle _ _ _ rfl).1
          exact ⟨hkept, by omega⟩
  room := encard_stored_trackExtra hr.room

theorem Remembers.next (hr : Remembers s h) :
    Remembers ((system casing lag).next s e) (h ++ (system casing lag).out s e) := by
  cases e with
  | asks symbol startedAt => exact hr.asks symbol startedAt
  | lists watchlists startedAt =>
    refine ⟨fun symbol x => (hr.kept symbol x).trans (Iff.trans ?_ keptSince_concat.symm), hr.room⟩
    simp
  | ticks | samples | fills =>
    refine ⟨fun symbol x => (hr.kept symbol x).trans ?_, hr.room⟩
    rw [show (system casing lag).out s _ = [] from rfl, List.append_nil]

theorem remembers_final {now : ℤ} {es : List Event}
    (hr : (system casing lag).Run (start now) es) :
    Remembers ((system casing lag).final (start now) es)
      ((system casing lag).outputs (start now) es) := by
  have hrun := System.Run.history (J := Remembers) (h := [])
    (fun _ _ _ hremembers _ => hremembers.next) (remembers_start now) hr
  rwa [List.nil_append] at hrun

/-- The coins of a check are those of the watchlists and those that are tracked. -/
theorem mem_checkedSymbols {watchlists : InsertionMap String (List String)} :
    symbol ∈ checkedSymbols casing watchlists (listExtra s.extra time) ↔
      (∃ entry ∈ watchlists.entries, ∃ watched ∈ entry.2, casing.toLowerCase watched = symbol) ∨
        ∃ asked ∈ live s.extra time, casing.toLowerCase asked = symbol := by
  rw [checkedSymbols, mem_unique, List.map_append, List.mem_append, List.mem_map, List.mem_map]
  refine or_congr ?_ ?_
  · simp only [List.mem_flatMap]
    constructor
    · rintro ⟨watched, ⟨entry, hentry, hwatched⟩, heq⟩
      exact ⟨entry, hentry, watched, hwatched, heq⟩
    · rintro ⟨entry, hentry, watched, hwatched, heq⟩
      exact ⟨watched, ⟨entry, hentry, hwatched⟩, heq⟩
  · exact exists_congr fun asked => and_congr_left' mem_listExtra

/-- **What is tracked**, whatever calls overlap. An ask is granted if and only if the coin is among
those whose last grant is at most four days old or fewer than fifty are; a check covers the coins
of the watchlists it read and all of those, each once; and these are never more than fifty. -/
theorem tracked_coins {now : ℤ} {es : List Event}
    (hr : (system casing lag).Run (start now) es) :
    let recent := fun pre => granted ((system casing lag).outputs (start now) pre)
    (∀ pre post symbol startedAt, es = pre ++ .asks symbol startedAt :: post →
      ∃ tracked, (system casing lag).out ((system casing lag).final (start now) pre)
          (.asks symbol startedAt) = [.asked symbol tracked startedAt] ∧
        (tracked = true ↔ symbol ∈ recent pre startedAt ∨
          (recent pre startedAt).encard < maxExtraTracked)) ∧
    (∀ pre post watchlists startedAt, es = pre ++ .lists watchlists startedAt :: post →
      ∃ symbols, (system casing lag).out ((system casing lag).final (start now) pre)
          (.lists watchlists startedAt) = [.listed symbols startedAt] ∧
        symbols.Nodup ∧ ∀ symbol, symbol ∈ symbols ↔
          (∃ entry ∈ watchlists.entries, ∃ watched ∈ entry.2,
            casing.toLowerCase watched = symbol) ∨
          ∃ asked ∈ recent pre startedAt, casing.toLowerCase asked = symbol) ∧
    ∀ pre time, pre <+: es → (recent pre time).encard ≤ maxExtraTracked := by
  intro recent
  have hremembers {pre : List Event} (hpre : pre <+: es) :
      Remembers ((system casing lag).final (start now) pre)
        ((system casing lag).outputs (start now) pre) := by
    obtain ⟨post, rfl⟩ := hpre
    exact remembers_final ((System.run_append _ _ _ _).mp hr).1
  refine ⟨?_, ?_, fun pre time hpre => ?_⟩
  · rintro pre post symbol startedAt rfl
    have hpre := hremembers (List.prefix_append pre (.asks symbol startedAt :: post))
    refine ⟨_, rfl, ?_⟩
    rw [trackExtra_iff, isTrackable_iff, hpre.live_eq]
  · rintro pre post watchlists startedAt rfl
    have hpre := hremembers (List.prefix_append pre (.lists watchlists startedAt :: post))
    refine ⟨_, rfl, nodup_unique _, fun symbol => ?_⟩
    rw [mem_checkedSymbols, hpre.live_eq]
  · have hroom := (hremembers hpre).room
    show (granted _ time).encard ≤ _
    rw [← (hremembers hpre).live_eq]
    exact (Set.encard_mono live_subset_stored).trans hroom

/-- Somebody asks about a coin; a day later there is a check, and an ask of a call that was
started before it. -/
def askedTwice : List Event :=
  [.asks "btc" 0, .ticks 86400000, .lists .empty 86400000, .ticks 1000, .asks "eth" 86399000]

theorem tracked_coins_askedTwice :
    "btc" ∈ checkedSymbols Prices.asciiCasing .empty
      (listExtra ((system Prices.asciiCasing 5000).final (start 0)
        [.asks "btc" 0, .ticks 86400000]).extra 86400000) := by
  have hr : (system Prices.asciiCasing 5000).Run (start 0) askedTwice :=
    ⟨⟨le_rfl, by decide⟩, trivial, ⟨le_rfl, by decide⟩, trivial, ⟨by decide, by decide⟩, trivial⟩
  obtain ⟨symbols, hout, -, hmem⟩ :=
    (tracked_coins hr).2.1 [.asks "btc" 0, .ticks 86400000] _ _ _ rfl
  obtain ⟨rfl, -⟩ := News.listed.inj (List.singleton_inj.mp hout)
  refine (hmem "btc").mpr (.inr ⟨"btc", ⟨0, ⟨[], [], rfl, nofun⟩, by decide⟩, ?_⟩)
  decide +kernel

/-! ### Verdicts that are scored -/

/-- The clock does not go back. -/
theorem now_le_next (casing : Prices.Casing) (lag : ℤ) (s : Tracked) (e : Event) :
    s.now ≤ ((system casing lag).next s e).now := by
  cases e with
  | ticks ms => exact Int.le_add_of_nonneg_right (Int.natCast_nonneg ms)
  | _ => exact le_rfl

/-- **A coin that was granted stays in the set** for four days, less what the ask of an overtaken
call can take back. -/
structure StaysTracked (lag : ℤ) (symbol : String) (t : ℤ) (s : Tracked) : Prop where
  past : t ≤ s.now
  kept : s.now + lag ≤ t + extraTrackTtlMs →
    ∃ x, s.extra.get? symbol = some x ∧ t + extraTrackTtlMs ≤ x + lag

theorem StaysTracked.next {t : ℤ} (h : StaysTracked lag symbol t s)
    (hleg : (system casing lag).legal s e) :
    StaysTracked lag symbol t ((system casing lag).next s e) := by
  refine ⟨h.past.trans (now_le_next casing lag s e), fun hnow => ?_⟩
  have hbefore : s.now + lag ≤ t + extraTrackTtlMs :=
    (Int.add_le_add_right (now_le_next casing lag s e) lag).trans hnow
  obtain ⟨x, hget, hx⟩ := h.kept hbefore
  cases e with
  | asks asked startedAt =>
    have hpast := h.past
    obtain ⟨hstarted, hlag⟩ := hleg
    by_cases hnew : symbol = asked ∧ IsTrackable s.extra asked startedAt
    · exact ⟨startedAt + extraTrackTtlMs, get?_trackExtra.mpr (by rw [if_pos hnew]), by omega⟩
    · refine ⟨x, get?_trackExtra.mpr ?_, hx⟩
      rw [if_neg hnew]
      exact ⟨hget, by omega⟩
  | _ => exact ⟨x, hget, hx⟩

/-- A grant is the start of it. -/
theorem staysTracked_of_granted {t : ℤ} (hleg : (system casing lag).legal s e)
    (hasked : .asked symbol true t ∈ (system casing lag).out s e) :
    StaysTracked lag symbol t ((system casing lag).next s e) := by
  cases e with
  | asks asked startedAt =>
    obtain ⟨rfl, hgranted, rfl⟩ := News.asked.inj (List.mem_singleton.mp hasked)
    obtain ⟨hstarted, hlag⟩ := hleg
    refine ⟨hstarted, fun _ => ⟨t + extraTrackTtlMs, get?_trackExtra.mpr ?_, by omega⟩⟩
    rw [if_pos ⟨rfl, trackExtra_iff.mp hgranted.symm⟩]
  | lists => exact News.noConfusion (List.mem_singleton.mp hasked)
  | _ => cases hasked

/-- **A key holds a price** that is not earlier than it is due. -/
structure HoldsDue (due now : ℤ) (key : PriceKey) (point : PricePoint) : Prop where
  held : key.set.get? point = some (bucketStart dayMs point.t)
  price : isPrice point.p = true
  due : due ≤ point.t
  past : point.t ≤ now
  alive : point.t + dailyShelf.ttlMs ≤ key.expiresAt

/-- **A write leaves such a price**: a snapshot that removes it is not early itself. -/
theorem HoldsDue.write {due now : ℤ} {key : PriceKey} {point : PricePoint} {write : KeyWrite}
    (h : HoldsDue due now key point) (hproper : write.Proper) (hwritten : write.writtenAt = now)
    (hlate : ∀ snapped writtenAt, write = .snap snapped writtenAt → due ≤ snapped.t)
    (hnow : now ≤ due + 2 * scorecardDays * dayMs) :
    ∃ later, HoldsDue due now (writeKey dailyShelf key write) later := by
  subst hwritten
  have hstart : point.t < bucketStart dayMs point.t + dayMs := by
    simp only [bucketStart, dayMs, hourMs]
    omega
  have hdue := h.due
  have hpast := h.past
  have hheld : (key.heldAt write.writtenAt).get? point = some (bucketStart dayMs point.t) := by
    have halive := h.alive
    rw [PriceKey.heldAt, if_pos]
    · exact h.held
    · simp only [dailyShelf, scorecardDays, dailyRetentionMs, dayMs, hourMs] at *
      omega
  cases write with
  | snap snapped writtenAt =>
    have hsnapped := hlate snapped writtenAt rfl
    have hsnappedPast : snapped.t ≤ writtenAt := hproper.2
    by_cases hbucket : bucketStart dayMs point.t = bucketStart dayMs snapped.t
    · -- The snapshot takes the place of the price.
      refine ⟨snapped, get?_storeSample.mpr ⟨Or.inl ⟨rfl, rfl⟩, ?_⟩, hproper.1, hsnapped,
        hsnappedPast, Int.add_le_add_right hsnappedPast _⟩
      simp only [dailyShelf, dailyRetentionMs, bucketStart, dayMs, hourMs]
      omega
    · refine ⟨point, get?_storeSample.mpr ⟨Or.inr ⟨?_, hheld, hbucket⟩, ?_⟩, h.price, hdue, hpast,
        Int.add_le_add_right hpast _⟩
      · rintro rfl
        exact hbucket rfl
      · simp only [dailyShelf, KeyWrite.writtenAt, scorecardDays, dailyRetentionMs, dayMs,
          hourMs] at *
        omega
  | fill points writtenAt =>
    cases points with
    | nil => exact ⟨point, h⟩
    | cons first rest =>
      refine ⟨point, get?_addPoints.mpr ?_, h.price, hdue, hpast, Int.add_le_add_right hpast _⟩
      by_cases hmem : point ∈ first :: rest
      · exact Or.inl ⟨hmem, rfl⟩
      · exact Or.inr ⟨hmem, hheld⟩

/-- **A price is kept** that is not earlier than it is due, for as long as a verdict counts. -/
structure StaysDue (lag : ℤ) (symbol : String) (due : ℤ) (s : Tracked) : Prop where
  past : due + lag ≤ s.now
  kept : s.now ≤ due + 2 * scorecardDays * dayMs →
    ∃ point, HoldsDue due s.now (s.keys symbol).daily point

/-- **A write of the histories** leaves it. -/
theorem StaysDue.run {due : ℤ} (h : StaysDue lag symbol due s) (write : HistoryWrite)
    (hwritten : write.writtenAt = s.now) (hproper : write.Proper BackfillPoints.daily)
    (hlate : ∀ prices startedAt writtenAt, write = .snapshot prices startedAt writtenAt →
      due ≤ startedAt) : StaysDue lag symbol due { s with keys := write.run s.keys } := by
  refine ⟨h.past, fun hnow => ?_⟩
  obtain ⟨point, hholds⟩ := h.kept hnow
  change ∃ point, HoldsDue due s.now (write.run s.keys symbol).daily point
  rw [run_apply]
  cases hkey : write.onKey BackfillPoints.daily symbol with
  | none => exact ⟨point, hholds⟩
  | some keyWrite =>
    obtain ⟨hkeyTime, hkeyProper⟩ := onKey_spec hproper hkey
    refine hholds.write hkeyProper (hkeyTime.trans hwritten) ?_ hnow
    rintro snapped writtenAt rfl
    cases write with
    | snapshot prices startedAt writtenAt' =>
      obtain ⟨point', hsample, heq⟩ := Option.map_eq_some_iff.mp hkey
      obtain ⟨rfl, -⟩ := KeyWrite.snap.inj heq
      rw [(sampleOf_eq_some hsample).2]
      exact hlate prices startedAt writtenAt' rfl
    | backfill filled points writtenAt' =>
      rw [HistoryWrite.onKey] at hkey
      split at hkey <;> cases hkey

theorem StaysDue.next {due : ℤ} (h : StaysDue lag symbol due s)
    (hleg : (system casing lag).legal s e) :
    StaysDue lag symbol due ((system casing lag).next s e) := by
  have hpast := h.past
  cases e with
  | ticks ms =>
    have hms : (0 : ℤ) ≤ ms := Int.natCast_nonneg ms
    refine ⟨h.past.trans (now_le_next casing lag s _), fun hnow => ?_⟩
    have hnow' : s.now + ms ≤ due + 2 * scorecardDays * dayMs := hnow
    obtain ⟨point, hholds⟩ := h.kept (by omega)
    exact ⟨point, hholds.held, hholds.price, hholds.due,
      hholds.past.trans (now_le_next casing lag s _), hholds.alive⟩
  | asks | lists => exact ⟨h.past, h.kept⟩
  | samples symbols prices startedAt =>
    refine h.run (.snapshot (pricedSamples symbols prices) startedAt s.now) rfl hleg.1 ?_
    intro _ _ _ heq
    obtain ⟨-, rfl, -⟩ := HistoryWrite.snapshot.inj heq
    obtain ⟨-, hlag⟩ := hleg
    omega
  | fills filled points =>
    refine h.run (.backfill filled points s.now) rfl ?_ nofun
    exact fun point hpoint => hleg point (List.mem_append_right _ hpoint)

/-- **A call samples every coin it finds a price for.** -/
theorem staysDue_samples {symbols : List String} {prices : InsertionMap String JsNumber}
    {startedAt due : ℤ} (hleg : (system casing lag).legal s (.samples symbols prices startedAt))
    (hmem : symbol ∈ symbols) (hprice : isPrice (priceOf prices symbol) = true)
    (hlag : 0 ≤ lag) (hdue : due + lag ≤ startedAt) :
    StaysDue lag symbol due ((system casing lag).next s (.samples symbols prices startedAt)) := by
  have hstarted : startedAt ≤ s.now := hleg.1
  have hlisted : (pricedSamples symbols prices).get? symbol = some (priceOf prices symbol) := by
    refine InsertionMap.get?_ofList_of_forall ?_ fun e he hkey => ?_
    · exact List.mem_map.mpr ⟨symbol, List.mem_filter.mpr ⟨hmem, hprice⟩, rfl⟩
    · obtain ⟨other, -, rfl⟩ := List.mem_map.mp he
      exact congrArg (priceOf prices) hkey
  have hsample : sampleOf (pricedSamples symbols prices) startedAt symbol =
      some ⟨startedAt, priceOf prices symbol⟩ := by
    rw [sampleOf, hlisted, Option.filter_some, if_pos hprice]
    rfl
  refine ⟨hdue.trans hstarted, fun _ => ⟨⟨startedAt, priceOf prices symbol⟩, ?_⟩⟩
  change HoldsDue due s.now
    (snapshotKeys s.keys (pricedSamples symbols prices) startedAt s.now symbol).daily _
  rw [snapshotKeys, hsample]
  refine ⟨get?_storeSample.mpr ⟨Or.inl ⟨rfl, rfl⟩, ?_⟩, hprice, ?_, hstarted, ?_⟩
  · simp only [dailyShelf, dailyRetentionMs, bucketStart, dayMs, hourMs]
    omega
  · exact (Int.le_add_of_nonneg_right hlag).trans hdue
  · exact Int.add_le_add_right hstarted _

/-- **A verdict is scored** while such a price is kept, at every look of its thirty days. -/
theorem StaysDue.isSome_score {record : SignalRecord}
    (h : StaysDue lag symbol (record.at_ + horizonMs) s) (hlag : lag ≤ dayMs)
    (text : PricePoint → String) (hsymbol : record.symbol = symbol) {look : ℤ}
    (hlook : s.now ≤ look + lag) (hwindow : look - scorecardDays * dayMs ≤ record.at_) :
    (verdictScore text (s.keys.heldAt s.now) record look).isSome = true := by
  have hpast := h.past
  obtain ⟨point, hholds⟩ := h.kept (by
    simp only [scorecardDays, horizonMs, dayMs, hourMs] at *
    omega)
  have hdue := hholds.due
  have hread : point ∈ rangeByScore text ((s.keys symbol).daily.heldAt s.now)
      (look - (backtestDays + 1) * dayMs) := by
    have halive := hholds.alive
    refine mem_rangeByScore.mpr ⟨bucketStart dayMs point.t, ?_, ?_⟩
    · rw [PriceKey.heldAt, if_pos]
      · exact hholds.held
      · simp only [dailyShelf, scorecardDays, horizonMs, dailyRetentionMs, dayMs, hourMs] at *
        omega
    · simp only [backtestDays, scorecardDays, horizonMs, bucketStart, dayMs, hourMs] at *
      omega
  obtain ⟨later, hkept, hlater⟩ := (sifted_foldl dayMs _).covers point hread hholds.price
  rw [verdictScore, scoreOf, Option.isSome_map, laterPoint, if_pos (by omega), List.find?_isSome,
    hsymbol]
  refine ⟨later, mem_sortOn.mpr (List.mem_append_left _ ?_), decide_eq_true (hdue.trans hlater)⟩
  exact mem_parseMembers_iff.mpr ⟨_, hkept⟩

/-- **A coin that was asked about is followed long enough.** Every check covers the coin that is
started within four days of a call whose ask was granted, less twice the time that calls take. If
the check finds a price for it when a verdict on the coin has been due for that time, three days
after it was given, then the verdict is scored at every later look of the thirty days of the
scorecard, whatever else is asked, checked and written meanwhile. -/
theorem tracked_verdicts_scored {now : ℤ} (pre mid mid' post : List Event) {e e' : Event}
    {t r : ℤ} {symbols : List String} {prices : InsertionMap String JsNumber}
    (hr : (system casing lag).Run (start now)
      (pre ++ e :: (mid ++ e' :: (mid' ++ .samples symbols prices r :: post))))
    (hasked : .asked symbol true t ∈
      (system casing lag).out ((system casing lag).final (start now) pre) e)
    (hlisted : .listed symbols r ∈ (system casing lag).out
      ((system casing lag).final (start now) (pre ++ e :: mid)) e')
    (htracked : r + 2 * lag ≤ t + extraTrackTtlMs) (hlower : casing.toLowerCase symbol = symbol)
    (hlag : 0 ≤ lag ∧ lag ≤ dayMs) :
    symbol ∈ symbols ∧ (isPrice (priceOf prices symbol) = true →
      ∀ (text : PricePoint → String) (record : SignalRecord), record.symbol = symbol →
        record.at_ + horizonMs + lag ≤ r →
        let s := (system casing lag).final (start now)
          (pre ++ e :: (mid ++ e' :: (mid' ++ .samples symbols prices r :: post)))
        ∀ look, s.now ≤ look + lag → look - scorecardDays * dayMs ≤ record.at_ →
          (verdictScore text (s.keys.heldAt s.now) record look).isSome = true) := by
  obtain ⟨-, hleg, hr⟩ := (System.run_append _ _ _ _).mp hr
  obtain ⟨hmid, hleg', hr⟩ := (System.run_append _ _ _ _).mp hr
  obtain ⟨-, hleg'', hpost⟩ := (System.run_append _ _ _ _).mp hr
  rw [System.final_append, System.final_cons] at hlisted
  simp only [System.final_append, System.final_cons]
  have hstays := System.Run.invariant (fun _ _ h hleg => StaysTracked.next h hleg)
    (staysTracked_of_granted hleg hasked) hmid
  generalize (system casing lag).final
    ((system casing lag).next ((system casing lag).final (start now) pre) e) mid = s at *
  cases e' with
  | lists watchlists startedAt =>
    obtain ⟨rfl, rfl⟩ := News.listed.inj (List.mem_singleton.mp hlisted)
    obtain ⟨hstarted, hstartedLag⟩ := hleg'
    obtain ⟨x, hget, hx⟩ := hstays.kept (by omega)
    have hmem : symbol ∈ checkedSymbols casing watchlists (listExtra s.extra r) :=
      mem_checkedSymbols.mpr (.inr ⟨symbol, ⟨x, hget, by omega⟩, hlower⟩)
    refine ⟨hmem, fun hprice text record hsymbol hdue look hlook hwindow => ?_⟩
    have hsampled := staysDue_samples hleg'' hmem hprice hlag.1 hdue
    have hlater := System.Run.invariant (fun _ _ h hleg => StaysDue.next h hleg) hsampled hpost
    exact hlater.isSome_score hlag.2 text hsymbol hlook hwindow
  | asks => exact News.noConfusion (List.mem_singleton.mp hlisted)
  | _ => cases hlisted

/-- A check three days and a minute after a verdict, an ask of an earlier call that saves its
sample a second later, and a look one more day later. -/
def pricedOnce : List Event :=
  [.ticks 259260000, .lists .empty 259260000, .ticks 2000,
    .samples ["btc"] (.ofList [("btc", .finite 110)]) 259260000, .ticks 1000,
    .samples ["btc"] (.ofList [("btc", .finite 120)]) 259259000, .ticks 86400000]

theorem tracked_verdicts_scored_pricedOnce :
    let s := (system Prices.asciiCasing 5000).final (start 0) (.asks "btc" 0 :: pricedOnce)
    (verdictScore wholeText (s.keys.heldAt s.now) btcBuy s.now).isSome = true := by
  have hr : (system Prices.asciiCasing 5000).Run (start 0) (.asks "btc" 0 :: pricedOnce) :=
    ⟨⟨le_rfl, by decide⟩, trivial, ⟨by decide, by decide⟩, trivial, ⟨by decide, by decide⟩,
      trivial, ⟨by decide, by decide⟩, trivial, trivial⟩
  have hscored : "btc" ∈ ["btc"] ∧ _ := tracked_verdicts_scored [] [.ticks 259260000] [.ticks 2000]
    [.ticks 1000, .samples ["btc"] (.ofList [("btc", .finite 120)]) 259259000, .ticks 86400000] hr
    (List.mem_singleton.mpr rfl)
    (List.mem_singleton.mpr (congrArg (News.listed · 259260000) (by decide +kernel))) (by decide)
    (by decide +kernel) (by decide)
  exact hscored.2 (by decide +kernel) wholeText btcBuy rfl (by decide) _ (by decide) (by decide)

end Tracked

end Signals

end CryptoZaloBot
