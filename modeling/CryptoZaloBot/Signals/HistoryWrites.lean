import CryptoZaloBot.Signals.History

/-!
# Snapshots and backfills

Two kinds of writes meet in a price history. A snapshot replaces what its hour and its day
hold and cuts what is past retention; a backfill only adds, so that one bucket may hold a
sample of each. Every write also sets when its keys expire, and a key that expires takes all
its samples along. While the keys last this is what `CryptoZaloBot.Signals.snapshot` and
`CryptoZaloBot.Signals.writeBackfill` do (`CryptoZaloBot.Signals.heldAt_snapshotKeys`,
`CryptoZaloBot.Signals.heldAt_writeBackfillKeys`).

A snapshot is written some time after the time it is taken for, and replaces without looking: it
removes a sample that is later than its own, if a backfill was faster
(`CryptoZaloBot.Signals.load_not_always_latest`). Nothing else shows in what is read. A bucket
that is not too old has its latest price among all that were ever written to it, exactly if no
snapshot undercut that price (`CryptoZaloBot.Signals.load_runWrites`).
-/

namespace CryptoZaloBot

namespace Signals

/-! ### Keys that expire -/

/-- **How a key keeps samples**: one of each bucket, for some time. A key is there for as long
as its samples are kept. -/
structure Shelf where
  bucketMs : ℤ
  retentionMs : ℤ
  ttlMs : ℤ
  bucketMs_pos : 0 < bucketMs
  retentionMs_nonneg : 0 ≤ retentionMs
  retentionMs_le : retentionMs ≤ ttlMs

/-- `Math.ceil(HOURLY_RETENTION_MS / 1000) + 3600`, in seconds. -/
def hourlyShelf : Shelf where
  bucketMs := hourMs
  retentionMs := hourlyRetentionMs
  ttlMs := (hourlyRetentionMs / 1000 + 3600) * 1000
  bucketMs_pos := by decide
  retentionMs_nonneg := by decide
  retentionMs_le := by decide

/-- `Math.ceil(DAILY_RETENTION_MS / 1000) + 86_400`, in seconds. -/
def dailyShelf : Shelf where
  bucketMs := dayMs
  retentionMs := dailyRetentionMs
  ttlMs := (dailyRetentionMs / 1000 + 86400) * 1000
  bucketMs_pos := by decide
  retentionMs_nonneg := by decide
  retentionMs_le := by decide

/-- A sorted set with the last millisecond it is there. -/
structure PriceKey where
  set : PriceSet
  expiresAt : ℤ

def PriceKey.empty : PriceKey := ⟨.empty, 0⟩

/-- What a key holds at a time. -/
def PriceKey.heldAt (key : PriceKey) (now : ℤ) : PriceSet :=
  if now ≤ key.expiresAt then key.set else .empty

/-- **What is done to a key**, and when: a sample is snapped, or points are filled in. -/
inductive KeyWrite where
  | snap (point : PricePoint) (writtenAt : ℤ)
  | fill (points : List PricePoint) (writtenAt : ℤ)
  deriving DecidableEq

def KeyWrite.writtenAt : KeyWrite → ℤ
  | .snap _ writtenAt => writtenAt
  | .fill _ writtenAt => writtenAt

def KeyWrite.points : KeyWrite → List PricePoint
  | .snap point _ => [point]
  | .fill points _ => points

/-- A snapped sample is a price, and nothing is written that is later than its write. -/
def KeyWrite.Proper : KeyWrite → Prop
  | .snap point writtenAt => isPrice point.p = true ∧ point.t ≤ writtenAt
  | .fill points writtenAt => ∀ point ∈ points, point.t ≤ writtenAt

/-- **A write of one key**, with its new expiry. Without points a backfill leaves it alone. -/
def writeKey (shelf : Shelf) (key : PriceKey) : KeyWrite → PriceKey
  | .snap point writtenAt =>
    { set := storeSample shelf.bucketMs shelf.retentionMs (key.heldAt writtenAt) point
      expiresAt := writtenAt + shelf.ttlMs }
  | .fill [] _ => key
  | .fill (first :: rest) writtenAt =>
    { set := addPoints shelf.bucketMs (key.heldAt writtenAt) (first :: rest)
      expiresAt := writtenAt + shelf.ttlMs }

/-! ### The two keys of each coin -/

/-- The two keys of a coin. -/
structure SymbolKeys where
  hourly : PriceKey
  daily : PriceKey

/-- The keys of all coins. -/
abbrev KeyStore := String → SymbolKeys

def KeyStore.empty : KeyStore := fun _ => ⟨.empty, .empty⟩

/-- **What the keys hold** at a time. -/
def KeyStore.heldAt (store : KeyStore) (now : ℤ) : HistoryStore := fun symbol =>
  ⟨(store symbol).hourly.heldAt now, (store symbol).daily.heldAt now⟩

/-- **`snapshot`** as of `now`, with the expiry of the keys. -/
def snapshotKeys (store : KeyStore) (prices : InsertionMap String JsNumber)
    (now writtenAt : ℤ) : KeyStore := fun symbol =>
  match sampleOf prices now symbol with
  | none => store symbol
  | some point =>
    { hourly := writeKey hourlyShelf (store symbol).hourly (.snap point writtenAt)
      daily := writeKey dailyShelf (store symbol).daily (.snap point writtenAt) }

/-- **`writeBackfill`**, with the expiry of the keys. -/
def writeBackfillKeys (store : KeyStore) (symbol : String) (points : BackfillPoints)
    (writtenAt : ℤ) : KeyStore :=
  Function.update store symbol
    { hourly := writeKey hourlyShelf (store symbol).hourly (.fill points.hourly writtenAt)
      daily := writeKey dailyShelf (store symbol).daily (.fill points.daily writtenAt) }

/-- A call that writes histories, and when Redis carries it out. -/
inductive HistoryWrite where
  | snapshot (prices : InsertionMap String JsNumber) (now writtenAt : ℤ)
  | backfill (symbol : String) (points : BackfillPoints) (writtenAt : ℤ)

def HistoryWrite.writtenAt : HistoryWrite → ℤ
  | .snapshot _ _ writtenAt => writtenAt
  | .backfill _ _ writtenAt => writtenAt

/-- The samples of a call are not later than its write. -/
def HistoryWrite.Proper (pick : BackfillPoints → List PricePoint) : HistoryWrite → Prop
  | .snapshot _ now writtenAt => now ≤ writtenAt
  | .backfill _ points writtenAt => ∀ point ∈ pick points, point.t ≤ writtenAt

def HistoryWrite.run (store : KeyStore) : HistoryWrite → KeyStore
  | .snapshot prices now writtenAt => snapshotKeys store prices now writtenAt
  | .backfill symbol points writtenAt => writeBackfillKeys store symbol points writtenAt

/-- **The keys after some writes**, from none. -/
def runWrites (writes : List HistoryWrite) : KeyStore := writes.foldl HistoryWrite.run .empty

section Reading

variable (text : PricePoint → String)

/-- `loadHourly`, from keys that expire. -/
def loadHourlyKeys (store : KeyStore) (symbol : String) (now : ℤ) : List PricePoint :=
  loadHourly text (store.heldAt now) symbol now

/-- `loadDaily`, from keys that expire. -/
def loadDailyKeys (store : KeyStore) (symbol : String) (now : ℤ) : List PricePoint :=
  loadDaily text (store.heldAt now) symbol now

end Reading

/-- What a call does to one of a coin's keys. -/
def HistoryWrite.onKey (pick : BackfillPoints → List PricePoint) (symbol : String) :
    HistoryWrite → Option KeyWrite
  | .snapshot prices now writtenAt =>
    (sampleOf prices now symbol).map fun point => .snap point writtenAt
  | .backfill filled points writtenAt =>
    if filled = symbol then some (.fill (pick points) writtenAt) else none

/-- What calls did to one of a coin's keys. -/
def keyWrites (pick : BackfillPoints → List PricePoint) (symbol : String)
    (writes : List HistoryWrite) : List KeyWrite :=
  writes.filterMap (HistoryWrite.onKey pick symbol)

/-- **All samples that were ever written** to one of a coin's keys. -/
def everWritten (pick : BackfillPoints → List PricePoint) (symbol : String)
    (writes : List HistoryWrite) : List PricePoint :=
  (keyWrites pick symbol writes).flatMap KeyWrite.points

/-- **The latest price of its bucket**, of some samples. -/
structure LatestPrice (bucketMs : ℤ) (samples : List PricePoint) (point : PricePoint) : Prop where
  mem : point ∈ samples
  price : isPrice point.p = true
  latest : ∀ x ∈ samples, isPrice x.p = true → x.t / bucketMs = point.t / bucketMs → x.t ≤ point.t

/-- A time determines its sample. -/
def TimesDiffer (samples : List PricePoint) : Prop :=
  ∀ x ∈ samples, ∀ y ∈ samples, x.t = y.t → x = y

instance (samples : List PricePoint) : Decidable (TimesDiffer samples) :=
  inferInstanceAs (Decidable (∀ x ∈ samples, ∀ y ∈ samples, x.t = y.t → x = y))

/-- **What is read is right**: oldest first and one a bucket, and of the buckets that are not
too old, the latest price of each that has one. -/
structure ReadsLatest (bucketMs cutoff : ℤ) (samples read : List PricePoint) : Prop where
  oldestFirst : read.Pairwise fun x y => x.t / bucketMs < y.t / bucketMs
  latest : ∀ point, cutoff ≤ bucketStart bucketMs point.t →
    (point ∈ read ↔ LatestPrice bucketMs samples point)
  covers : ∀ x ∈ samples, isPrice x.p = true → cutoff ≤ bucketStart bucketMs x.t →
    ∃ point ∈ read, point.t / bucketMs = x.t / bucketMs

/-- **A sample is undercut**: after its last write a snapshot of its bucket comes that is for an
earlier time. -/
def Undercut (bucketMs : ℤ) (writes : List KeyWrite) (x : PricePoint) : Prop :=
  ∃ pre point writtenAt post, writes = pre ++ .snap point writtenAt :: post ∧
    x ∈ pre.flatMap KeyWrite.points ∧ x ∉ post.flatMap KeyWrite.points ∧
      point.t / bucketMs = x.t / bucketMs ∧ point.t < x.t

/-- **No latest price is undercut**, of the buckets that are not too old. -/
def NeverUndercut (bucketMs cutoff : ℤ) (writes : List KeyWrite) : Prop :=
  ∀ x, LatestPrice bucketMs (writes.flatMap KeyWrite.points) x →
    cutoff ≤ bucketStart bucketMs x.t → ¬Undercut bucketMs writes x

/-! ### While the keys last -/

theorem le_expiry (shelf : Shelf) (writtenAt : ℤ) : writtenAt ≤ writtenAt + shelf.ttlMs := by
  have hretention := shelf.retentionMs_nonneg
  have httl := shelf.retentionMs_le
  omega

/-- What a key holds when a sample was just snapped. -/
theorem heldAt_writeKey_snap (shelf : Shelf) (key : PriceKey) (point : PricePoint)
    (writtenAt : ℤ) :
    (writeKey shelf key (.snap point writtenAt)).heldAt writtenAt =
      storeSample shelf.bucketMs shelf.retentionMs (key.heldAt writtenAt) point :=
  if_pos (le_expiry shelf writtenAt)

/-- What a key holds when points were just filled in. -/
theorem heldAt_writeKey_fill (shelf : Shelf) (key : PriceKey) (points : List PricePoint)
    (writtenAt : ℤ) :
    (writeKey shelf key (.fill points writtenAt)).heldAt writtenAt =
      addPoints shelf.bucketMs (key.heldAt writtenAt) points := by
  cases points with
  | nil => rfl
  | cons first rest => exact if_pos (le_expiry shelf writtenAt)

/-- **A snapshot of keys that expire is a snapshot** of what they hold. -/
theorem heldAt_snapshotKeys (store : KeyStore) (prices : InsertionMap String JsNumber)
    (now writtenAt : ℤ) :
    (snapshotKeys store prices now writtenAt).heldAt writtenAt =
      snapshot (store.heldAt writtenAt) prices now := by
  funext symbol
  rw [KeyStore.heldAt, snapshotKeys, snapshot]
  cases sampleOf prices now symbol with
  | none => rfl
  | some point =>
    dsimp only
    rw [heldAt_writeKey_snap, heldAt_writeKey_snap]
    rfl

/-- **A backfill of keys that expire is a backfill** of what they hold. -/
theorem heldAt_writeBackfillKeys (store : KeyStore) (symbol : String) (points : BackfillPoints)
    (writtenAt : ℤ) :
    (writeBackfillKeys store symbol points writtenAt).heldAt writtenAt =
      writeBackfill (store.heldAt writtenAt) symbol points := by
  funext other
  rw [KeyStore.heldAt, writeBackfillKeys, writeBackfill]
  rcases eq_or_ne other symbol with rfl | hne
  · rw [Function.update_self, Function.update_self]
    dsimp only
    rw [heldAt_writeKey_fill, heldAt_writeKey_fill]
    rfl
  · rw [Function.update_of_ne hne, Function.update_of_ne hne]
    rfl

/-! ### What is parsed -/

section Parsing

variable {bucketMs : ℤ} {members : List PricePoint} {point : PricePoint}

/-- **What is parsed are the latest prices** of the members. -/
theorem mem_parseMembers_iff_latest (hdiffer : TimesDiffer members) :
    point ∈ parseMembers members bucketMs ↔ LatestPrice bucketMs members point := by
  constructor
  · intro h
    obtain ⟨hmem, hprice, hlatest⟩ := of_mem_parseMembers h
    exact ⟨hmem, hprice, hlatest⟩
  · rintro ⟨hmem, hprice, hlatest⟩
    have hsifted := sifted_foldl bucketMs members
    obtain ⟨later, hkept, hle⟩ := hsifted.covers point hmem hprice
    obtain ⟨hlater, hlaterPrice, hbucket⟩ := hsifted.kept _ later hkept
    have hge : later.t ≤ point.t := hlatest later hlater hlaterPrice hbucket
    obtain rfl := hdiffer later hlater point hmem (le_antisymm hge hle)
    exact mem_parseMembers_iff.mpr ⟨_, hkept⟩

/-- A bucket that has a price has a latest one. -/
theorem exists_latestPrice (bucketMs : ℤ) (hmem : point ∈ members)
    (hprice : isPrice point.p = true) :
    ∃ later, LatestPrice bucketMs members later ∧ later.t / bucketMs = point.t / bucketMs := by
  have hsifted := sifted_foldl bucketMs members
  obtain ⟨later, hkept, -⟩ := hsifted.covers point hmem hprice
  obtain ⟨hlater, hlaterPrice, hlatest⟩ := of_mem_parseMembers (mem_parseMembers_iff.mpr ⟨_, hkept⟩)
  exact ⟨later, ⟨hlater, hlaterPrice, hlatest⟩, (hsifted.kept _ later hkept).2.2⟩

/-- **Oldest first, and one a bucket.** -/
theorem pairwise_parseMembers (hbucket : 0 < bucketMs) :
    (parseMembers members bucketMs).Pairwise fun x y => x.t / bucketMs < y.t / bucketMs := by
  set kept := (members.foldl (keepLater bucketMs) .empty) with hkept
  have hkeys : (kept.entries.map Prod.snd).map (fun x => x.t / bucketMs) =
      kept.entries.map Prod.fst := by
    rw [List.map_map]
    refine List.map_congr_left fun e he => ?_
    exact ((sifted_foldl bucketMs members).kept e.1 e.2 (InsertionMap.mem_entries.mp he)).2.2
  have hnodup : ((parseMembers members bucketMs).map fun x => x.t / bucketMs).Nodup := by
    have hperm : (parseMembers members bucketMs).Perm (kept.entries.map Prod.snd) :=
      List.perm_insertionSort _ _
    rw [(hperm.map _).nodup_iff, hkeys]
    exact kept.nodup
  refine ((sorted_sortOn _).and (List.pairwise_map.mp hnodup)).imp ?_
  rintro x y ⟨hle, hne⟩
  exact lt_of_le_of_ne (Int.ediv_le_ediv hbucket hle) hne

end Parsing

/-! ### What a key holds -/

section Keys

variable {shelf : Shelf} {written points : List PricePoint} {set : PriceSet} {key : PriceKey}
  {point : PricePoint} {now later last : ℤ}

theorem bucketStart_inj (hbucket : 0 < shelf.bucketMs) {x y : PricePoint} :
    bucketStart shelf.bucketMs x.t = bucketStart shelf.bucketMs y.t ↔
      x.t / shelf.bucketMs = y.t / shelf.bucketMs :=
  Int.mul_eq_mul_right_iff hbucket.ne'

theorem bucketStart_le (hbucket : 0 < shelf.bucketMs) (t : ℤ) :
    bucketStart shelf.bucketMs t ≤ t :=
  Int.ediv_mul_le t hbucket.ne'

/-- **A set holds the latest** of what was written: nothing else, and of each price that is not
past retention its bucket has one at least as late. -/
structure HoldsLatest (shelf : Shelf) (written : List PricePoint) (set : PriceSet) (now : ℤ) :
    Prop where
  sound : ∀ x score, set.get? x = some score →
    x ∈ written ∧ score = bucketStart shelf.bucketMs x.t
  complete : ∀ x ∈ written, isPrice x.p = true →
    now - shelf.retentionMs ≤ bucketStart shelf.bucketMs x.t →
    ∃ y score, set.get? y = some score ∧ isPrice y.p = true ∧
      y.t / shelf.bucketMs = x.t / shelf.bucketMs ∧ x.t ≤ y.t

/-- **What a key holds was written**, and the key is there for as long as any of it may be
read. -/
structure KeySound (shelf : Shelf) (written : List PricePoint) (key : PriceKey) (last : ℤ) :
    Prop where
  past : ∀ x ∈ written, x.t ≤ last
  sound : ∀ x score, key.set.get? x = some score →
    x ∈ written ∧ score = bucketStart shelf.bucketMs x.t
  alive : ∀ x score, key.set.get? x = some score → x.t + shelf.ttlMs ≤ key.expiresAt

theorem keySound_empty (last : ℤ) : KeySound shelf [] .empty last where
  past _ hx := absurd hx (List.not_mem_nil)
  sound _ _ hx := absurd hx (by simp [PriceKey.empty])
  alive _ _ hx := absurd hx (by simp [PriceKey.empty])

theorem KeySound.mono (h : KeySound shelf written key last) (hle : last ≤ later) :
    KeySound shelf written key later :=
  ⟨fun x hx => (h.past x hx).trans hle, h.sound, h.alive⟩

/-- A key that expired holds nothing. -/
theorem get?_of_get?_heldAt {x : PricePoint} {score : ℤ}
    (hx : (key.heldAt now).get? x = some score) : key.set.get? x = some score := by
  rw [PriceKey.heldAt] at hx
  split at hx
  · exact hx
  · cases hx

/-- **A sample that is not past retention** is not lost to the expiry of its key. -/
theorem KeySound.get?_heldAt (h : KeySound shelf written key last) {x : PricePoint} {score : ℤ}
    (hrecent : now - shelf.retentionMs ≤ x.t) :
    (key.heldAt now).get? x = some score ↔ key.set.get? x = some score := by
  refine ⟨get?_of_get?_heldAt, fun hx => ?_⟩
  have halive := h.alive x score hx
  have httl := shelf.retentionMs_le
  rw [PriceKey.heldAt, if_pos (by omega)]
  exact hx

/-- What points that are filled in leave. -/
theorem get?_addPoints {x : PricePoint} {score : ℤ} {bucketMs : ℤ} :
    (addPoints bucketMs set points).get? x = some score ↔
      x ∈ points ∧ score = bucketStart bucketMs x.t ∨ x ∉ points ∧ set.get? x = some score := by
  induction points using List.reverseRecOn with
  | nil => simp [addPoints]
  | append_singleton points point ih =>
    rw [addPoints, List.foldl_concat, ← addPoints]
    rcases eq_or_ne x point with rfl | hne
    · rw [InsertionMap.get?_set_self]
      simp [eq_comm]
    · rw [InsertionMap.get?_set_of_ne _ _ hne, ih]
      simp [hne]

/-- **What a write leaves** in a key. -/
theorem get?_writeKey {write : KeyWrite} {x : PricePoint} {score : ℤ}
    (hx : (writeKey shelf key write).set.get? x = some score) :
    x ∈ write.points ∧ score = bucketStart shelf.bucketMs x.t ∨ key.set.get? x = some score := by
  cases write with
  | snap point writtenAt =>
    obtain ⟨⟨rfl, rfl⟩ | ⟨-, hget, -⟩, -⟩ := get?_storeSample.mp hx
    · exact Or.inl ⟨List.mem_singleton_self x, rfl⟩
    · exact Or.inr (get?_of_get?_heldAt hget)
  | fill points writtenAt =>
    cases points with
    | nil => exact Or.inr hx
    | cons first rest =>
      exact (get?_addPoints.mp hx).imp id fun h => get?_of_get?_heldAt h.2

/-- Only a backfill without points leaves the expiry of its key alone. -/
theorem expiresAt_writeKey (shelf : Shelf) (key : PriceKey) (write : KeyWrite) :
    (writeKey shelf key write).expiresAt = write.writtenAt + shelf.ttlMs ∨
      write.points = [] ∧ writeKey shelf key write = key := by
  rcases write with ⟨point, writtenAt⟩ | ⟨_ | ⟨first, rest⟩, writtenAt⟩
  · exact Or.inl rfl
  · exact Or.inr ⟨rfl, rfl⟩
  · exact Or.inl rfl

theorem KeyWrite.Proper.le_writtenAt {write : KeyWrite} (h : write.Proper) {x : PricePoint}
    (hx : x ∈ write.points) : x.t ≤ write.writtenAt := by
  cases write with
  | snap point writtenAt => exact List.mem_singleton.mp hx ▸ h.2
  | fill points writtenAt => exact h x hx

/-- **Every write keeps it.** -/
theorem KeySound.write {write : KeyWrite} (h : KeySound shelf written key last)
    (hle : last ≤ write.writtenAt) (hproper : write.Proper) :
    KeySound shelf (written ++ write.points) (writeKey shelf key write) write.writtenAt := by
  have hpast : ∀ x ∈ written ++ write.points, x.t ≤ write.writtenAt :=
    List.forall_mem_append.mpr ⟨fun x hx => (h.past x hx).trans hle, fun _ => hproper.le_writtenAt⟩
  have hsound : ∀ x score, (writeKey shelf key write).set.get? x = some score →
      x ∈ written ++ write.points ∧ score = bucketStart shelf.bucketMs x.t := by
    intro x score hx
    rcases get?_writeKey hx with ⟨hmem, hscore⟩ | hget
    · exact ⟨List.mem_append_right _ hmem, hscore⟩
    · exact ⟨List.mem_append_left _ (h.sound x score hget).1, (h.sound x score hget).2⟩
  refine ⟨hpast, hsound, fun x score hx => ?_⟩
  rcases expiresAt_writeKey shelf key write with hexpires | ⟨-, hsame⟩
  · rw [hexpires]
    exact Int.add_le_add_right (hpast x (hsound x score hx).1) _
  · rw [hsame] at hx ⊢
    exact h.alive x score hx

/-- **A run of writes** in the order Redis carries them out keeps it. -/
theorem keySound_foldl (shelf : Shelf) {writes : List KeyWrite}
    (hsorted : writes.Pairwise fun w w' => w.writtenAt ≤ w'.writtenAt)
    (hproper : ∀ write ∈ writes, write.Proper) (hlast : ∀ write ∈ writes, write.writtenAt ≤ last) :
    KeySound shelf (writes.flatMap KeyWrite.points) (writes.foldl (writeKey shelf) .empty)
      last := by
  induction writes using List.reverseRecOn generalizing last with
  | nil => exact keySound_empty last
  | append_singleton writes write ih =>
    obtain ⟨hsorted, -, hle⟩ := List.pairwise_append.mp hsorted
    have hbefore : KeySound shelf _ _ write.writtenAt :=
      ih hsorted (fun w hw => hproper w (List.mem_append_left _ hw))
        fun w hw => hle w hw write (by simp)
    rw [List.flatMap_append, List.flatMap_singleton, List.foldl_concat]
    exact (hbefore.write le_rfl (hproper write (by simp))).mono (hlast write (by simp))

/-! ### Which samples are undercut -/

/-- **One more write** undercuts a sample, or leaves it undercut, unless it writes the sample
again. -/
theorem undercut_concat {bucketMs : ℤ} {writes : List KeyWrite} {write : KeyWrite}
    {x : PricePoint} :
    Undercut bucketMs (writes ++ [write]) x ↔
      x ∉ write.points ∧ Undercut bucketMs writes x ∨
        ∃ point writtenAt, write = .snap point writtenAt ∧
          x ∈ writes.flatMap KeyWrite.points ∧ point.t / bucketMs = x.t / bucketMs ∧
            point.t < x.t := by
  constructor
  · rintro ⟨pre, point, writtenAt, post, heq, hx, hnot, hbucket, hlt⟩
    rcases List.eq_nil_or_concat post with rfl | ⟨post, last, rfl⟩
    · obtain ⟨rfl, hlast⟩ := List.append_inj' heq rfl
      exact Or.inr ⟨point, writtenAt, List.singleton_inj.mp hlast, hx, hbucket, hlt⟩
    · rw [List.concat_eq_append] at heq hnot
      rw [← List.cons_append, ← List.append_assoc] at heq
      obtain ⟨rfl, hlast⟩ := List.append_inj' heq rfl
      obtain rfl := List.singleton_inj.mp hlast
      rw [List.flatMap_append, List.flatMap_singleton, List.mem_append, not_or] at hnot
      exact Or.inl ⟨hnot.2, pre, point, writtenAt, post, rfl, hx, hnot.1, hbucket, hlt⟩
  · rintro (⟨hlast, pre, point, writtenAt, post, rfl, hx, hnot, hbucket, hlt⟩ |
      ⟨point, writtenAt, rfl, hx, hbucket, hlt⟩)
    · refine ⟨pre, point, writtenAt, post ++ [write], by simp, hx, ?_, hbucket, hlt⟩
      rw [List.flatMap_append, List.flatMap_singleton, List.mem_append, not_or]
      exact ⟨hnot, hlast⟩
    · exact ⟨writes, point, writtenAt, [], rfl, hx, by simp, hbucket, hlt⟩

/-- **Another snapshot takes a sample away** if both are of one bucket, and else leaves it. -/
theorem KeySound.get?_snap (h : KeySound shelf written key last) {x : PricePoint}
    {writtenAt : ℤ} (hne : x ≠ point) (hpast : point.t ≤ writtenAt)
    (hrecent : writtenAt - shelf.retentionMs ≤ bucketStart shelf.bucketMs x.t) :
    (writeKey shelf key (.snap point writtenAt)).set.get? x =
      if point.t / shelf.bucketMs = x.t / shelf.bucketMs then none else key.set.get? x := by
  have hstart := bucketStart_le shelf.bucketMs_pos x.t
  have hheld : ∀ {score}, (key.heldAt writtenAt).get? x = some score ↔
      key.set.get? x = some score := h.get?_heldAt (by omega)
  ext score
  refine Iff.trans get?_storeSample ?_
  split_ifs with hbucket
  · refine iff_of_false ?_ (by simp)
    rintro ⟨⟨rfl, -⟩ | ⟨-, hold, hother⟩, -⟩
    · exact hne rfl
    · refine hother ((h.sound x score (hheld.mp hold)).2.trans ?_)
      exact (bucketStart_inj shelf.bucketMs_pos).mpr hbucket.symm
  · constructor
    · rintro ⟨⟨rfl, -⟩ | ⟨-, hold, -⟩, -⟩
      · exact absurd rfl hne
      · exact hheld.mp hold
    · intro hget
      obtain ⟨-, rfl⟩ := h.sound x score hget
      refine ⟨Or.inr ⟨hne, hheld.mpr hget, fun heq => hbucket ?_⟩, by omega⟩
      exact ((bucketStart_inj shelf.bucketMs_pos).mp heq).symm

/-- A backfill leaves every sample that is recent. -/
theorem KeySound.get?_fill (h : KeySound shelf written key last) {x : PricePoint}
    {writtenAt : ℤ} (hrecent : writtenAt - shelf.retentionMs ≤ x.t) :
    (writeKey shelf key (.fill points writtenAt)).set.get? x =
      if x ∈ points then some (bucketStart shelf.bucketMs x.t) else key.set.get? x := by
  cases points with
  | nil => rfl
  | cons first rest =>
    ext score
    refine Iff.trans get?_addPoints ?_
    by_cases hx : x ∈ first :: rest
    · simp [hx, eq_comm]
    · simp only [hx, false_and, not_false_eq_true, true_and, false_or, if_false]
      exact h.get?_heldAt hrecent

/-- **A key holds the latest price of a bucket** that is not too old if it was written, and was
not undercut since. -/
theorem isSome_get?_foldl_iff {writes : List KeyWrite}
    (hsorted : writes.Pairwise fun w w' => w.writtenAt ≤ w'.writtenAt)
    (hproper : ∀ write ∈ writes, write.Proper) (hlast : ∀ write ∈ writes, write.writtenAt ≤ last)
    (hdiffer : TimesDiffer (writes.flatMap KeyWrite.points)) {x : PricePoint}
    (hlatest : ∀ y ∈ writes.flatMap KeyWrite.points, isPrice y.p = true →
      y.t / shelf.bucketMs = x.t / shelf.bucketMs → y.t ≤ x.t)
    (hrecent : last - shelf.retentionMs ≤ bucketStart shelf.bucketMs x.t) :
    ((writes.foldl (writeKey shelf) .empty).set.get? x).isSome = true ↔
      x ∈ writes.flatMap KeyWrite.points ∧ ¬Undercut shelf.bucketMs writes x := by
  induction writes using List.reverseRecOn with
  | nil => simp [PriceKey.empty]
  | append_singleton writes write ih =>
    have hsplit : (writes ++ [write]).flatMap KeyWrite.points =
        writes.flatMap KeyWrite.points ++ write.points := by simp
    rw [hsplit] at hdiffer hlatest ⊢
    have hlastBefore : ∀ w ∈ writes, w.writtenAt ≤ last := fun w hw =>
      hlast w (List.mem_append_left _ hw)
    have hbefore := ih (List.pairwise_append.mp hsorted).1
      (fun w hw => hproper w (List.mem_append_left _ hw)) hlastBefore
      (fun y hy z hz => hdiffer y (List.mem_append_left _ hy) z (List.mem_append_left _ hz))
      (fun y hy => hlatest y (List.mem_append_left _ hy))
    have hsound : KeySound shelf _ _ last := keySound_foldl shelf
      (List.pairwise_append.mp hsorted).1 (fun w hw => hproper w (List.mem_append_left _ hw))
      hlastBefore
    have hnow := hlast write (by simp)
    have hwrite := hproper write (by simp)
    have hstart := bucketStart_le shelf.bucketMs_pos x.t
    rw [List.foldl_concat, undercut_concat]
    generalize writes.foldl (writeKey shelf) .empty = key at hbefore hsound ⊢
    cases write with
    | snap point writtenAt =>
      have hpast : point.t ≤ writtenAt := hwrite.2
      have hnow' : writtenAt ≤ last := hnow
      rcases eq_or_ne x point with rfl | hne
      · have hstored : (writeKey shelf key (.snap x writtenAt)).set.get? x =
            some (bucketStart shelf.bucketMs x.t) :=
          get?_storeSample.mpr ⟨Or.inl ⟨rfl, rfl⟩, by omega⟩
        simp [hstored, KeyWrite.points]
      rw [hsound.get?_snap hne hpast (by omega)]
      split_ifs with hbucket
      · -- The snapshot removes the sample, and undercuts it.
        refine iff_of_false (by simp) ?_
        rintro ⟨hmem, hnot⟩
        refine hnot ?_
        have hx := (List.mem_append.mp hmem).resolve_right fun h => hne (List.mem_singleton.mp h)
        have hle := hlatest point (by simp [KeyWrite.points]) hwrite.1 hbucket
        have hne' : point.t ≠ x.t := fun heq =>
          hne (hdiffer x hmem point (by simp [KeyWrite.points]) heq.symm)
        exact Or.inr ⟨point, writtenAt, rfl, hx, hbucket, lt_of_le_of_ne hle hne'⟩
      · rw [hbefore]
        simp [KeyWrite.points, hne, hbucket]
    | fill points writtenAt =>
      have hnow' : writtenAt ≤ last := hnow
      rw [hsound.get?_fill (by omega)]
      by_cases hx : x ∈ points
      · simp [hx, KeyWrite.points]
      · rw [if_neg hx, hbefore]
        simp [KeyWrite.points, hx]

/-- **What is read of a key**, of a bucket that is not too old. -/
theorem mem_read_iff {text : PricePoint → String} {start : ℤ}
    (h : HoldsLatest shelf written set now) (hdiffer : TimesDiffer written)
    (hstart : start ≤ bucketStart shelf.bucketMs point.t)
    (hrecent : now - shelf.retentionMs ≤ bucketStart shelf.bucketMs point.t) :
    point ∈ parseMembers (rangeByScore text set start) shelf.bucketMs ↔
      LatestPrice shelf.bucketMs written point := by
  have hread : ∀ x ∈ rangeByScore text set start, x ∈ written := by
    intro x hx
    obtain ⟨score, hget, -⟩ := mem_rangeByScore.mp hx
    exact (h.sound x score hget).1
  have hlisted : ∀ y score, set.get? y = some score →
      y.t / shelf.bucketMs = point.t / shelf.bucketMs → y ∈ rangeByScore text set start := by
    intro y score hget hbucket
    refine mem_rangeByScore.mpr ⟨score, hget, ?_⟩
    rw [(h.sound y score hget).2, (bucketStart_inj shelf.bucketMs_pos).mpr hbucket]
    exact hstart
  rw [mem_parseMembers_iff_latest fun x hx y hy => hdiffer x (hread x hx) y (hread y hy)]
  constructor
  · rintro ⟨hmem, hprice, hlatest⟩
    refine ⟨hread point hmem, hprice, fun x hx hxprice hbucket => ?_⟩
    have hxrecent : now - shelf.retentionMs ≤ bucketStart shelf.bucketMs x.t := by
      rw [(bucketStart_inj shelf.bucketMs_pos).mpr hbucket]
      exact hrecent
    obtain ⟨y, score, hget, hyprice, hybucket, hle⟩ := h.complete x hx hxprice hxrecent
    have hysame := hybucket.trans hbucket
    exact hle.trans (hlatest y (hlisted y score hget hysame) hyprice hysame)
  · rintro ⟨hmem, hprice, hlatest⟩
    obtain ⟨y, score, hget, hyprice, hybucket, hle⟩ := h.complete point hmem hprice hrecent
    have hywritten := (h.sound y score hget).1
    have hge := hlatest y hywritten hyprice hybucket
    obtain rfl := hdiffer y hywritten point hmem (le_antisymm hge hle)
    exact ⟨hlisted y score hget hybucket, hprice, fun x hx => hlatest x (hread x hx)⟩

/-- **A set that holds the latest is read right**, from a score that is low enough. -/
theorem HoldsLatest.read (h : HoldsLatest shelf written set now) (hdiffer : TimesDiffer written)
    (text : PricePoint → String) {start : ℤ} (hstart : start ≤ now - shelf.retentionMs) :
    ReadsLatest shelf.bucketMs (now - shelf.retentionMs) written
      (parseMembers (rangeByScore text set start) shelf.bucketMs) := by
  have hread : ∀ point, now - shelf.retentionMs ≤ bucketStart shelf.bucketMs point.t →
      (point ∈ parseMembers (rangeByScore text set start) shelf.bucketMs ↔
        LatestPrice shelf.bucketMs written point) := fun point hrecent =>
    mem_read_iff h hdiffer (hstart.trans hrecent) hrecent
  refine ⟨pairwise_parseMembers shelf.bucketMs_pos, hread, fun x hx hprice hrecent => ?_⟩
  obtain ⟨point, hlatest, hbucket⟩ := exists_latestPrice shelf.bucketMs hx hprice
  refine ⟨point, (hread point ?_).mpr hlatest, hbucket⟩
  rw [(bucketStart_inj shelf.bucketMs_pos).mpr hbucket]
  exact hrecent

/-- **A key is read right** if and only if no latest price was undercut. -/
theorem readsLatest_iff (shelf : Shelf) {writes : List KeyWrite}
    (hsorted : writes.Pairwise fun w w' => w.writtenAt ≤ w'.writtenAt)
    (hproper : ∀ write ∈ writes, write.Proper) (hnow : ∀ write ∈ writes, write.writtenAt ≤ now)
    (hdiffer : TimesDiffer (writes.flatMap KeyWrite.points)) (text : PricePoint → String)
    {start : ℤ} (hstart : start ≤ now - shelf.retentionMs) :
    ReadsLatest shelf.bucketMs (now - shelf.retentionMs) (writes.flatMap KeyWrite.points)
        (parseMembers (rangeByScore text
          ((writes.foldl (writeKey shelf) .empty).heldAt now) start) shelf.bucketMs) ↔
      NeverUndercut shelf.bucketMs (now - shelf.retentionMs) writes := by
  have hsound : KeySound shelf _ _ now := keySound_foldl shelf hsorted hproper hnow
  have hheld : ∀ x, now - shelf.retentionMs ≤ bucketStart shelf.bucketMs x.t →
      LatestPrice shelf.bucketMs (writes.flatMap KeyWrite.points) x →
      ((((writes.foldl (writeKey shelf) .empty).heldAt now).get? x).isSome = true ↔
        ¬Undercut shelf.bucketMs writes x) := by
    intro x hrecent hx
    have hsame : ((writes.foldl (writeKey shelf) .empty).heldAt now).get? x =
        (writes.foldl (writeKey shelf) .empty).set.get? x := by
      ext score
      exact hsound.get?_heldAt (hrecent.trans (bucketStart_le shelf.bucketMs_pos x.t))
    rw [hsame, isSome_get?_foldl_iff hsorted hproper hnow hdiffer hx.latest hrecent,
      and_iff_right hx.mem]
  constructor
  · intro hread x hx hrecent
    refine (hheld x hrecent hx).mp ?_
    obtain ⟨score, hget, -⟩ :=
      mem_rangeByScore.mp (of_mem_parseMembers ((hread.latest x hrecent).mpr hx)).1
    rw [hget]
    rfl
  · intro hnever
    have hholds : HoldsLatest shelf (writes.flatMap KeyWrite.points)
        ((writes.foldl (writeKey shelf) .empty).heldAt now) now := by
      refine ⟨fun x score hx => hsound.sound x score (get?_of_get?_heldAt hx), ?_⟩
      intro x hx hprice hrecent
      obtain ⟨later, hlatest, hbucket⟩ := exists_latestPrice shelf.bucketMs hx hprice
      have hrecent' : now - shelf.retentionMs ≤ bucketStart shelf.bucketMs later.t := by
        rw [(bucketStart_inj shelf.bucketMs_pos).mpr hbucket]
        exact hrecent
      obtain ⟨score, hget⟩ := Option.isSome_iff_exists.mp
        ((hheld later hrecent' hlatest).mpr (hnever later hlatest hrecent'))
      exact ⟨later, score, hget, hlatest.price, hbucket, hlatest.latest x hx hprice hbucket.symm⟩
    exact hholds.read hdiffer text hstart

/-- A point whose score is right, or that is new, is listed last. -/
theorem entries_storeSample {bucketMs retentionMs : ℤ}
    (hscore : ∀ score, set.get? point = some score → score = bucketStart bucketMs point.t) :
    (storeSample bucketMs retentionMs set point).entries =
      ((set.entries.filter fun e => e.2 ≠ bucketStart bucketMs point.t) ++
        [(point, bucketStart bucketMs point.t)]).filter fun e => point.t - retentionMs ≤ e.2 := by
  have hnew : (set.filter fun e => e.2 ≠ bucketStart bucketMs point.t).get? point = none := by
    rw [InsertionMap.get?_filter, Option.filter_eq_none_iff]
    intro score hget hne
    exact absurd (hscore score hget) (of_decide_eq_true hne)
  exact congrArg (List.filter _) (InsertionMap.entries_set_of_get?_eq_none hnew _)

/-- **A sample that is stored twice** is stored once. -/
theorem storeSample_storeSample {bucketMs retentionMs : ℤ}
    (hscore : ∀ score, set.get? point = some score → score = bucketStart bucketMs point.t) :
    storeSample bucketMs retentionMs (storeSample bucketMs retentionMs set point) point =
      storeSample bucketMs retentionMs set point := by
  have hagain : ∀ score, (storeSample bucketMs retentionMs set point).get? point = some score →
      score = bucketStart bucketMs point.t := by
    intro score hget
    obtain ⟨⟨-, h⟩ | ⟨hne, -⟩, -⟩ := get?_storeSample.mp hget
    · exact h
    · exact absurd rfl hne
  refine InsertionMap.ext_entries ?_
  rw [entries_storeSample hagain, entries_storeSample hscore]
  simp only [List.filter_append, List.filter_filter, List.filter_singleton]
  generalize bucketStart bucketMs point.t = bucket
  congr 1
  -- The sample that was just stored is of its own bucket: nothing of it is left over.
  refine (congrArg₂ (· ++ ·) (List.filter_congr fun e _ => ?_)
    (List.filter_eq_nil_iff.mpr fun e he => ?_)).trans (List.append_nil _)
  · cases decide (point.t - retentionMs ≤ e.2) <;> simp
  · cases hcut : decide (point.t - retentionMs ≤ bucket) with
    | false =>
      rw [hcut, cond_false] at he
      exact absurd he List.not_mem_nil
    | true =>
      rw [hcut, cond_true, List.mem_singleton] at he
      simp [he]

end Keys

/-! ### Runs of writes -/

section Runs

variable {pick : BackfillPoints → List PricePoint} {symbol : String} {writes : List HistoryWrite}
  {now : ℤ}

theorem onKey_spec {write : HistoryWrite} {keyWrite : KeyWrite} (hproper : write.Proper pick)
    (h : write.onKey pick symbol = some keyWrite) :
    keyWrite.writtenAt = write.writtenAt ∧ keyWrite.Proper := by
  cases write with
  | snapshot prices time writtenAt =>
    obtain ⟨point, hsample, rfl⟩ := Option.map_eq_some_iff.mp h
    obtain ⟨hprice, rfl⟩ := sampleOf_eq_some hsample
    exact ⟨rfl, hprice, hproper⟩
  | backfill filled points writtenAt =>
    rw [HistoryWrite.onKey] at h
    split at h
    · obtain rfl := Option.some.inj h
      exact ⟨rfl, hproper⟩
    · cases h

/-- **What a call does to the keys of a coin.** -/
theorem run_apply (store : KeyStore) (write : HistoryWrite) (symbol : String) :
    write.run store symbol =
      { hourly := (write.onKey BackfillPoints.hourly symbol).elim (store symbol).hourly
          (writeKey hourlyShelf (store symbol).hourly)
        daily := (write.onKey BackfillPoints.daily symbol).elim (store symbol).daily
          (writeKey dailyShelf (store symbol).daily) } := by
  cases write with
  | snapshot prices time writtenAt =>
    simp only [HistoryWrite.run, snapshotKeys, HistoryWrite.onKey]
    cases sampleOf prices time symbol <;> rfl
  | backfill filled points writtenAt =>
    simp only [HistoryWrite.run, writeBackfillKeys, HistoryWrite.onKey]
    rcases eq_or_ne filled symbol with rfl | hne
    · rw [Function.update_self, if_pos rfl, if_pos rfl]
      rfl
    · rw [Function.update_of_ne hne.symm, if_neg hne, if_neg hne]
      rfl

/-- **The keys of a coin** are what the calls did to them, one after another. -/
theorem runWrites_apply (writes : List HistoryWrite) (symbol : String) :
    runWrites writes symbol =
      { hourly :=
          (keyWrites BackfillPoints.hourly symbol writes).foldl (writeKey hourlyShelf) .empty
        daily :=
          (keyWrites BackfillPoints.daily symbol writes).foldl (writeKey dailyShelf) .empty } := by
  induction writes using List.reverseRecOn with
  | nil => rfl
  | append_singleton writes write ih =>
    have hlast : ∀ (pick : BackfillPoints → List PricePoint) (shelf : Shelf),
        (keyWrites pick symbol (writes ++ [write])).foldl (writeKey shelf) .empty =
          (write.onKey pick symbol).elim
            ((keyWrites pick symbol writes).foldl (writeKey shelf) .empty)
            (writeKey shelf ((keyWrites pick symbol writes).foldl (writeKey shelf) .empty)) := by
      intro pick shelf
      rw [keyWrites, List.filterMap_append, ← keyWrites, List.foldl_append]
      cases hwrite : write.onKey pick symbol <;> simp [hwrite]
    rw [runWrites, List.foldl_concat, ← runWrites, run_apply, ih, hlast, hlast]

variable (symbol) in
/-- What calls do to a key comes in their order, and is as proper as they are. -/
theorem keyWrites_spec (hsorted : writes.Pairwise fun w w' => w.writtenAt ≤ w'.writtenAt)
    (hproper : ∀ write ∈ writes, write.Proper pick)
    (hnow : ∀ write ∈ writes, write.writtenAt ≤ now) :
    ((keyWrites pick symbol writes).Pairwise fun w w' => w.writtenAt ≤ w'.writtenAt) ∧
      (∀ keyWrite ∈ keyWrites pick symbol writes, keyWrite.Proper) ∧
      ∀ keyWrite ∈ keyWrites pick symbol writes, keyWrite.writtenAt ≤ now := by
  have hspec : ∀ keyWrite ∈ keyWrites pick symbol writes, ∃ write ∈ writes,
      keyWrite.writtenAt = write.writtenAt ∧ keyWrite.Proper := by
    intro keyWrite hmem
    obtain ⟨write, hwrite, honKey⟩ := List.mem_filterMap.mp hmem
    exact ⟨write, hwrite, onKey_spec (hproper write hwrite) honKey⟩
  refine ⟨?_, fun keyWrite hmem => ?_, fun keyWrite hmem => ?_⟩
  · rw [keyWrites, List.pairwise_filterMap]
    refine hsorted.imp_of_mem fun {w w'} hw hw' hle x hx y hy => ?_
    rw [(onKey_spec (hproper w hw) hx).1, (onKey_spec (hproper w' hw') hy).1]
    exact hle
  · obtain ⟨-, -, -, h⟩ := hspec keyWrite hmem
    exact h
  · obtain ⟨write, hwrite, htime, -⟩ := hspec keyWrite hmem
    exact htime ▸ hnow write hwrite

/-- **A key that is sampled again** for the same time, while it lasts, keeps what it holds. -/
theorem set_writeKey_snap_snap {shelf : Shelf} {written : List PricePoint} {key : PriceKey}
    (h : KeySound shelf written key now) (point : PricePoint) {writtenAt again : ℤ}
    (hagain : again ≤ writtenAt + shelf.ttlMs) :
    (writeKey shelf (writeKey shelf key (.snap point writtenAt)) (.snap point again)).set =
      (writeKey shelf key (.snap point writtenAt)).set := by
  have hscore : ∀ score, (key.heldAt writtenAt).get? point = some score →
      score = bucketStart shelf.bucketMs point.t := fun score hget =>
    (h.sound point score (get?_of_get?_heldAt hget)).2
  have hheld : (writeKey shelf key (.snap point writtenAt)).heldAt again =
      storeSample shelf.bucketMs shelf.retentionMs (key.heldAt writtenAt) point := if_pos hagain
  rw [writeKey, hheld]
  exact storeSample_storeSample hscore

/-- **A call of `snapshot` that is repeated** changes nothing but the expiry. -/
theorem snapshotKeys_again (hsorted : writes.Pairwise fun w w' => w.writtenAt ≤ w'.writtenAt)
    (hproper : ∀ write ∈ writes, write.Proper BackfillPoints.hourly ∧
      write.Proper BackfillPoints.daily) (hnow : ∀ write ∈ writes, write.writtenAt ≤ now)
    (prices : InsertionMap String JsNumber) (time : ℤ) {writtenAt again : ℤ}
    (hagain : again ≤ writtenAt + hourlyShelf.ttlMs) (symbol : String) :
    let once := snapshotKeys (runWrites writes) prices time writtenAt
    let twice := snapshotKeys once prices time again
    (twice symbol).hourly.set = (once symbol).hourly.set ∧
      (twice symbol).daily.set = (once symbol).daily.set := by
  obtain ⟨hhourlySorted, hhourlyProper, hhourlyNow⟩ := keyWrites_spec symbol hsorted
    (fun w hw => (hproper w hw).1) hnow
  obtain ⟨hdailySorted, hdailyProper, hdailyNow⟩ := keyWrites_spec symbol hsorted
    (fun w hw => (hproper w hw).2) hnow
  have hhourly := keySound_foldl hourlyShelf hhourlySorted hhourlyProper hhourlyNow
  have hdaily := keySound_foldl dailyShelf hdailySorted hdailyProper hdailyNow
  have hlonger : hourlyShelf.ttlMs ≤ dailyShelf.ttlMs := by decide
  simp only [snapshotKeys, runWrites_apply]
  cases hsample : sampleOf prices time symbol with
  | none => exact ⟨rfl, rfl⟩
  | some point =>
    exact ⟨set_writeKey_snap_snap hhourly point hagain,
      set_writeKey_snap_snap hdaily point (by omega)⟩

/-- **What is read after any writes**, of buckets that are not too old, is the latest price that
was ever written to each, if and only if no snapshot undercut one; and a call of `snapshot` that
is repeated while the keys last changes nothing in them. -/
theorem load_runWrites {text : PricePoint → String}
    (hsorted : writes.Pairwise fun w w' => w.writtenAt ≤ w'.writtenAt)
    (hproper : ∀ write ∈ writes, write.Proper BackfillPoints.hourly ∧
      write.Proper BackfillPoints.daily)
    (hdiffer : ∀ symbol, TimesDiffer (everWritten BackfillPoints.hourly symbol writes) ∧
      TimesDiffer (everWritten BackfillPoints.daily symbol writes))
    (hnow : ∀ write ∈ writes, write.writtenAt ≤ now) :
    ((∀ symbol,
      ReadsLatest hourMs (now - hourlyRetentionMs)
          (everWritten BackfillPoints.hourly symbol writes)
          (loadHourlyKeys text (runWrites writes) symbol now) ∧
        ReadsLatest dayMs (now - dailyRetentionMs)
          (everWritten BackfillPoints.daily symbol writes)
          (loadDailyKeys text (runWrites writes) symbol now)) ↔
      ∀ symbol,
        NeverUndercut hourMs (now - hourlyRetentionMs)
            (keyWrites BackfillPoints.hourly symbol writes) ∧
          NeverUndercut dayMs (now - dailyRetentionMs)
            (keyWrites BackfillPoints.daily symbol writes)) ∧
      ∀ prices time writtenAt again, again ≤ writtenAt + hourlyShelf.ttlMs →
        let once := snapshotKeys (runWrites writes) prices time writtenAt
        let twice := snapshotKeys once prices time again
        ∀ symbol, (twice symbol).hourly.set = (once symbol).hourly.set ∧
          (twice symbol).daily.set = (once symbol).daily.set := by
  refine ⟨forall_congr' fun symbol => and_congr ?_ ?_, fun prices time writtenAt again hagain =>
    snapshotKeys_again hsorted hproper hnow prices time hagain⟩
  · obtain ⟨hkeySorted, hkeyProper, hkeyNow⟩ := keyWrites_spec symbol hsorted
      (fun w hw => (hproper w hw).1) hnow
    rw [loadHourlyKeys, loadHourly, KeyStore.heldAt, runWrites_apply]
    exact readsLatest_iff hourlyShelf hkeySorted hkeyProper hkeyNow
      (hdiffer symbol).1 text le_rfl
  · obtain ⟨hkeySorted, hkeyProper, hkeyNow⟩ := keyWrites_spec symbol hsorted
      (fun w hw => (hproper w hw).2) hnow
    have hwider : now - (backtestDays + 1) * dayMs ≤ now - dailyRetentionMs := by
      simp only [backtestDays, dailyRetentionMs, dayMs, hourMs]
      omega
    rw [loadDailyKeys, loadDaily, KeyStore.heldAt, runWrites_apply]
    exact readsLatest_iff dailyShelf hkeySorted hkeyProper hkeyNow
      (hdiffer symbol).2 text hwider

/-- **Calls that begin after what came before** undercut nothing. -/
theorem neverUndercut_keyWrites {bucketMs cutoff : ℤ}
    (hproper : ∀ write ∈ writes, write.Proper pick)
    (horder : writes.Pairwise fun w w' =>
      ∀ prices time writtenAt, w' = .snapshot prices time writtenAt → w.writtenAt ≤ time) :
    NeverUndercut bucketMs cutoff (keyWrites pick symbol writes) := by
  rintro x - - ⟨pre, point, writtenAt, post, heq, hx, -, -, hlt⟩
  have hpairs : (keyWrites pick symbol writes).Pairwise fun w w' =>
      ∀ point writtenAt, w' = .snap point writtenAt → ∀ x ∈ w.points, x.t ≤ point.t := by
    rw [keyWrites, List.pairwise_filterMap]
    refine horder.imp_of_mem fun {w w'} hw _ hle key hkey key' hkey' => ?_
    rintro point writtenAt rfl x hx
    obtain ⟨htime, hproper⟩ := onKey_spec (hproper w hw) hkey
    cases w' with
    | snapshot prices time writtenAt' =>
      obtain ⟨point', hsample, heq⟩ := Option.map_eq_some_iff.mp hkey'
      obtain ⟨rfl, -⟩ := KeyWrite.snap.inj heq
      rw [(sampleOf_eq_some hsample).2]
      exact ((hproper.le_writtenAt hx).trans_eq htime).trans (hle prices time writtenAt' rfl)
    | backfill filled points writtenAt' =>
      rw [HistoryWrite.onKey] at hkey'
      split at hkey' <;> cases hkey'
  rw [heq] at hpairs
  obtain ⟨key, hkey, hx⟩ := List.mem_flatMap.mp hx
  have hle := (List.pairwise_append.mp hpairs).2.2 key hkey _ List.mem_cons_self point writtenAt rfl
  exact absurd (hle x hx) (not_le.mpr hlt)

/-- A backfill and, a minute later, a snapshot of the same hour, each written a second after its
call began. -/
def twoWrites : List HistoryWrite :=
  [.backfill "btc" ⟨[⟨36000000, .finite 100⟩], [⟨36000000, .finite 100⟩]⟩ 36001000,
    .snapshot (.ofList [("btc", .finite 101)]) 36060000 36061000]

theorem load_runWrites_two :
    ReadsLatest hourMs (36061000 - hourlyRetentionMs)
        (everWritten BackfillPoints.hourly "btc" twoWrites)
        (loadHourlyKeys wholeText (runWrites twoWrites) "btc" 36061000) ∧
      ReadsLatest dayMs (36061000 - dailyRetentionMs)
        (everWritten BackfillPoints.daily "btc" twoWrites)
        (loadDailyKeys wholeText (runWrites twoWrites) "btc" 36061000) := by
  have hproper : ∀ write ∈ twoWrites, write.Proper BackfillPoints.hourly ∧
      write.Proper BackfillPoints.daily := by
    simp [twoWrites, HistoryWrite.Proper]
  have horder : twoWrites.Pairwise fun w w' =>
      ∀ prices time writtenAt, w' = .snapshot prices time writtenAt → w.writtenAt ≤ time := by
    simp [twoWrites, HistoryWrite.writtenAt]
  refine (load_runWrites ?_ hproper (fun symbol => ?_) ?_).1.mpr (fun symbol =>
    ⟨neverUndercut_keyWrites (fun w hw => (hproper w hw).1) horder,
      neverUndercut_keyWrites (fun w hw => (hproper w hw).2) horder⟩) "btc"
  · simp [twoWrites, HistoryWrite.writtenAt]
  · rcases eq_or_ne symbol "btc" with rfl | hne
    · exact ⟨by decide +kernel, by decide +kernel⟩
    · have hnone : ∀ pick, everWritten pick symbol twoWrites = [] := by
        intro pick
        have hsample : sampleOf (.ofList [("btc", .finite 101)]) 36060000 symbol = none := by
          simp [sampleOf, InsertionMap.ofList, InsertionMap.get?_set_of_ne _ _ hne]
        simp [everWritten, keyWrites, twoWrites, HistoryWrite.onKey, hsample, hne.symm]
      rw [hnone, hnone]
      exact ⟨by decide, by decide⟩
  · simp [twoWrites, HistoryWrite.writtenAt]

/-! ### A late snapshot -/

/-- The time a snapshot is for. -/
def HistoryWrite.snapshotTime? : HistoryWrite → Option ℤ
  | .snapshot _ now _ => some now
  | .backfill _ _ _ => none

/-- A snapshot at 10:00:00; a backfill written at 10:00:08 with a point of 10:00:07; and the
snapshot of a call that began at 10:00:05, written at 10:00:09. -/
def lateSnapshot : List HistoryWrite :=
  [.snapshot (.ofList [("btc", .finite 100)]) 36000000 36000000,
    .backfill "btc" ⟨[⟨36007000, .finite 101⟩], [⟨36007000, .finite 101⟩]⟩ 36008000,
    .snapshot (.ofList [("btc", .finite 102)]) 36005000 36009000]

theorem load_not_always_latest :
    ¬∀ (writes : List HistoryWrite) (now : ℤ),
      (writes.Pairwise fun w w' => w.writtenAt ≤ w'.writtenAt) →
      (writes.filterMap HistoryWrite.snapshotTime?).Pairwise (· ≤ ·) →
      (∀ write ∈ writes, write.Proper BackfillPoints.hourly ∧
        write.Proper BackfillPoints.daily) →
      (∀ write ∈ writes, write.writtenAt ≤ now) →
      TimesDiffer (everWritten BackfillPoints.hourly "btc" writes) →
        ReadsLatest hourMs (now - hourlyRetentionMs)
          (everWritten BackfillPoints.hourly "btc" writes)
          (loadHourlyKeys wholeText (runWrites writes) "btc" now) := by
  intro h
  have hread := h lateSnapshot 36010000 (by simp [lateSnapshot, HistoryWrite.writtenAt])
    (by decide) (by simp [lateSnapshot, HistoryWrite.Proper])
    (by simp [lateSnapshot, HistoryWrite.writtenAt]) (by decide +kernel)
  have hlost := (hread.latest ⟨36007000, .finite 101⟩ (by decide)).mpr
    ⟨by decide +kernel, by decide, by decide +kernel⟩
  revert hlost
  decide +kernel

end Runs

end Signals

end CryptoZaloBot
