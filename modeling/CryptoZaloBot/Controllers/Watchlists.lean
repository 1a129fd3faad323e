import CryptoZaloBot.Controllers.DigestRuns
import CryptoZaloBot.Prices.Quotes

/-!
# The watchlist part of a digest

A chat that holds coins has them looked up together with its watchlist, and the watchlist part
is then picked out again. It is meant to read as if nothing was held.

It need not. CoinGecko's coin goes under the last of its symbols, so a held `pol` renames the
`matic` of a watchlist, and has CoinPaprika asked for `matic` as well
(`CryptoZaloBot.Controllers.watchlistPart_differs`). Where such a thing can happen, and where it
can't, is settled symbol by symbol (`CryptoZaloBot.Controllers.KeepsWatchlist`).
-/

namespace CryptoZaloBot

namespace Controllers

open Portfolio (PortfolioTrade)
open Prices
open Signals (CoinSignal)
open Subscribers (Subscriber)

/-! ### What is listed -/

/-- The symbols and prices of a digest. -/
def Message.listed : Message → List (String × ℚ)
  | .dailyDigest coins _ _ _ => coins.map fun coin => (coin.symbol, coin.priceUsd)
  | _ => []

section Parts

variable (casing : Casing) (sources : PriceSources)

/-- A price lookup as the digest sees it. -/
def pricesFrom (symbols : List String) : Except ServiceError (List CoinMarketData) :=
  match getPricesBySymbols casing sources symbols with
  | .ok coins => .ok coins
  | .error .coingeckoUnavailable => .error .coingeckoUnavailable
  | .error (.unknownCoinSymbols symbols) => .error (.unknownCoinSymbols symbols)

/-- **The watchlist part** of what a turn sends: nothing if it sends nothing. -/
def watchlistPart (answers : RunAnswers) (lookups : Lookups) (subscriber : Subscriber)
    (trades : List PortfolioTrade) (signalsBySymbol : Option (InsertionMap String CoinSignal))
    (now : ℤ) (cronTrackingLine : Option ℤ) : List (String × ℚ) :=
  (sendToSubscriber casing answers.services subscriber trades signalsBySymbol now
    cronTrackingLine (⟨lookups, []⟩, {})).2.1.sent.flatMap fun m => m.2.listed

/-! ### When a watchlist is kept -/

variable (table : String → Option SimplePriceEntry) (watchlist extra : List String)

/-- **The held coins leave the watchlist part alone**: none of them is another name of a coin of
the watchlist that CoinGecko knows; no ticker that CoinPaprika has for one of them goes under an
id of the watchlist; and each coin of the watchlist that only CoinPaprika knows is recognized, by
its symbol as the watchlist has it or by an id. -/
structure KeepsWatchlist : Prop where
  not_renamed : ∀ v ∈ newSymbols casing watchlist extra,
    resolveSymbolToId casing v ∈ watchlist.map (resolveSymbolToId casing) →
      table (resolveSymbolToId casing v) = none
  not_added : ∀ v ∈ newSymbols casing watchlist extra,
    ¬Returned casing table (watchlist ++ extra) v →
      ∀ t, bestTicker casing sources v = some t →
        t.id ∉ watchlist.map (resolveSymbolToId casing)
  not_dropped : ∀ u ∈ uniqueSymbols casing watchlist, ¬Returned casing table watchlist u →
    ∀ t, bestTicker casing sources u = some t →
      u ∈ watchlist ∨ t.id ∈ watchlist.map (resolveSymbolToId casing)

/-- What a symbol is listed with when nothing is held. -/
def plainPrice (symbol : String) : Option ℚ :=
  if symbol ∈ uniqueSymbols casing watchlist then
    (quote casing sources table watchlist symbol).map Prod.snd
  else none

/-- What it is listed with when the lookup had more symbols. -/
def pickedPrice (symbol : String) : Option ℚ :=
  ((quote casing sources table (watchlist ++ extra) symbol).filter fun q =>
    symbol ∈ watchlist ∨ q.1 ∈ watchlist.map (resolveSymbolToId casing)).map Prod.snd

end Parts

section Symbols

variable {casing : Casing} {sources : PriceSources} {table : String → Option SimplePriceEntry}
  {watchlist extra : List String}

theorem resolveSymbolToId_normalize (s : String) :
    resolveSymbolToId casing (normalize casing s) = resolveSymbolToId casing s := by
  rw [resolveSymbolToId, normalize_normalize, resolveSymbolToId]

/-- A symbol of the watchlist has an id of the watchlist. -/
theorem resolveSymbolToId_mem {u : String} (h : u ∈ uniqueSymbols casing watchlist) :
    resolveSymbolToId casing u ∈ watchlist.map (resolveSymbolToId casing) := by
  obtain ⟨s, hs, rfl⟩ := List.mem_map.mp (mem_unique.mp h)
  rw [resolveSymbolToId_normalize]
  exact List.mem_map_of_mem hs

/-- A new symbol does not stand on the watchlist. -/
theorem not_mem_watchlist {v : String} (h : v ∈ newSymbols casing watchlist extra) :
    v ∉ watchlist := by
  intro hv
  refine not_mem_of_mem_newSymbols h (mem_unique.mpr ?_)
  have hmem := List.mem_map_of_mem (f := normalize casing) hv
  rwa [normalize_of_mem_newSymbols h] at hmem

/-- What CoinGecko knows under an id of the watchlist is picked. -/
theorem pickedPrice_of_returned {s : String}
    (hreturned : Returned casing table (watchlist ++ extra) s)
    (hid : resolveSymbolToId casing s ∈ watchlist.map (resolveSymbolToId casing)) :
    pickedPrice casing sources table watchlist extra s =
      (table (resolveSymbolToId casing s)).map SimplePriceEntry.usd := by
  rw [pickedPrice, quote, if_pos hreturned]
  cases table (resolveSymbolToId casing s) with
  | none => rfl
  | some e =>
    rw [Option.map_some, Option.filter_some, if_pos (decide_eq_true (Or.inr hid))]
    rfl

/-- What only CoinPaprika knows is picked by its symbol or the ticker's id. -/
theorem pickedPrice_of_not_returned {s : String}
    (hreturned : ¬Returned casing table (watchlist ++ extra) s) :
    pickedPrice casing sources table watchlist extra s =
      ((bestTicker casing sources s).filter fun t =>
        s ∈ watchlist ∨ t.id ∈ watchlist.map (resolveSymbolToId casing)).map
          CoinPaprikaTicker.price := by
  rw [pickedPrice, quote, if_neg hreturned]
  cases bestTicker casing sources s with
  | none => rfl
  | some t =>
    rw [Option.map_some, Option.filter_some, Option.filter_some]
    split_ifs <;> rfl

theorem plainPrice_of_mem_newSymbols {v : String} (h : v ∈ newSymbols casing watchlist extra) :
    plainPrice casing sources table watchlist v = none :=
  if_neg (not_mem_of_mem_newSymbols h)

theorem plainPrice_of_not_returned {u : String} (hu : u ∈ uniqueSymbols casing watchlist)
    (hreturned : ¬Returned casing table watchlist u) :
    plainPrice casing sources table watchlist u =
      (bestTicker casing sources u).map CoinPaprikaTicker.price := by
  rw [plainPrice, if_pos hu, quote, if_neg hreturned, Option.map_map]
  rfl

theorem plainPrice_of_returned {u : String} (hu : u ∈ uniqueSymbols casing watchlist)
    (hreturned : Returned casing table watchlist u) :
    plainPrice casing sources table watchlist u =
      (table (resolveSymbolToId casing u)).map SimplePriceEntry.usd := by
  rw [plainPrice, if_pos hu, quote, if_pos hreturned, Option.map_map]
  rfl

/-- Left alone, a coin of the watchlist is listed as before. -/
theorem KeepsWatchlist.plainPrice_eq (hkeeps : KeepsWatchlist casing sources table watchlist extra)
    {u : String} (hu : u ∈ uniqueSymbols casing watchlist) :
    plainPrice casing sources table watchlist u =
      pickedPrice casing sources table watchlist extra u := by
  by_cases hreturned : Returned casing table watchlist u
  · have hreturned' : Returned casing table (watchlist ++ extra) u := by
      refine (returned_append_iff hu).mpr ⟨hreturned, fun v hv hid => ?_⟩
      -- A new symbol with this id would go above it, so CoinGecko has nothing under the id.
      have hnone := hkeeps.not_renamed v hv (hid ▸ resolveSymbolToId_mem hu)
      exact absurd hreturned.2 (by rw [← hid, hnone]; decide)
    rw [plainPrice_of_returned hu hreturned,
      pickedPrice_of_returned hreturned' (resolveSymbolToId_mem hu)]
  · have hreturned' : ¬Returned casing table (watchlist ++ extra) u := fun h' =>
      hreturned ((returned_append_iff hu).mp h').1
    rw [plainPrice_of_not_returned hu hreturned, pickedPrice_of_not_returned hreturned']
    cases ht : bestTicker casing sources u with
    | none => rfl
    | some t =>
      rw [Option.filter_some, if_pos (decide_eq_true (hkeeps.not_dropped u hu hreturned t ht))]

/-- Nor is a held coin picked that the watchlist does not name. -/
theorem KeepsWatchlist.pickedPrice_eq (hkeeps : KeepsWatchlist casing sources table watchlist extra)
    {v : String} (hv : v ∈ newSymbols casing watchlist extra) :
    pickedPrice casing sources table watchlist extra v = none := by
  by_cases hreturned : Returned casing table (watchlist ++ extra) v
  · have hid : resolveSymbolToId casing v ∉ watchlist.map (resolveSymbolToId casing) :=
      fun hid => absurd hreturned.2 (by rw [hkeeps.not_renamed v hv hid]; decide)
    rw [pickedPrice, quote, if_pos hreturned]
    cases table (resolveSymbolToId casing v) with
    | none => rfl
    | some e =>
      rw [Option.map_some, Option.filter_some, if_neg (by
        simpa [not_mem_watchlist hv] using hid)]
      rfl
  · rw [pickedPrice_of_not_returned hreturned]
    cases ht : bestTicker casing sources v with
    | none => rfl
    | some t =>
      have hid := hkeeps.not_added v hv hreturned t ht
      rw [Option.filter_some, if_neg (by simpa [not_mem_watchlist hv] using hid)]
      rfl

/-- Each way in which the watchlist part can change is a price that changes. -/
theorem keepsWatchlist_of_prices
    (hwatched : ∀ u ∈ uniqueSymbols casing watchlist,
      plainPrice casing sources table watchlist u =
        pickedPrice casing sources table watchlist extra u)
    (hnew : ∀ v ∈ newSymbols casing watchlist extra,
      pickedPrice casing sources table watchlist extra v = none) :
    KeepsWatchlist casing sources table watchlist extra := by
  refine ⟨fun v hv hid => ?_, fun v hv hreturned t ht hid => ?_, fun u hu hreturned t ht => ?_⟩
  · by_contra hsome
    -- The last new symbol with this id is the one CoinGecko's entry is returned under.
    obtain ⟨v', hv', hid', hreturned⟩ :=
      exists_returned_of_mem_newSymbols hv (Option.isSome_iff_ne_none.mpr hsome)
    have hnone := hnew v' hv'
    rw [pickedPrice_of_returned hreturned (hid' ▸ hid), Option.map_eq_none_iff, hid'] at hnone
    exact hsome hnone
  · have hnone := hnew v hv
    rw [pickedPrice_of_not_returned hreturned, ht, Option.filter_some,
      if_pos (decide_eq_true (Or.inr hid))] at hnone
    exact absurd hnone (by simp)
  · have hreturned' : ¬Returned casing table (watchlist ++ extra) u := fun h' =>
      hreturned ((returned_append_iff hu).mp h').1
    have hsame := hwatched u hu
    rw [plainPrice_of_not_returned hu hreturned, pickedPrice_of_not_returned hreturned', ht,
      Option.filter_some] at hsame
    by_contra hnot
    rw [if_neg (by simpa using hnot)] at hsame
    exact absurd hsame (by simp)

/-- **Symbol by symbol**: the prices are the same with and without the held coins exactly when
these leave the watchlist part alone. -/
theorem plainPrice_eq_pickedPrice_iff :
    (∀ s ∈ uniqueSymbols casing (watchlist ++ extra),
      plainPrice casing sources table watchlist s =
        pickedPrice casing sources table watchlist extra s) ↔
      KeepsWatchlist casing sources table watchlist extra := by
  rw [uniqueSymbols_append]
  constructor
  · intro h
    refine keepsWatchlist_of_prices (fun u hu => h u (List.mem_append_left _ hu)) fun v hv => ?_
    rw [← h v (List.mem_append_right _ hv), plainPrice_of_mem_newSymbols hv]
  · intro hkeeps s hs
    rcases List.mem_append.mp hs with hu | hv
    · exact hkeeps.plainPrice_eq hu
    · rw [plainPrice_of_mem_newSymbols hv, hkeeps.pickedPrice_eq hv]

/-- The watchlist alone. -/
theorem coinsFound_perm_plainPrice (casing : Casing) (watchlist extra : List String)
    (h : AnswersById sources (some table)) :
    ((coinsFound casing sources watchlist).map fun coin => (coin.symbol, coin.priceUsd)).Perm
      ((uniqueSymbols casing (watchlist ++ extra)).filterMap fun s =>
        (plainPrice casing sources table watchlist s).map (s, ·)) := by
  have hplain : (uniqueSymbols casing (watchlist ++ extra)).filterMap (fun s =>
      (plainPrice casing sources table watchlist s).map (s, ·)) =
        ((uniqueSymbols casing watchlist).filterMap fun s =>
          (quote casing sources table watchlist s).map (s, ·)).map fun l => (l.1, l.2.2) := by
    have hnew : (newSymbols casing watchlist extra).filterMap (fun s =>
        (plainPrice casing sources table watchlist s).map (s, ·)) = [] := by
      refine List.filterMap_eq_nil_iff.mpr fun v hv => ?_
      rw [plainPrice_of_mem_newSymbols hv]
      rfl
    rw [uniqueSymbols_append, List.filterMap_append, hnew, List.append_nil, List.map_filterMap]
    refine List.filterMap_congr fun u hu => ?_
    rw [plainPrice, if_pos hu, Option.map_map, Option.map_map]
    rfl
  rw [hplain]
  have hfound := (coinsFound_perm casing h watchlist).map
    fun l : String × String × ℚ => (l.1, l.2.2)
  rwa [List.map_map] at hfound

/-- The watchlist picked out of a larger lookup. -/
theorem watchlistCoins_perm_pickedPrice (casing : Casing) (watchlist extra : List String)
    (h : AnswersById sources (some table)) :
    ((watchlistCoins casing (coinsFound casing sources (watchlist ++ extra)) watchlist).map
        fun coin => (coin.symbol, coin.priceUsd)).Perm
      ((uniqueSymbols casing (watchlist ++ extra)).filterMap fun s =>
        (pickedPrice casing sources table watchlist extra s).map (s, ·)) := by
  let picks : String × String × ℚ → Bool := fun l =>
    l.1 ∈ watchlist ∨ l.2.1 ∈ watchlist.map (resolveSymbolToId casing)
  have hfound := ((coinsFound_perm casing h (watchlist ++ extra)).filter picks).map
    fun l : String × String × ℚ => (l.1, l.2.2)
  rw [List.filter_map, List.map_map, List.filter_filterMap, List.map_filterMap] at hfound
  refine hfound.trans (List.Perm.of_eq (List.filterMap_congr fun s _ => ?_))
  rw [pickedPrice]
  cases quote casing sources table (watchlist ++ extra) s with
  | none => rfl
  | some q =>
    rw [Option.map_some, Option.filter_some, Option.filter_some]
    split_ifs <;> rfl

/-! ### What a turn sends -/

/-- The watchlist part is picked out of the coins the turn found. -/
theorem watchlistPart_eq {answers : RunAnswers} {lookups : Lookups} {subscriber : Subscriber}
    {trades : List PortfolioTrade} {signalsBySymbol : Option (InsertionMap String CoinSignal)}
    {now : ℤ} {cronTrackingLine : Option ℤ}
    (hprices : (answers.turn lookups.length).prices = pricesFrom casing sources) :
    watchlistPart casing answers lookups subscriber trades signalsBySymbol now cronTrackingLine =
      (listedCoins casing (coinsFound casing sources (lookedUp subscriber trades))
        subscriber.watchlist (extraSymbols subscriber.watchlist ((coinsHeld trades).getD []))).map
          fun coin => (coin.symbol, coin.priceUsd) := by
  obtain ⟨run, hrun, -⟩ := sendToSubscriber_run casing answers subscriber trades signalsBySymbol
    now cronTrackingLine ⟨lookups, []⟩ {}
  rw [watchlistPart, hrun, digestMessage, hprices, pricesFrom, coinsFound]
  cases getPricesBySymbols casing sources (lookedUp subscriber trades) with
  | error error =>
    cases error <;> simp [listedCoins, watchlistCoins]
  | ok coins =>
    dsimp only
    split_ifs with hlisted
    · rw [hlisted]
      rfl
    · simp [Message.listed]

/-- Nothing is listed while CoinGecko is down. -/
theorem coinsFound_eq_nil (h : AnswersById sources none) (symbols : List String) :
    coinsFound casing sources symbols = [] := by
  obtain ⟨error, herror⟩ := h (requestedIds casing symbols)
  rw [coinsFound, getPricesBySymbols, herror]

/-- What is listed of a larger lookup is what the watchlist alone would list. -/
theorem listedCoins_perm_iff {table : Option (String → Option SimplePriceEntry)}
    (h : AnswersById sources table) (watchlist extra : List String) :
    ((listedCoins casing (coinsFound casing sources (watchlist ++ extra)) watchlist extra).map
        fun coin => (coin.symbol, coin.priceUsd)).Perm
      ((coinsFound casing sources watchlist).map fun coin => (coin.symbol, coin.priceUsd)) ↔
      ∀ t, table = some t → extra = [] ∨ KeepsWatchlist casing sources t watchlist extra := by
  cases table with
  | none =>
    rw [coinsFound_eq_nil h, coinsFound_eq_nil h]
    simp [listedCoins, watchlistCoins]
  | some table =>
    simp only [Option.some.injEq, forall_eq']
    rw [listedCoins]
    split_ifs with hextra
    · subst hextra
      rw [List.append_nil]
      exact iff_of_true (List.Perm.refl _) (Or.inl rfl)
    · rw [or_iff_right hextra, ← plainPrice_eq_pickedPrice_iff,
        ← InsertionMap.perm_filterMap_keyed_iff]
      have hplain := coinsFound_perm_plainPrice casing watchlist extra h
      have hpicked := watchlistCoins_perm_pickedPrice casing watchlist extra h
      constructor
      · exact fun hperm => hplain.symm.trans (hperm.symm.trans hpicked)
      · exact fun hperm => hpicked.trans (hperm.symm.trans hplain.symm)

end Symbols

/-- **The watchlist part with and without held coins**, up to the order of its coins. -/
theorem watchlistPart_perm_iff (casing : Casing) (sources : PriceSources)
    {table : Option (String → Option SimplePriceEntry)} (hsources : AnswersById sources table)
    {answers : RunAnswers} {lookups : Lookups}
    (hprices : (answers.turn lookups.length).prices = pricesFrom casing sources)
    (subscriber : Subscriber) {trades trades' : List PortfolioTrade} {held : List String}
    (hheld : coinsHeld trades = some held) (hnone : coinsHeld trades' = some [])
    (signalsBySymbol : Option (InsertionMap String CoinSignal)) (now : ℤ)
    (cronTrackingLine : Option ℤ) :
    (watchlistPart casing answers lookups subscriber trades signalsBySymbol now
        cronTrackingLine).Perm
      (watchlistPart casing answers lookups subscriber trades' signalsBySymbol now
        cronTrackingLine) ↔
      ∀ t, table = some t → extraSymbols subscriber.watchlist held = [] ∨
        KeepsWatchlist casing sources t subscriber.watchlist
          (extraSymbols subscriber.watchlist held) := by
  rw [watchlistPart_eq hprices, watchlistPart_eq hprices, lookedUp, lookedUp, hheld, hnone,
    Option.getD_some, Option.getD_some]
  have hall : listedCoins casing (coinsFound casing sources (subscriber.watchlist ++ []))
      subscriber.watchlist [] = coinsFound casing sources subscriber.watchlist := by
    rw [List.append_nil]
    exact if_pos rfl
  have hno : extraSymbols subscriber.watchlist [] = [] := rfl
  rw [hno, hall]
  exact listedCoins_perm_iff hsources subscriber.watchlist _

/-! ### `matic` watched, `pol` held -/

/-- CoinGecko knows the one coin behind both symbols. -/
def polTable (id : String) : Option SimplePriceEntry :=
  if id = "matic-network" then some ⟨1 / 2, none, none⟩ else none

/-- CoinPaprika has a ticker of the other name. -/
def polSources : PriceSources := .ofTable polTable (some [maticTicker])

/-- A run without a single failure. -/
def polAnswers : RunAnswers where
  invokedAt := 0
  subscribers := .ok []
  trades := .ok InsertionMap.empty
  mirrored := .ok ()
  signals := .ok []
  turn _ :=
    { prices := pricesFrom asciiCasing polSources
      portfolioSection := fun _ _ => .ok "Danh mục"
      signalsSection := fun _ => .ok "Tín hiệu"
      delivered := fun _ => true
      verdictsRecorded := .ok ()
      usageRecorded := .ok () }

def maticWatcher : Subscriber := ⟨"chat", ["matic"], true, 0⟩

def polTrades : List PortfolioTrade := [⟨1, .buy, "pol", "1", 1 / 2, 0⟩]

theorem coinsHeld_polTrades : coinsHeld polTrades = some ["pol"] := by decide +kernel

theorem watchlistPart_differs :
    ¬∀ (casing : Casing) (sources : PriceSources)
      (table : Option (String → Option SimplePriceEntry)), AnswersById sources table →
      ∀ (answers : RunAnswers) (lookups : Lookups),
      (answers.turn lookups.length).prices = pricesFrom casing sources →
      ∀ (subscriber : Subscriber) (trades trades' : List PortfolioTrade) (held : List String),
      coinsHeld trades = some held → coinsHeld trades' = some [] →
      ∀ (signalsBySymbol : Option (InsertionMap String CoinSignal)) (now : ℤ)
        (cronTrackingLine : Option ℤ),
        (watchlistPart casing answers lookups subscriber trades signalsBySymbol now
            cronTrackingLine).Perm
          (watchlistPart casing answers lookups subscriber trades' signalsBySymbol now
            cronTrackingLine) := by
  intro h
  have hperm := h asciiCasing polSources (some polTable) (answersById_ofTable polTable _)
    polAnswers [] rfl maticWatcher polTrades [] ["pol"] coinsHeld_polTrades rfl none 0 none
  have hheld : watchlistPart asciiCasing polAnswers [] maticWatcher polTrades none 0 none =
      [("pol", 1 / 2), ("matic", 2 / 5)] := by decide +kernel
  have hplain : watchlistPart asciiCasing polAnswers [] maticWatcher [] none 0 none =
      [("matic", 1 / 2)] := by decide +kernel
  rw [hheld, hplain] at hperm
  exact absurd hperm.length_eq (by decide)

theorem watchlistPart_perm_iff_pol :
    (watchlistPart asciiCasing polAnswers [] maticWatcher polTrades none 0 none).Perm
      (watchlistPart asciiCasing polAnswers [] maticWatcher [] none 0 none) ↔
      ∀ t, some polTable = some t → extraSymbols ["matic"] ["pol"] = [] ∨
        KeepsWatchlist asciiCasing polSources t ["matic"] (extraSymbols ["matic"] ["pol"]) :=
  watchlistPart_perm_iff asciiCasing polSources (answersById_ofTable polTable _) rfl maticWatcher
    coinsHeld_polTrades rfl none 0 none

end Controllers

end CryptoZaloBot
