import Mathlib.Data.List.MinMax
import CryptoZaloBot.Prices.Lookup

/-!
# Symbols that share a coin

Two requested symbols can have one CoinGecko id. Both functions that read a lookup by
symbol are written so that the price of that coin reaches every one of them: a symbol the
lookup does not list is matched through its id.

The lookup does list it, though, when CoinPaprika happens to know a ticker of that name:
of several symbols with one id only the **last** is resolved, the others are asked for
again, and what CoinPaprika calls `MATIC` then has precedence over the coin CoinGecko
returned under `pol` (`CryptoZaloBot.Prices.alias_prices_differ`). A symbol gets
CoinGecko's price exactly when nothing of this happens, or happens to have the same
price (`CryptoZaloBot.Prices.alias_prices_iff`).
-/

namespace CryptoZaloBot

namespace Prices

variable (casing : Casing)

/-! ### Who is asked for again -/

/-- The last requested symbol with an id. -/
def lastAlias (symbols : List String) (id : String) : Option String :=
  ((uniqueSymbols casing symbols).filter fun u => resolveSymbolToId casing u = id).getLast?

/-- The requested symbols that are not the last ones of an id CoinGecko returned. -/
def askedAgain (symbols : List String) (data : SimplePriceResponse) : List String :=
  (uniqueSymbols casing symbols).filter fun u =>
    ¬(lastAlias casing symbols (resolveSymbolToId casing u) = some u ∧
      (data.get? (resolveSymbolToId casing u)).isSome)

/-- The ticker with the lowest rank, the first one of equals. -/
def lowestRank (tickers : List CoinPaprikaTicker) : Option CoinPaprikaTicker :=
  -- The order is given, as the library has another one whose comparison is not computable.
  @List.argmin _ ℤ Int.instLinearOrder.toPreorder _ CoinPaprikaTicker.rank tickers

/-- The best ticker of a symbol. -/
def bestTicker (sources : PriceSources) (symbol : String) : Option CoinPaprikaTicker :=
  lowestRank ((sources.allTickers.getD []).filter fun t => casing.toLowerCase t.symbol = symbol)

/-- The last best ticker, of the symbols asked for again, that goes under a given
id. -/
def twinTicker (sources : PriceSources) (symbols : List String) (data : SimplePriceResponse)
    (id : String) : Option CoinPaprikaTicker :=
  (((askedAgain casing symbols data).filterMap (bestTicker casing sources)).filter
    (·.id = id)).getLast?

/-- **A symbol is served by CoinGecko**: it is the last of its id, or no ticker stands in
the way with another price – neither one under the symbol itself, as requested, nor one
under the same id. -/
def ServedByCoingecko (sources : PriceSources) (symbols : List String)
    (data : SimplePriceResponse) (symbol : String) (price : ℚ) : Prop :=
  lastAlias casing symbols (resolveSymbolToId casing symbol) = some symbol ∨
    ∀ t, (if symbol ∈ uniqueSymbols casing symbols then bestTicker casing sources symbol
        else none).or
      (twinTicker casing sources symbols data (resolveSymbolToId casing symbol)) = some t →
      t.price = price

variable {casing} {sources : PriceSources} {symbols : List String} {data : SimplePriceResponse}

/-! ### The lookup's tables -/

@[simp] theorem lowestRank_nil : lowestRank [] = none := rfl

theorem lowestRank_concat (tickers : List CoinPaprikaTicker) (t : CoinPaprikaTicker) :
    lowestRank (tickers ++ [t]) = (lowestRank tickers).elim (some t) fun best =>
      if t.rank < best.rank then some t else some best := by
  rw [lowestRank, List.argmin_concat, ← lowestRank]
  cases lowestRank tickers <;> rfl

theorem normalize_of_mem {u : String} (h : u ∈ uniqueSymbols casing symbols) :
    normalize casing u = u := by
  obtain ⟨s, -, rfl⟩ := List.mem_map.mp (mem_unique.mp h)
  exact normalize_normalize casing s

theorem get?_idToSymbol (id : String) :
    (idToSymbol casing symbols).get? id = lastAlias casing symbols id := by
  rw [idToSymbol, InsertionMap.get?_ofList, List.filter_map, List.getLast?_map, Option.map_map]
  exact Option.map_id'

theorem lastAlias_eq_some {id u : String} (h : lastAlias casing symbols id = some u) :
    u ∈ uniqueSymbols casing symbols ∧ resolveSymbolToId casing u = id := by
  have hmem := List.mem_of_getLast? h
  rw [List.mem_filter, decide_eq_true_eq] at hmem
  exact hmem

/-- CoinPaprika's loop keeps the best ticker of each symbol. -/
theorem get?_bestTickerBySymbol (tickers : List CoinPaprikaTicker) (symbol : String) :
    (bestTickerBySymbol casing tickers).get? symbol =
      lowestRank (tickers.filter fun t => casing.toLowerCase t.symbol = symbol) := by
  induction tickers using List.reverseRecOn with
  | nil => rfl
  | append_singleton tickers t ih =>
    rw [bestTickerBySymbol, List.foldl_append, List.filter_append]
    change (keepBest casing (bestTickerBySymbol casing tickers) t).get? symbol = _
    by_cases h : casing.toLowerCase t.symbol = symbol
    · subst h
      rw [List.filter_cons_of_pos (by simp), List.filter_nil, lowestRank_concat, ← ih]
      cases hbest : (bestTickerBySymbol casing tickers).get? (casing.toLowerCase t.symbol) with
      | none => simp [keepBest, hbest]
      | some best =>
        by_cases hlt : t.rank < best.rank <;> simp [keepBest, hbest, hlt]
    · rw [List.filter_cons_of_neg (by simpa using h), List.filter_nil, List.append_nil, ← ih]
      cases hbest : (bestTickerBySymbol casing tickers).get? (casing.toLowerCase t.symbol) with
      | none => simp [keepBest, hbest, InsertionMap.get?_set_of_ne _ _ (Ne.symm h)]
      | some best =>
        by_cases hlt : t.rank < best.rank
        · simp [keepBest, hbest, hlt, InsertionMap.get?_set_of_ne _ _ (Ne.symm h)]
        · simp [keepBest, hbest, hlt]

/-- What CoinPaprika adds for symbols that are normalized already. -/
theorem paprikaPrices_eq {us : List String} (h : ∀ u ∈ us, normalize casing u = u) :
    paprikaPrices casing sources.allTickers us =
      us.filterMap fun u => (bestTicker casing sources u).map (coinOfTicker u) := by
  unfold paprikaPrices
  split_ifs with hnil
  · simp [hnil]
  · cases htickers : sources.allTickers with
    | none => simp [bestTicker, htickers]
    | some tickers =>
      refine List.filterMap_congr fun u hu => ?_
      dsimp only
      rw [h u hu, get?_bestTickerBySymbol, bestTicker, htickers]
      rfl

/-- Under the id: the last ticker with the id, or the coin CoinGecko returned. -/
theorem get?_idPrices {id : String} {e : SimplePriceEntry} (he : data.get? id = some e) :
    (InsertionMap.ofList ((resolvedCoins casing symbols data ++
      (askedAgain casing symbols data).filterMap fun u =>
        (bestTicker casing sources u).map (coinOfTicker u)).map
          fun coin => (coin.id, coin.priceUsd))).get? id =
      ((twinTicker casing sources symbols data id).map CoinPaprikaTicker.price).or
        (some e.usd) := by
  have htickers : ((askedAgain casing symbols data).filterMap fun u =>
      (bestTicker casing sources u).map (coinOfTicker u)).map
        (fun coin => (coin.id, coin.priceUsd)) =
      ((askedAgain casing symbols data).filterMap (bestTicker casing sources)).map
        fun t => (t.id, t.price) := by
    rw [List.map_filterMap, List.map_filterMap]
    refine List.filterMap_congr fun u _ => ?_
    cases bestTicker casing sources u <;> rfl
  have hmem : (id, e.usd) ∈ (resolvedCoins casing symbols data).map
      fun coin => (coin.id, coin.priceUsd) :=
    List.mem_map.mpr ⟨_, List.mem_map_of_mem (InsertionMap.mem_entries.mpr he), rfl⟩
  have hprice : (InsertionMap.ofList ((resolvedCoins casing symbols data).map
      fun coin => (coin.id, coin.priceUsd))).get? id = some e.usd := by
    refine InsertionMap.get?_ofList_of_forall hmem fun p hp hid => ?_
    obtain ⟨coin, hcoin, rfl⟩ := List.mem_map.mp hp
    obtain ⟨⟨id', e'⟩, he', rfl⟩ := List.mem_map.mp hcoin
    obtain rfl : id' = id := hid
    rw [InsertionMap.mem_entries.mp he'] at he
    exact congrArg SimplePriceEntry.usd (Option.some.inj he)
  rw [List.map_append, htickers, InsertionMap.get?_ofList_append, hprice,
    InsertionMap.get?_ofList, List.filter_map, List.getLast?_map, Option.map_map]
  rfl

/-! ### What the lookup returns -/

section Returned

variable (hsub : ∀ id, (data.get? id).isSome → id ∈ requestedIds casing symbols)
include hsub

/-- A returned coin goes under the last symbol with its id. -/
theorem lastAlias_of_returned (id : String) (h : (data.get? id).isSome) :
    ∃ u, lastAlias casing symbols id = some u := by
  obtain ⟨⟨id', u⟩, he, rfl⟩ := List.mem_map.mp (hsub id h)
  have hget := InsertionMap.mem_entries.mp he
  rw [get?_idToSymbol] at hget
  exact ⟨u, hget⟩

theorem symbol_coinOfEntry {id : String} {e : SimplePriceEntry} (h : data.get? id = some e) :
    lastAlias casing symbols id = some (coinOfEntry casing symbols (id, e)).symbol := by
  obtain ⟨u, hu⟩ := lastAlias_of_returned hsub id (by rw [h]; rfl)
  simp [coinOfEntry, get?_idToSymbol, hu]

/-- **The unresolved symbols are the ones asked for again.** -/
theorem unresolvedSymbols_eq :
    unresolvedSymbols casing symbols data = askedAgain casing symbols data := by
  refine List.filter_congr fun u _ => decide_eq_decide.mpr (not_congr ⟨fun h => ?_, fun h => ?_⟩)
  · obtain ⟨coin, hcoin, rfl⟩ := List.mem_map.mp h
    obtain ⟨⟨id, e⟩, he, rfl⟩ := List.mem_map.mp hcoin
    have hget := InsertionMap.mem_entries.mp he
    have hlast := symbol_coinOfEntry hsub hget
    obtain ⟨-, hres⟩ := lastAlias_eq_some hlast
    rw [hres, hlast]
    exact ⟨rfl, by simp [hget]⟩
  · obtain ⟨hlast, hsome⟩ := h
    obtain ⟨e, he⟩ := Option.isSome_iff_exists.mp hsome
    have hsym := symbol_coinOfEntry hsub he
    rw [hlast] at hsym
    rw [Option.some.inj hsym]
    exact List.mem_map_of_mem (List.mem_map_of_mem (InsertionMap.mem_entries.mpr he))

/-- The coins of a lookup, when CoinGecko knew at least one. -/
theorem getPricesBySymbols_eq (hdata : sources.simplePrice (requestedIds casing symbols) = .ok data)
    (hne : data.entries ≠ []) :
    getPricesBySymbols casing sources symbols = .ok (resolvedCoins casing symbols data ++
      (askedAgain casing symbols data).filterMap fun u =>
        (bestTicker casing sources u).map (coinOfTicker u)) := by
  have hnorm : ∀ u ∈ askedAgain casing symbols data, normalize casing u = u :=
    fun u hu => normalize_of_mem (List.mem_of_mem_filter hu)
  unfold getPricesBySymbols
  simp only [hdata, unresolvedSymbols_eq hsub, paprikaPrices_eq hnorm]
  refine if_neg fun hnil => hne ?_
  rw [List.isEmpty_iff, List.append_eq_nil_iff, resolvedCoins, List.map_eq_nil_iff] at hnil
  exact hnil.1

/-! ### Reading it by symbol -/

/-- The coin CoinGecko returned goes under the last alias of its id. -/
theorem get?_resolvedPrices {symbol : String} {e : SimplePriceEntry}
    (he : data.get? (resolveSymbolToId casing symbol) = some e)
    (hlast : lastAlias casing symbols (resolveSymbolToId casing symbol) = some symbol) :
    (InsertionMap.ofList ((resolvedCoins casing symbols data).map
      fun coin => (coin.symbol, coin.priceUsd))).get? symbol = some e.usd := by
  have hsymbol := symbol_coinOfEntry hsub he
  rw [hlast] at hsymbol
  have hmem : (symbol, e.usd) ∈ (resolvedCoins casing symbols data).map
      fun coin => (coin.symbol, coin.priceUsd) :=
    List.mem_map.mpr ⟨_, List.mem_map_of_mem (InsertionMap.mem_entries.mpr he),
      Prod.ext (Option.some.inj hsymbol).symm rfl⟩
  refine InsertionMap.get?_ofList_of_forall hmem fun p hp hsym => ?_
  -- Whatever else goes under the symbol has the same id, and so the same price.
  obtain ⟨coin, hcoin, rfl⟩ := List.mem_map.mp hp
  obtain ⟨⟨id, e'⟩, he', rfl⟩ := List.mem_map.mp hcoin
  have hget := InsertionMap.mem_entries.mp he'
  have halias := (lastAlias_eq_some (symbol_coinOfEntry hsub hget)).2
  obtain rfl : (coinOfEntry casing symbols (id, e')).symbol = symbol := hsym
  rw [halias, hget] at he
  exact congrArg SimplePriceEntry.usd (Option.some.inj he)

/-- No coin goes under an alias that is not the last one. -/
theorem get?_resolvedPrices_eq_none {symbol : String}
    (hlast : lastAlias casing symbols (resolveSymbolToId casing symbol) ≠ some symbol) :
    (InsertionMap.ofList ((resolvedCoins casing symbols data).map
      fun coin => (coin.symbol, coin.priceUsd))).get? symbol = none := by
  refine InsertionMap.get?_ofList_eq_none fun p hp hsym => hlast ?_
  rw [resolvedCoins, List.map_map] at hp
  obtain ⟨⟨id, e'⟩, he', rfl⟩ := List.mem_map.mp hp
  have halias := symbol_coinOfEntry hsub (InsertionMap.mem_entries.mp he')
  obtain rfl : (coinOfEntry casing symbols (id, e')).symbol = symbol := hsym
  rw [(lastAlias_eq_some halias).2]
  exact halias

/-- Under the symbol itself: the coin CoinGecko returned, or a ticker. -/
theorem get?_symbolPrices {symbol : String} {e : SimplePriceEntry}
    (he : data.get? (resolveSymbolToId casing symbol) = some e) :
    (InsertionMap.ofList ((resolvedCoins casing symbols data ++
      (askedAgain casing symbols data).filterMap fun u =>
        (bestTicker casing sources u).map (coinOfTicker u)).map
          fun coin => (coin.symbol, coin.priceUsd))).get? symbol =
      if lastAlias casing symbols (resolveSymbolToId casing symbol) = some symbol then some e.usd
      else if symbol ∈ uniqueSymbols casing symbols then
        (bestTicker casing sources symbol).map CoinPaprikaTicker.price
      else none := by
  have htickers : ((askedAgain casing symbols data).filterMap fun u =>
      (bestTicker casing sources u).map (coinOfTicker u)).map
        (fun coin => (coin.symbol, coin.priceUsd)) =
      (askedAgain casing symbols data).filterMap fun u =>
        ((bestTicker casing sources u).map CoinPaprikaTicker.price).map
          fun price => (u, price) := by
    rw [List.map_filterMap]
    refine List.filterMap_congr fun u _ => ?_
    cases bestTicker casing sources u <;> rfl
  rw [List.map_append, htickers, InsertionMap.get?_ofList_append,
    InsertionMap.get?_ofList_filterMap]
  by_cases hlast : lastAlias casing symbols (resolveSymbolToId casing symbol) = some symbol
  · -- The symbol is not asked for again, so no ticker goes under it.
    have hnot : symbol ∉ askedAgain casing symbols data := by
      rw [askedAgain, List.mem_filter, decide_eq_true_eq, not_and_not_right]
      exact fun _ => ⟨hlast, by rw [he]; rfl⟩
    rw [if_neg hnot, get?_resolvedPrices hsub he hlast, if_pos hlast, Option.none_or]
  · have hiff : symbol ∈ askedAgain casing symbols data ↔
        symbol ∈ uniqueSymbols casing symbols := by
      rw [askedAgain, List.mem_filter, decide_eq_true_eq, and_iff_left_iff_imp]
      exact fun _ h => hlast h.1
    simp only [hiff, get?_resolvedPrices_eq_none hsub hlast, Option.or_none, if_neg hlast]

/-- **The price of a symbol** whose coin CoinGecko returned. -/
theorem priceFor_iff {symbol : String} {e : SimplePriceEntry}
    (he : data.get? (resolveSymbolToId casing symbol) = some e) :
    priceFor casing (resolvedCoins casing symbols data ++
      (askedAgain casing symbols data).filterMap fun u =>
        (bestTicker casing sources u).map (coinOfTicker u)) symbol = some e.usd ↔
      ServedByCoingecko casing sources symbols data symbol e.usd := by
  rw [priceFor, get?_symbolPrices hsub he, get?_idPrices he, ServedByCoingecko]
  by_cases hlast : lastAlias casing symbols (resolveSymbolToId casing symbol) = some symbol
  · simp [hlast]
  · rw [if_neg hlast, or_iff_right hlast]
    generalize twinTicker casing sources symbols data (resolveSymbolToId casing symbol) = twin
    by_cases hmem : symbol ∈ uniqueSymbols casing symbols
    · rw [if_pos hmem, if_pos hmem]
      cases bestTicker casing sources symbol <;> cases twin <;> simp
    · rw [if_neg hmem, if_neg hmem]
      cases twin <;> simp

end Returned

/-! ### The two readers -/

/-- The two readers look up the same price. -/
theorem map_priceUsd_coinFor (coins : List CoinMarketData) (symbol : String) :
    (coinFor casing coins symbol).map CoinMarketData.priceUsd = priceFor casing coins symbol := by
  have hsymbols := InsertionMap.get?_ofList_map CoinMarketData.priceUsd
    (coins.map fun coin => (coin.symbol, coin)) symbol
  have hids := InsertionMap.get?_ofList_map CoinMarketData.priceUsd
    (coins.map fun coin => (coin.id, coin)) (resolveSymbolToId casing symbol)
  rw [List.map_map] at hsymbols hids
  rw [priceFor, coinFor, Option.map_or, ← hsymbols, ← hids]
  rfl

theorem get?_pricesBySymbol {coins : List CoinMarketData} {asked : List String} {symbol : String}
    (h : symbol ∈ asked) :
    ((pricesBySymbol casing coins asked).get? symbol).map HoldingPrice.priceUsd =
      priceFor casing coins symbol := by
  have hpairs : pricesBySymbol casing coins asked =
      InsertionMap.ofList (asked.filterMap fun symbol =>
        ((coinFor casing coins symbol).map fun coin =>
          (⟨coin.priceUsd, coin.changePercent24h⟩ : HoldingPrice)).map
            fun price => (symbol, price)) := by
    simp only [Option.map_map]
    rfl
  rw [hpairs, InsertionMap.get?_ofList_filterMap, if_pos h, Option.map_map, ← map_priceUsd_coinFor]
  rfl

/-- Symbols requested more than once are requested once. -/
theorem uniqueSymbols_unique (symbols : List String) :
    uniqueSymbols casing (unique symbols) = uniqueSymbols casing symbols :=
  unique_map_unique _ symbols

theorem getPricesBySymbols_unique (sources : PriceSources) (symbols : List String) :
    getPricesBySymbols casing sources (unique symbols) =
      getPricesBySymbols casing sources symbols := by
  have hids : idToSymbol casing (unique symbols) = idToSymbol casing symbols := by
    rw [idToSymbol, idToSymbol, uniqueSymbols_unique]
  have hentry : coinOfEntry casing (unique symbols) = coinOfEntry casing symbols := by
    funext e
    rw [coinOfEntry, coinOfEntry, hids]
  simp only [getPricesBySymbols, requestedIds, resolvedCoins, unresolvedSymbols, hids, hentry,
    uniqueSymbols_unique]
  rfl

theorem get?_loadPrices {coins : List CoinMarketData} {symbol : String}
    (hcoins : getPricesBySymbols casing sources symbols = .ok coins) (h : symbol ∈ symbols) :
    (loadPrices casing sources symbols).get? symbol = priceFor casing coins symbol := by
  unfold loadPrices
  simp only [getPricesBySymbols_unique, hcoins]
  rw [InsertionMap.get?_ofList_filterMap, if_pos (mem_unique.mpr h)]

/-- **Two symbols that share a coin** get the price CoinGecko returned for it, from both
readers of one lookup, exactly when each of them is served by CoinGecko. -/
theorem alias_prices_iff {asked : List String}
    (hdata : sources.simplePrice (requestedIds casing symbols) = .ok data)
    (hsub : ∀ id, (data.get? id).isSome → id ∈ requestedIds casing symbols)
    {symbol symbol' : String} (hs : symbol ∈ symbols) (hs' : symbol' ∈ symbols)
    (hasked : symbol ∈ asked) (hasked' : symbol' ∈ asked)
    (hid : resolveSymbolToId casing symbol = resolveSymbolToId casing symbol')
    {e : SimplePriceEntry} (he : data.get? (resolveSymbolToId casing symbol) = some e) :
    ∃ coins, getPricesBySymbols casing sources symbols = .ok coins ∧
      ((((pricesBySymbol casing coins asked).get? symbol).map HoldingPrice.priceUsd = some e.usd ∧
          ((pricesBySymbol casing coins asked).get? symbol').map HoldingPrice.priceUsd =
            some e.usd ∧
          (loadPrices casing sources symbols).get? symbol = some e.usd ∧
          (loadPrices casing sources symbols).get? symbol' = some e.usd) ↔
        ServedByCoingecko casing sources symbols data symbol e.usd ∧
          ServedByCoingecko casing sources symbols data symbol' e.usd) := by
  have hne : data.entries ≠ [] := List.ne_nil_of_mem (InsertionMap.mem_entries.mpr he)
  have hcoins := getPricesBySymbols_eq hsub hdata hne
  refine ⟨_, hcoins, ?_⟩
  rw [get?_pricesBySymbol hasked, get?_pricesBySymbol hasked', get?_loadPrices hcoins hs,
    get?_loadPrices hcoins hs', priceFor_iff hsub he, priceFor_iff hsub (hid ▸ he)]
  constructor
  · rintro ⟨h, h', -, -⟩
    exact ⟨h, h'⟩
  · rintro ⟨h, h'⟩
    exact ⟨h, h', h, h'⟩

/-! ### `matic` and `pol` -/

/-- CoinGecko knows the coin, and CoinPaprika has a ticker of one of its names. -/
def maticSources (tickers : Option (List CoinPaprikaTicker)) : PriceSources where
  simplePrice _ := .ok (InsertionMap.ofList [("matic-network", ⟨1 / 2, none, none⟩)])
  allTickers := tickers

def maticTicker : CoinPaprikaTicker where
  id := "matic-polygon"
  name := "Polygon"
  symbol := "MATIC"
  rank := 20
  price := 2 / 5
  marketCap := 4000000000
  percentChange24h := none

theorem matic_returned :
    (InsertionMap.ofList [("matic-network", (⟨1 / 2, none, none⟩ : SimplePriceEntry))]).get?
      (resolveSymbolToId asciiCasing "matic") = some ⟨1 / 2, none, none⟩ := by
  have hid : resolveSymbolToId asciiCasing "matic" = "matic-network" := by decide +kernel
  rw [hid]
  rfl

theorem matic_requested (id : String)
    (h : ((InsertionMap.ofList [("matic-network", (⟨1 / 2, none, none⟩ : SimplePriceEntry))]).get?
      id).isSome) : id ∈ requestedIds asciiCasing ["matic", "pol"] := by
  have hids : requestedIds asciiCasing ["matic", "pol"] = ["matic-network"] := by decide +kernel
  rw [InsertionMap.get?_ofList] at h
  by_cases hid : "matic-network" = id
  · rw [hids, ← hid]
    exact List.mem_singleton_self _
  · simp [hid] at h

theorem alias_prices_differ :
    ¬∀ (casing : Casing) (sources : PriceSources) (symbols asked : List String)
      (data : SimplePriceResponse),
      sources.simplePrice (requestedIds casing symbols) = .ok data →
      (∀ id, (data.get? id).isSome → id ∈ requestedIds casing symbols) →
      ∀ symbol ∈ symbols, ∀ symbol' ∈ symbols, symbol ∈ asked → symbol' ∈ asked →
      resolveSymbolToId casing symbol = resolveSymbolToId casing symbol' →
      ∀ e, data.get? (resolveSymbolToId casing symbol) = some e →
        ∃ coins, getPricesBySymbols casing sources symbols = .ok coins ∧
          ((pricesBySymbol casing coins asked).get? symbol).map HoldingPrice.priceUsd =
            some e.usd ∧
          ((pricesBySymbol casing coins asked).get? symbol').map HoldingPrice.priceUsd =
            some e.usd ∧
          (loadPrices casing sources symbols).get? symbol = some e.usd ∧
          (loadPrices casing sources symbols).get? symbol' = some e.usd := by
  intro h
  obtain ⟨coins, -, -, -, hprice, -⟩ := h asciiCasing (maticSources (some [maticTicker]))
    ["matic", "pol"] ["matic", "pol"] _ rfl matic_requested "matic" (by decide) "pol" (by decide)
    (by decide) (by decide) (by decide +kernel) _ matic_returned
  have hticker : (loadPrices asciiCasing (maticSources (some [maticTicker]))
      ["matic", "pol"]).get? "matic" = some (2 / 5) := by decide +kernel
  rw [hticker] at hprice
  exact absurd (Option.some.inj hprice) (by decide +kernel)

/-- Without a ticker in the way both get CoinGecko's price. -/
theorem alias_prices_iff_matic :
    ∃ coins, getPricesBySymbols asciiCasing (maticSources none) ["matic", "pol"] = .ok coins ∧
      ((((pricesBySymbol asciiCasing coins ["matic", "pol"]).get? "matic").map
            HoldingPrice.priceUsd = some (1 / 2) ∧
          ((pricesBySymbol asciiCasing coins ["matic", "pol"]).get? "pol").map
            HoldingPrice.priceUsd = some (1 / 2) ∧
          (loadPrices asciiCasing (maticSources none) ["matic", "pol"]).get? "matic" =
            some (1 / 2) ∧
          (loadPrices asciiCasing (maticSources none) ["matic", "pol"]).get? "pol" =
            some (1 / 2)) ↔
        ServedByCoingecko asciiCasing (maticSources none) ["matic", "pol"]
            (InsertionMap.ofList [("matic-network", ⟨1 / 2, none, none⟩)]) "matic" (1 / 2) ∧
          ServedByCoingecko asciiCasing (maticSources none) ["matic", "pol"]
            (InsertionMap.ofList [("matic-network", ⟨1 / 2, none, none⟩)]) "pol" (1 / 2)) :=
  alias_prices_iff rfl matic_requested (by decide) (by decide) (by decide) (by decide)
    (by decide +kernel) matic_returned

end Prices

end CryptoZaloBot
