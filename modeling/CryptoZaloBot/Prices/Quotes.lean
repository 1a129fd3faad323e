import Mathlib.Data.List.Perm.Basic
import CryptoZaloBot.Prices.Aliases

/-!
# What a symbol is listed with

A price source that knows a price by id answers every lookup from one table
(`CryptoZaloBot.Prices.AnswersById`). A lookup then lists at most one coin for each of its
symbols, with an id and a price that depend on the other symbols in one way only: whether one
of them is a later name of the same coin (`CryptoZaloBot.Prices.coinsFound_perm`).
-/

namespace CryptoZaloBot

namespace Prices

variable (casing : Casing) (sources : PriceSources)

/-- **CoinGecko answers by id**, the same in every lookup; without a table it is down. -/
def AnswersById (table : Option (String → Option SimplePriceEntry)) : Prop :=
  ∀ ids, match table with
    | none => ∃ e, sources.simplePrice ids = .error e
    | some table => ∃ data, sources.simplePrice ids = .ok data ∧
        ∀ id, data.get? id = if id ∈ ids then table id else none

/-- The coins of a lookup: none if it fails. -/
def coinsFound (symbols : List String) : List CoinMarketData :=
  match getPricesBySymbols casing sources symbols with
  | .ok coins => coins
  | .error _ => []

variable (table : String → Option SimplePriceEntry) (symbols : List String)

/-- The services that answer from a table. -/
def PriceSources.ofTable (tickers : Option (List CoinPaprikaTicker)) : PriceSources where
  simplePrice ids := .ok (InsertionMap.ofList (ids.filterMap fun id => (table id).map (id, ·)))
  allTickers := tickers

theorem answersById_ofTable (tickers : Option (List CoinPaprikaTicker)) :
    AnswersById (PriceSources.ofTable table tickers) (some table) := fun ids =>
  ⟨_, rfl, InsertionMap.get?_ofList_filterMap ids table⟩

/-- CoinGecko's coin goes under the symbol: it is the last one of its id. -/
def Returned (symbol : String) : Prop :=
  lastAlias casing symbols (resolveSymbolToId casing symbol) = some symbol ∧
    (table (resolveSymbolToId casing symbol)).isSome

instance (symbol : String) : Decidable (Returned casing table symbols symbol) :=
  inferInstanceAs (Decidable (_ ∧ _))

/-- **The id and the price a symbol is listed with**, if it is. -/
def quote (symbol : String) : Option (String × ℚ) :=
  if Returned casing table symbols symbol then
    (table (resolveSymbolToId casing symbol)).map fun e => (resolveSymbolToId casing symbol, e.usd)
  else (bestTicker casing sources symbol).map fun t => (t.id, t.price)

/-- What a list says about a coin. -/
def CoinMarketData.listing (coin : CoinMarketData) : String × String × ℚ :=
  (coin.symbol, coin.id, coin.priceUsd)

variable {casing sources table symbols}

theorem lastAlias_isSome_iff {id : String} :
    (lastAlias casing symbols id).isSome ↔
      ∃ u ∈ uniqueSymbols casing symbols, resolveSymbolToId casing u = id := by
  rw [lastAlias, List.getLast?_isSome, ne_eq, List.filter_eq_nil_iff]
  simp

theorem mem_requestedIds {id : String} :
    id ∈ requestedIds casing symbols ↔
      ∃ u ∈ uniqueSymbols casing symbols, resolveSymbolToId casing u = id := by
  rw [← lastAlias_isSome_iff, ← get?_idToSymbol, Option.isSome_iff_exists]
  constructor
  · rintro h
    obtain ⟨⟨id', u⟩, he, rfl⟩ := List.mem_map.mp h
    exact ⟨u, InsertionMap.mem_entries.mp he⟩
  · rintro ⟨u, hu⟩
    exact List.mem_map_of_mem (InsertionMap.mem_entries.mpr hu)

section Found

variable {data : SimplePriceResponse}
  (hdata : ∀ id, data.get? id = if id ∈ requestedIds casing symbols then table id else none)
include hdata

theorem get?_of_mem {u : String} (h : u ∈ uniqueSymbols casing symbols) :
    data.get? (resolveSymbolToId casing u) = table (resolveSymbolToId casing u) := by
  rw [hdata, if_pos (mem_requestedIds.mpr ⟨u, h, rfl⟩)]

theorem requested_of_isSome (id : String) (h : (data.get? id).isSome) :
    id ∈ requestedIds casing symbols := by
  rw [hdata] at h
  by_contra hid
  rw [if_neg hid] at h
  exact absurd h (by decide)

/-- The symbols asked for again are those no coin of CoinGecko goes under. -/
theorem askedAgain_eq_filter :
    askedAgain casing symbols data =
      (uniqueSymbols casing symbols).filter fun u => ¬Returned casing table symbols u := by
  refine List.filter_congr fun u hu => ?_
  rw [get?_of_mem hdata hu]
  rfl

variable (sources) in
/-- CoinGecko's coins, each under the last symbol of its id. -/
theorem resolvedCoins_perm :
    ((resolvedCoins casing symbols data).map CoinMarketData.listing).Perm
      (((uniqueSymbols casing symbols).filter fun u => Returned casing table symbols u).filterMap
        fun u => (quote casing sources table symbols u).map (u, ·)) := by
  have hnodup : ((resolvedCoins casing symbols data).map CoinMarketData.listing).Nodup := by
    refine List.Nodup.of_map (fun l => l.2.1) ?_
    rw [resolvedCoins, List.map_map, List.map_map]
    exact data.nodup
  have hnodup' : (((uniqueSymbols casing symbols).filter fun u =>
      Returned casing table symbols u).filterMap
        fun u => (quote casing sources table symbols u).map (u, ·)).Nodup := by
    refine ((nodup_unique _).filter _).filterMap fun u u' l hl hl' => ?_
    obtain ⟨_, -, rfl⟩ := Option.map_eq_some_iff.mp (Option.mem_def.mp hl)
    obtain ⟨_, -, heq⟩ := Option.map_eq_some_iff.mp (Option.mem_def.mp hl')
    exact (congrArg Prod.fst heq).symm
  -- Without repetitions on either side it is enough which listings there are.
  refine (List.perm_ext_iff_of_nodup hnodup hnodup').mpr fun p => ?_
  obtain ⟨s, l⟩ := p
  rw [InsertionMap.mem_filterMap_keyed, List.mem_filter, decide_eq_true_eq, resolvedCoins,
    List.map_map, List.mem_map]
  constructor
  · rintro ⟨⟨id, e⟩, he, heq⟩
    have hget := InsertionMap.mem_entries.mp he
    have hlast := symbol_coinOfEntry (requested_of_isSome hdata) hget
    obtain ⟨hsymbol, rfl⟩ := Prod.mk.inj heq
    rw [show (coinOfEntry casing symbols (id, e)).symbol = s from hsymbol] at hlast
    obtain ⟨hmem, rfl⟩ := lastAlias_eq_some hlast
    rw [get?_of_mem hdata hmem] at hget
    have hreturned : Returned casing table symbols _ := ⟨hlast, by rw [hget]; rfl⟩
    refine ⟨⟨hmem, hreturned⟩, ?_⟩
    rw [quote, if_pos hreturned, hget]
    rfl
  · rintro ⟨⟨hmem, hreturned⟩, hquote⟩
    rw [quote, if_pos hreturned, Option.map_eq_some_iff] at hquote
    obtain ⟨e, he, rfl⟩ := hquote
    rw [← get?_of_mem hdata hmem] at he
    have hsymbol := symbol_coinOfEntry (requested_of_isSome hdata) he
    rw [hreturned.1] at hsymbol
    refine ⟨(resolveSymbolToId casing s, e), InsertionMap.mem_entries.mpr he, ?_⟩
    exact Prod.ext (Option.some.inj hsymbol).symm rfl

end Found

variable (casing) in
/-- **What a lookup lists**: each symbol with its quote. -/
theorem coinsFound_perm (h : AnswersById sources (some table)) (symbols : List String) :
    ((coinsFound casing sources symbols).map CoinMarketData.listing).Perm
      ((uniqueSymbols casing symbols).filterMap
        fun u => (quote casing sources table symbols u).map (u, ·)) := by
  obtain ⟨data, hanswer, hdata⟩ := h (requestedIds casing symbols)
  have hcoins : coinsFound casing sources symbols = resolvedCoins casing symbols data ++
      (askedAgain casing symbols data).filterMap fun u =>
        (bestTicker casing sources u).map (coinOfTicker u) := by
    have hnorm : ∀ u ∈ askedAgain casing symbols data, normalize casing u = u :=
      fun u hu => normalize_of_mem (List.mem_of_mem_filter hu)
    unfold coinsFound getPricesBySymbols
    simp only [hanswer, unresolvedSymbols_eq (requested_of_isSome hdata), paprikaPrices_eq hnorm]
    split_ifs with hempty
    · exact (List.isEmpty_iff.mp hempty).symm
    · rfl
  have hagain : ((askedAgain casing symbols data).filterMap fun u =>
      (bestTicker casing sources u).map (coinOfTicker u)).map CoinMarketData.listing =
        (askedAgain casing symbols data).filterMap
          fun u => (quote casing sources table symbols u).map (u, ·) := by
    rw [List.map_filterMap]
    refine List.filterMap_congr fun u hu => ?_
    rw [askedAgain_eq_filter hdata, List.mem_filter, decide_eq_true_eq] at hu
    rw [quote, if_neg hu.2]
    cases bestTicker casing sources u <;> rfl
  rw [hcoins, List.map_append, hagain, askedAgain_eq_filter hdata]
  refine ((resolvedCoins_perm sources hdata).append_right _).trans ?_
  rw [← List.filterMap_append]
  refine List.Perm.filterMap _ ?_
  have hsplit := List.filter_append_perm
    (fun u => decide (Returned casing table symbols u)) (uniqueSymbols casing symbols)
  simpa only [decide_not] using hsplit

/-! ### More symbols in one lookup -/

variable (casing) in
/-- What more symbols add to a lookup. -/
def newSymbols (symbols extra : List String) : List String :=
  (uniqueSymbols casing extra).filter (· ∉ uniqueSymbols casing symbols)

theorem uniqueSymbols_append (extra : List String) :
    uniqueSymbols casing (symbols ++ extra) =
      uniqueSymbols casing symbols ++ newSymbols casing symbols extra := by
  rw [uniqueSymbols, List.map_append, unique_append, newSymbols]
  refine congrArg _ (List.filter_congr fun u _ => decide_eq_decide.mpr (not_congr ?_))
  exact mem_unique.symm

/-- A coin goes under a new name if it has one. -/
theorem lastAlias_append (extra : List String) (id : String) :
    lastAlias casing (symbols ++ extra) id =
      ((newSymbols casing symbols extra).filter fun v =>
        resolveSymbolToId casing v = id).getLast?.or (lastAlias casing symbols id) := by
  rw [lastAlias, uniqueSymbols_append, List.filter_append, List.getLast?_append, lastAlias]

theorem not_mem_of_mem_newSymbols {extra : List String} {v : String}
    (h : v ∈ newSymbols casing symbols extra) : v ∉ uniqueSymbols casing symbols := by
  simpa [newSymbols] using (List.mem_filter.mp h).2

theorem normalize_of_mem_newSymbols {extra : List String} {v : String}
    (h : v ∈ newSymbols casing symbols extra) : normalize casing v = v :=
  normalize_of_mem (List.mem_filter.mp h).1

/-- **A symbol keeps its coin** in a larger lookup unless the coin gets a new name. -/
theorem returned_append_iff {extra : List String} {u : String}
    (hu : u ∈ uniqueSymbols casing symbols) :
    Returned casing table (symbols ++ extra) u ↔ Returned casing table symbols u ∧
      ∀ v ∈ newSymbols casing symbols extra,
        resolveSymbolToId casing v ≠ resolveSymbolToId casing u := by
  rw [Returned, Returned, lastAlias_append]
  cases hlast : ((newSymbols casing symbols extra).filter fun v =>
      resolveSymbolToId casing v = resolveSymbolToId casing u).getLast? with
  | none =>
    rw [List.getLast?_eq_none_iff, List.filter_eq_nil_iff] at hlast
    rw [Option.none_or]
    refine (and_iff_left fun v hv hid => hlast v hv ?_).symm
    exact decide_eq_true hid
  | some v =>
    obtain ⟨hv, hid⟩ := List.mem_filter.mp (List.mem_of_getLast? hlast)
    rw [Option.some_or]
    constructor
    · rintro ⟨hvu, -⟩
      exact absurd hu (Option.some.inj hvu ▸ not_mem_of_mem_newSymbols hv)
    · rintro ⟨-, hnone⟩
      exact absurd (of_decide_eq_true hid) (hnone v hv)

/-- A coin with new names goes under one of them. -/
theorem exists_returned_of_mem_newSymbols {extra : List String} {v : String}
    (hv : v ∈ newSymbols casing symbols extra)
    (hsome : (table (resolveSymbolToId casing v)).isSome) :
    ∃ v' ∈ newSymbols casing symbols extra,
      resolveSymbolToId casing v' = resolveSymbolToId casing v ∧
        Returned casing table (symbols ++ extra) v' := by
  cases hlast : ((newSymbols casing symbols extra).filter fun v' =>
      resolveSymbolToId casing v' = resolveSymbolToId casing v).getLast? with
  | none =>
    rw [List.getLast?_eq_none_iff, List.filter_eq_nil_iff] at hlast
    exact absurd (decide_eq_true rfl) (hlast v hv)
  | some v' =>
    obtain ⟨hv', hid⟩ := List.mem_filter.mp (List.mem_of_getLast? hlast)
    have hid' := of_decide_eq_true hid
    refine ⟨v', hv', hid', ?_, hid' ▸ hsome⟩
    rw [lastAlias_append, hid', hlast, Option.some_or]

end Prices

end CryptoZaloBot
