import CryptoZaloBot.Base.Decimal
import CryptoZaloBot.Base.ReadThrough
import CryptoZaloBot.Base.Utf16
import CryptoZaloBot.Prices.Lookup

/-!
# Looking up prices through the cache

`CoingeckoService` and `CoinPaprikaService` read through one cache, whose keys are texts and
whose values have no type of their own. A lookup of prices may want two things of it, one after
the other: the prices of its ids, and all tickers if some symbol is left without a coin.

A cached lookup is still a lookup (`CryptoZaloBot.Prices.cached_lookups`): its result is what
`CryptoZaloBot.Prices.getPricesBySymbols` makes of what the two services answered, to somebody
who asked for the same, not long before. The key of some ids names them in a fixed order, so
that it does not matter in which order the symbols came.
-/

namespace CryptoZaloBot

namespace Prices

open ReadThrough (Fresh)

/-! ### Requests and keys -/

/-- One entry of CoinGecko's `/coins/markets`. -/
structure CoinGeckoMarketCoin where
  id : String
  symbol : String
  name : String
  currentPrice : ℚ
  marketCap : ℚ
  priceChangePercentage24h : Option ℚ

/-- What is asked for over the network. -/
inductive Request where
  | simplePrice (ids : List String)
  | markets (limit : ℕ)
  | tickers

/-- What comes back, and what the cache holds: it does not know which of these. -/
inductive Response where
  | simplePrice (data : SimplePriceResponse)
  | markets (coins : List CoinGeckoMarketCoin)
  | tickers (tickers : List CoinPaprikaTicker)

/-- The keys in the cache. -/
def Request.cacheKey : Request → String
  | simplePrice ids => "coingecko:simple-price:" ++ ",".intercalate (Utf16.sort ids)
  | markets limit => "coingecko:markets:top:" ++ String.ofList (Decimal.ofNat limit)
  | tickers => "coinpaprika:tickers:usd"

/-- The types of answers. -/
inductive AnswerType where
  | simplePrice
  | markets
  | tickers

def Request.answerType : Request → AnswerType
  | simplePrice _ => .simplePrice
  | markets _ => .markets
  | tickers => .tickers

def Response.answerType : Response → AnswerType
  | simplePrice _ => .simplePrice
  | markets _ => .markets
  | tickers _ => .tickers

/-- The answers of the right type. -/
def Request.answers (request : Request) (response : Response) : Prop :=
  response.answerType = request.answerType

/-- `cacheTtlSeconds` of the two services, above zero. The configuration also allows `0`,
which is left out here. -/
structure CacheTtl where
  coingeckoSeconds : ℕ
  coinpaprikaSeconds : ℕ
  coingecko_pos : 0 < coingeckoSeconds
  coinpaprika_pos : 0 < coinpaprikaSeconds

/-- `cacheTtlMs` of the service that answers. -/
def CacheTtl.cacheTtlMs (ttl : CacheTtl) : AnswerType → ℕ
  | .simplePrice => ttl.coingeckoSeconds * 1000
  | .markets => ttl.coingeckoSeconds * 1000
  | .tickers => ttl.coinpaprikaSeconds * 1000

/-- The ids a request names, which is what CoinGecko reads between the commas. -/
def namedIds (ids : List String) : List (List Char) := (",".intercalate ids).toList.splitOn ','

theorem splitOn_intercalate {ls : List (List Char)} (hne : ls ≠ []) :
    ([','].intercalate ls).splitOn ',' = ls.flatMap (List.splitOn ',') := by
  induction ls with
  | nil => exact absurd rfl hne
  | cons l ls ih =>
    cases ls with
    | nil => simp
    | cons l' ls =>
      rw [List.intercalate_cons_cons, List.append_assoc, List.singleton_append,
        List.splitOn_append_cons_self, ih (List.cons_ne_nil _ _)]
      rfl

theorem namedIds_eq (ids : List String) :
    namedIds ids = ([','].intercalate (ids.map String.toList)).splitOn ',' := by
  rw [namedIds, String.toList_intercalate]
  rfl

/-- Ids are named in any order. -/
theorem namedIds_perm {ids ids' : List String} (h : ids.Perm ids') :
    (namedIds ids).Perm (namedIds ids') := by
  rw [namedIds_eq, namedIds_eq]
  rcases eq_or_ne ids [] with rfl | hne
  · obtain rfl := List.nil_perm.mp h
    exact List.Perm.refl _
  · have hne' : ids' ≠ [] := fun hnil => hne (List.perm_nil.mp (hnil ▸ h))
    rw [splitOn_intercalate (mt List.map_eq_nil_iff.mp hne),
      splitOn_intercalate (mt List.map_eq_nil_iff.mp hne')]
    exact (h.map String.toList).flatMap_right _

/-- **Symbols in another order have the same key.** -/
theorem cacheKey_perm {ids ids' : List String} (h : ids.Perm ids') :
    (Request.simplePrice ids).cacheKey = (Request.simplePrice ids').cacheKey :=
  congrArg (fun sorted => "coingecko:simple-price:" ++ ",".intercalate sorted)
    (Utf16.sort_eq_iff.mpr h)

/-- **Requests for the same.** -/
def Request.Same : Request → Request → Prop
  | simplePrice ids, simplePrice ids' => (namedIds ids).Perm (namedIds ids')
  | markets limit, markets limit' => limit = limit'
  | tickers, tickers => True
  | _, _ => False

theorem append_ne_append {s t : String} (x y : String)
    (h : s.toList.take 11 ≠ t.toList.take 11) (hs : 11 ≤ s.toList.length)
    (ht : 11 ≤ t.toList.length) : s ++ x ≠ t ++ y := by
  intro heq
  have htake := congrArg (fun u => (String.toList u).take 11) heq
  simp only [String.toList_append] at htake
  rw [List.take_append_of_le_length hs, List.take_append_of_le_length ht] at htake
  exact h htake

theorem namedIds_of_cacheKey {ids ids' : List String}
    (h : (Request.simplePrice ids).cacheKey = (Request.simplePrice ids').cacheKey) :
    (namedIds ids).Perm (namedIds ids') := by
  have hjoined : ",".intercalate (Utf16.sort ids) = ",".intercalate (Utf16.sort ids') :=
    (String.append_right_inj _).mp h
  have hnamed : namedIds (Utf16.sort ids) = namedIds (Utf16.sort ids') :=
    congrArg (fun joined => (String.toList joined).splitOn ',') hjoined
  have hsorted := namedIds_perm (Utf16.sort_perm ids)
  rw [hnamed] at hsorted
  exact hsorted.symm.trans (namedIds_perm (Utf16.sort_perm ids'))

/-- **One key is for one thing.** -/
theorem same_of_cacheKey {request request' : Request} (h : request.cacheKey = request'.cacheKey) :
    request.Same request' := by
  have hmarkets {ids : List String} {limit : ℕ} :
      (Request.simplePrice ids).cacheKey ≠ (Request.markets limit).cacheKey :=
    append_ne_append _ _ (by decide) (by decide) (by decide)
  have htickers {s : String} (x : String) (hs : s.toList.take 11 = "coingecko:s".toList ∨
      s.toList.take 11 = "coingecko:m".toList) (hlength : 11 ≤ s.toList.length) :
      s ++ x ≠ Request.tickers.cacheKey := by
    rw [← String.append_empty (s := Request.tickers.cacheKey)]
    refine append_ne_append _ _ ?_ hlength (by decide)
    rcases hs with hs | hs <;> rw [hs] <;> decide
  cases request with
  | simplePrice ids =>
    cases request' with
    | simplePrice ids' => exact namedIds_of_cacheKey h
    | markets => exact hmarkets h
    | tickers => exact htickers _ (.inl (by decide)) (by decide) h
  | markets limit =>
    cases request' with
    | simplePrice => exact hmarkets h.symm
    | markets limit' =>
      have hdigits := String.ofList_injective ((String.append_right_inj _).mp h)
      have hvalue := congrArg Decimal.value hdigits
      rwa [Decimal.value_ofNat, Decimal.value_ofNat] at hvalue
    | tickers => exact htickers _ (.inr (by decide)) (by decide) h
  | tickers =>
    cases request' with
    | simplePrice => exact htickers _ (.inl (by decide)) (by decide) h.symm
    | markets => exact htickers _ (.inr (by decide)) (by decide) h.symm
    | tickers => trivial

theorem Request.Same.answerType {request request' : Request} (h : request.Same request') :
    request.answerType = request'.answerType := by
  cases request <;> cases request' <;> first | rfl | exact h.elim

/-! ### Lookups -/

def coinOfMarket (coin : CoinGeckoMarketCoin) : CoinMarketData where
  id := coin.id
  symbol := coin.symbol
  name := coin.name
  priceUsd := coin.currentPrice
  changePercent24h := coin.priceChangePercentage24h
  marketCapUsd := some coin.marketCap

/-- `getTopMarkets`, of what CoinGecko answered. -/
def topMarkets : Option (List CoinGeckoMarketCoin) → Except PriceError (List CoinMarketData)
  | none => .error .coingeckoUnavailable
  | some coins => .ok (coins.map coinOfMarket)

/-- **A lookup between two requests**: of some prices or of the top of the market. -/
inductive Lookup where
  | prices (symbols : List String)
  | tickers (symbols : List String) (data : SimplePriceResponse)
  | markets (limit : ℕ)
  | priced (symbols : List String) (result : Except PriceError (List CoinMarketData))
  | listed (limit : ℕ) (result : Except PriceError (List CoinMarketData))
  /-- The cache had something of another type. -/
  | confused

variable (casing : Casing)

/-- The end of a lookup of prices. -/
def lookupResult (symbols : List String) (data : SimplePriceResponse)
    (fallbackResults : List CoinMarketData) : Except PriceError (List CoinMarketData) :=
  let results := resolvedCoins casing symbols data ++ fallbackResults
  if results.isEmpty then .error (.unknownCoinSymbols (uniqueSymbols casing symbols))
  else .ok results

/-- CoinPaprika is only asked for symbols without a coin. -/
def afterSimplePrice (symbols : List String) (data : SimplePriceResponse) : Lookup :=
  if unresolvedSymbols casing symbols data = [] then
    .priced symbols (lookupResult casing symbols data [])
  else .tickers symbols data

/-- How a lookup goes on. -/
def Lookup.resume : Lookup → Option Response → Lookup
  | prices symbols, none => priced symbols (.error .coingeckoUnavailable)
  | prices symbols, some (.simplePrice data) => afterSimplePrice casing symbols data
  | tickers symbols data, none => priced symbols (lookupResult casing symbols data
      (paprikaPrices casing none (unresolvedSymbols casing symbols data)))
  | tickers symbols data, some (.tickers all) => priced symbols (lookupResult casing symbols data
      (paprikaPrices casing (some all) (unresolvedSymbols casing symbols data)))
  | markets limit, none => listed limit (topMarkets none)
  | markets limit, some (.markets coins) => listed limit (topMarkets (some coins))
  | _, _ => confused

/-- What a lookup asks for next. -/
def Lookup.request : Lookup → Option Request
  | prices symbols => some (.simplePrice (requestedIds casing symbols))
  | tickers .. => some .tickers
  | markets limit => some (.markets limit)
  | _ => none

/-- How a lookup starts. -/
def Lookup.Starts : Lookup → Prop
  | prices _ => True
  | markets _ => True
  | _ => False

/-- **The price services behind their cache.** -/
def priceService (ttl : CacheTtl) : ReadThrough.Service Request String Response Lookup where
  key := Request.cacheKey
  ttl := fun request => ttl.cacheTtlMs request.answerType
  answers := Request.answers
  starts := Lookup.Starts
  request := Lookup.request casing
  resume := Lookup.resume casing

/-! ### What a lookup is answered from -/

abbrev Outputs := List (ReadThrough.Output Request Response Lookup)

variable (ttl : CacheTtl) (delay : ℕ)

/-- **An answer to a request for the same**, not long before; or none, because the request
failed. -/
def Recent (h : Outputs) (request : Request) (startedAt : ℤ) : Option Response → Prop
  | some response => ∃ request' t, .answered request' (some response) t ∈ h ∧
    request'.Same request ∧ startedAt ≤ t + delay + ttl.cacheTtlMs request.answerType
  | none => ∃ t, .answered request none t ∈ h ∧ startedAt ≤ t

/-- **The two services as a lookup saw them.** -/
def AnsweredFrom (h : Outputs) (symbols : List String) (startedAt : ℤ) (sources : PriceSources) :
    Prop :=
  (∃ data, sources.simplePrice (requestedIds casing symbols) = .ok data ∧
    Recent ttl delay h (.simplePrice (requestedIds casing symbols)) startedAt
      (some (.simplePrice data)) ∧
    (unresolvedSymbols casing symbols data ≠ [] →
      Recent ttl delay h .tickers startedAt (sources.allTickers.map .tickers))) ∨
  sources.simplePrice (requestedIds casing symbols) = .error .coingeckoUnavailable ∧
    Recent ttl delay h (.simplePrice (requestedIds casing symbols)) startedAt none

/-- What is true of every lookup. -/
def Lookup.Justified : Lookup → Outputs → ℤ → Prop
  | prices _, _, _ => True
  | markets _, _, _ => True
  | tickers symbols data, h, startedAt => unresolvedSymbols casing symbols data ≠ [] ∧
    Recent ttl delay h (.simplePrice (requestedIds casing symbols)) startedAt
      (some (.simplePrice data))
  | priced symbols result, h, startedAt => ∃ sources,
    AnsweredFrom casing ttl delay h symbols startedAt sources ∧
      result = getPricesBySymbols casing sources symbols
  | listed limit result, h, startedAt => ∃ answer,
    Recent ttl delay h (.markets limit) startedAt (answer.map .markets) ∧ result = topMarkets answer
  | confused, _, _ => False

section Justified

variable {casing ttl delay} {h : Outputs} {startedAt : ℤ} {request : Request}
  {value : Option Response} {symbols : List String} {data : SimplePriceResponse}

theorem Recent.mono (hrecent : Recent ttl delay h request startedAt value) (h' : Outputs) :
    Recent ttl delay (h ++ h') request startedAt value := by
  cases value with
  | none =>
    obtain ⟨t, hmem, hle⟩ := hrecent
    exact ⟨t, List.mem_append_left _ hmem, hle⟩
  | some response =>
    obtain ⟨request', t, hmem, hrest⟩ := hrecent
    exact ⟨request', t, List.mem_append_left _ hmem, hrest⟩

/-- What is read under a key is an answer to a request for the same, and of the right type. -/
theorem recent_of_fresh
    (hfresh : Fresh (priceService casing ttl) delay h request startedAt value) :
    Recent ttl delay h request startedAt value ∧ ∀ v ∈ value, request.answers v := by
  cases value with
  | none => exact ⟨hfresh, by rintro _ ⟨⟩⟩
  | some response =>
    obtain ⟨request', t, hmem, hkey, hanswers, hle⟩ := hfresh
    have hsame := same_of_cacheKey hkey
    refine ⟨⟨request', t, hmem, hsame, hsame.answerType ▸ hle⟩, ?_⟩
    rintro _ ⟨⟩
    exact hanswers.trans hsame.answerType

theorem AnsweredFrom.mono {sources : PriceSources}
    (hfrom : AnsweredFrom casing ttl delay h symbols startedAt sources) (h' : Outputs) :
    AnsweredFrom casing ttl delay (h ++ h') symbols startedAt sources := by
  rcases hfrom with ⟨data, hdata, hrecent, htickers⟩ | ⟨herror, hrecent⟩
  · exact .inl ⟨data, hdata, hrecent.mono h', fun hne => (htickers hne).mono h'⟩
  · exact .inr ⟨herror, hrecent.mono h'⟩

variable (data) in
theorem getPricesBySymbols_ok {sources : PriceSources}
    (hdata : sources.simplePrice (requestedIds casing symbols) = .ok data) :
    getPricesBySymbols casing sources symbols = lookupResult casing symbols data
      (paprikaPrices casing sources.allTickers (unresolvedSymbols casing symbols data)) := by
  rw [getPricesBySymbols, hdata]
  rfl

/-- CoinGecko answered: the lookup is over, or CoinPaprika is next. -/
theorem justified_afterSimplePrice
    (hrecent : Recent ttl delay h (.simplePrice (requestedIds casing symbols)) startedAt
      (some (.simplePrice data))) :
    (afterSimplePrice casing symbols data).Justified casing ttl delay h startedAt := by
  rw [afterSimplePrice]
  split_ifs with hresolved
  · refine ⟨⟨fun _ => .ok data, none⟩, .inl ⟨data, rfl, hrecent, fun hne => ?_⟩, ?_⟩
    · exact absurd hresolved hne
    · rw [getPricesBySymbols_ok data rfl, hresolved, paprikaPrices, if_pos rfl]
  · exact ⟨hresolved, hrecent⟩

/-- CoinPaprika answered, or not: the lookup is over. -/
theorem justified_priced (hrecent : Recent ttl delay h
      (.simplePrice (requestedIds casing symbols)) startedAt (some (.simplePrice data)))
    (allTickers : Option (List CoinPaprikaTicker))
    (htickers : Recent ttl delay h .tickers startedAt (allTickers.map .tickers)) :
    (Lookup.priced symbols (lookupResult casing symbols data
      (paprikaPrices casing allTickers (unresolvedSymbols casing symbols data)))).Justified
        casing ttl delay h startedAt := by
  refine ⟨⟨fun _ => .ok data, allTickers⟩, .inl ⟨data, rfl, hrecent, fun _ => htickers⟩, ?_⟩
  rw [getPricesBySymbols_ok data rfl]

variable (casing ttl delay)

/-- **It stays true.** -/
theorem justified_invariant :
    ReadThrough.Invariant (priceService casing ttl) delay (Lookup.Justified casing ttl delay) where
  starts client startedAt hstarts := by
    cases client with
    | prices => trivial
    | markets => trivial
    | _ => exact hstarts.elim
  mono client h h' startedAt hjustified := by
    cases client with
    | tickers symbols data => exact ⟨hjustified.1, hjustified.2.mono h'⟩
    | priced symbols result =>
      obtain ⟨sources, hfrom, hresult⟩ := hjustified
      exact ⟨sources, hfrom.mono h', hresult⟩
    | listed limit result =>
      obtain ⟨answer, hrecent, hresult⟩ := hjustified
      exact ⟨answer, hrecent.mono h', hresult⟩
    | _ => exact hjustified
  resume client request h startedAt value hjustified hrequest hfresh := by
    obtain ⟨hrecent, hanswers⟩ := recent_of_fresh hfresh
    cases client with
    | prices symbols =>
      obtain rfl := Option.some.inj hrequest
      cases value with
      | none => exact ⟨⟨fun _ => .error .coingeckoUnavailable, none⟩, .inr ⟨rfl, hrecent⟩, rfl⟩
      | some response =>
        cases response with
        | simplePrice data => exact justified_afterSimplePrice hrecent
        | _ => cases hanswers _ rfl
    | tickers symbols data =>
      obtain rfl := Option.some.inj hrequest
      obtain ⟨-, hdata⟩ := hjustified
      cases value with
      | none => exact justified_priced hdata none hrecent
      | some response =>
        cases response with
        | tickers all => exact justified_priced hdata (some all) hrecent
        | _ => cases hanswers _ rfl
    | markets limit =>
      obtain rfl := Option.some.inj hrequest
      cases value with
      | none => exact ⟨none, hrecent, rfl⟩
      | some response =>
        cases response with
        | markets coins => exact ⟨some coins, hrecent, rfl⟩
        | _ => cases hanswers _ rfl
    | _ => cases hrequest

end Justified

/-- **A cached lookup is a lookup**: however many run at once, and whatever fails, a result is
what the services' answers make of the symbols – answers to requests for the same ids, at most a
time to live and the delay before the lookup began – and the cache never has something of another
type under a key. -/
theorem cached_lookups {now : ℤ} {es : List (ReadThrough.Event String Response Lookup)}
    {e : ReadThrough.Event String Response Lookup}
    (hr : (ReadThrough.system (priceService casing ttl) delay).Run (ReadThrough.start now)
      (es ++ [e])) {i : ℕ} {lookup : Lookup} {startedAt : ℤ}
    (hfinished : .finished i lookup startedAt ∈
      (ReadThrough.system (priceService casing ttl) delay).out
        ((ReadThrough.system (priceService casing ttl) delay).final (ReadThrough.start now) es) e) :
    let h := (ReadThrough.system (priceService casing ttl) delay).outputs (ReadThrough.start now)
      (es ++ [e])
    (∃ symbols sources, lookup = .priced symbols (getPricesBySymbols casing sources symbols) ∧
        AnsweredFrom casing ttl delay h symbols startedAt sources) ∨
      ∃ limit answer, lookup = .listed limit (topMarkets answer) ∧
        Recent ttl delay h (.markets limit) startedAt (answer.map .markets) := by
  intro h
  obtain ⟨hlast, hjustified⟩ := ReadThrough.invariant_of_finished
    (justified_invariant casing ttl delay) hr hfinished
  cases lookup with
  | priced symbols result =>
    obtain ⟨sources, hfrom, rfl⟩ := hjustified
    exact .inl ⟨symbols, sources, rfl, hfrom⟩
  | listed limit result =>
    obtain ⟨answer, hrecent, rfl⟩ := hjustified
    exact .inr ⟨limit, answer, rfl, hrecent⟩
  | confused => exact hjustified.elim
  | _ => cases hlast

/-- One minute of cache, and what CoinGecko says of one coin. -/
def minuteTtl : CacheTtl := ⟨60, 60, by decide, by decide⟩

def bitcoinData : SimplePriceResponse := InsertionMap.ofList [("bitcoin", ⟨50000, none, none⟩)]

/-- A lookup that fills the cache, and the beginning of one that finds it full. -/
def lookupTwice : List (ReadThrough.Event String Response Lookup) :=
  [.starts 0 (.prices ["btc"]), .moves 0 (.reads none),
    .moves 0 (.answers (some (.simplePrice bitcoinData))), .moves 0 (.stores true), .ticks 10000,
    .starts 1 (.prices ["BTC"])]

/-- The second lookup is answered without asking anybody. -/
theorem cached_lookups_twice :
    ∃ sources, getPricesBySymbols asciiCasing ⟨fun _ => .ok bitcoinData, none⟩ ["BTC"] =
        getPricesBySymbols asciiCasing sources ["BTC"] ∧
      AnsweredFrom asciiCasing minuteTtl 0
        ((ReadThrough.system (priceService asciiCasing minuteTtl) 0).outputs (ReadThrough.start 0)
          (lookupTwice ++ [.moves 1 (.reads (some (.simplePrice bitcoinData)))])) ["BTC"] 10000
        sources := by
  have hids : requestedIds asciiCasing ["btc"] = requestedIds asciiCasing ["BTC"] := by
    decide +kernel
  have hresolved : unresolvedSymbols asciiCasing ["BTC"] bitcoinData = [] := by decide +kernel
  have hr : (ReadThrough.system (priceService asciiCasing minuteTtl) 0).Run (ReadThrough.start 0)
      (lookupTwice ++ [.moves 1 (.reads (some (.simplePrice bitcoinData)))]) := by
    refine ⟨⟨rfl, trivial⟩, ⟨_, _, rfl, rfl, by rintro _ ⟨⟩⟩, ⟨_, _, rfl, rfl, ?_⟩,
      ⟨_, _, rfl, _, _, rfl, by decide⟩, trivial, ⟨rfl, trivial⟩, ⟨_, _, rfl, rfl, ?_⟩, trivial⟩
    · rintro _ ⟨⟩
      rfl
    · rintro _ ⟨⟩
      refine ⟨60000, ?_, by decide⟩
      have hkey : (Request.simplePrice (requestedIds asciiCasing ["btc"])).cacheKey =
          (Request.simplePrice (requestedIds asciiCasing ["BTC"])).cacheKey :=
        cacheKey_perm (List.Perm.of_eq hids)
      exact (congrArg _ hkey.symm).trans (Function.update_self _ _ _)
  have hfinished : .finished 1 (.priced ["BTC"] (getPricesBySymbols asciiCasing
        ⟨fun _ => .ok bitcoinData, none⟩ ["BTC"])) 10000 ∈
      (ReadThrough.system (priceService asciiCasing minuteTtl) 0).out
        ((ReadThrough.system (priceService asciiCasing minuteTtl) 0).final (ReadThrough.start 0)
          lookupTwice) (.moves 1 (.reads (some (.simplePrice bitcoinData)))) := by
    have hresume : afterSimplePrice asciiCasing ["BTC"] bitcoinData =
        .priced ["BTC"] (lookupResult asciiCasing ["BTC"] bitcoinData []) := if_pos hresolved
    rw [getPricesBySymbols_ok bitcoinData rfl, hresolved]
    change _ ∈ ReadThrough.saidWhenFinished (priceService asciiCasing minuteTtl) 1
      ⟨afterSimplePrice asciiCasing ["BTC"] bitcoinData, 10000, .reading⟩
    rw [hresume]
    exact List.mem_singleton_self _
  rcases cached_lookups asciiCasing minuteTtl 0 hr hfinished with
    ⟨symbols, sources, heq, hfrom⟩ | ⟨_, _, heq, -⟩
  · obtain ⟨rfl, hresult⟩ := Lookup.priced.inj heq
    exact ⟨sources, hresult, hfrom⟩
  · cases heq

/-! ### How often the services are asked -/

/-- **Requests the cache takes for one**: ids count in any order. -/
def Request.Again : Request → Request → Prop
  | simplePrice ids, simplePrice ids' => ids.Perm ids'
  | markets limit, markets limit' => limit = limit'
  | tickers, tickers => True
  | _, _ => False

theorem Request.Again.cacheKey_eq {request request' : Request} (h : request.Again request') :
    request.cacheKey = request'.cacheKey := by
  cases request with
  | simplePrice ids =>
    cases request' with
    | simplePrice ids' => exact cacheKey_perm h
    | _ => exact h.elim
  | markets limit =>
    cases request' with
    | markets limit' =>
      obtain rfl : limit = limit' := h
      rfl
    | _ => exact h.elim
  | tickers =>
    cases request' with
    | tickers => rfl
    | _ => exact h.elim

/-- **The services are asked for one thing once in a time to live**, as long as nothing fails and
nobody asks for what somebody is just asking for. -/
theorem requests_apart {now : ℤ} {es : List (ReadThrough.Event String Response Lookup)}
    (hr : ((ReadThrough.system (priceService casing ttl) delay).restrict
      (ReadThrough.Reliable (priceService casing ttl))).Run (ReadThrough.start now) es) :
    ((ReadThrough.system (priceService casing ttl) delay).outputs
        (ReadThrough.start now) es).Pairwise fun o o' =>
      ∀ (request : Request) (t : ℤ) (request' : Request) (t' : ℤ),
        o = .asked request t → o' = .asked request' t' → request.Again request' →
          t + ttl.cacheTtlMs request.answerType ≤ t' := by
  refine (ReadThrough.asked_apart ?_ hr).imp ?_
  · intro request request' hkey
    exact congrArg ttl.cacheTtlMs (same_of_cacheKey hkey).answerType
  · rintro _ _ hapart request t request' t' rfl rfl hagain
    exact hapart hagain.cacheKey_eq

/-- The top of the market, a minute later again. -/
def marketsTwice : List (ReadThrough.Event String Response Lookup) :=
  [.starts 0 (.markets 10), .moves 0 (.reads none), .moves 0 (.answers (some (.markets []))),
    .moves 0 (.stores true), .ticks 60000, .starts 1 (.markets 10), .moves 1 (.reads none)]

theorem requests_apart_markets :
    ((ReadThrough.system (priceService asciiCasing minuteTtl) 0).outputs (ReadThrough.start 0)
        marketsTwice).Pairwise fun o o' =>
      ∀ (request : Request) (t : ℤ) (request' : Request) (t' : ℤ),
        o = .asked request t → o' = .asked request' t' → request.Again request' →
          t + minuteTtl.cacheTtlMs request.answerType ≤ t' := by
  have hr : ((ReadThrough.system (priceService asciiCasing minuteTtl) 0).restrict
      (ReadThrough.Reliable (priceService asciiCasing minuteTtl))).Run (ReadThrough.start 0)
      marketsTwice := by
    refine ⟨⟨⟨rfl, trivial⟩, trivial⟩, ⟨⟨_, _, rfl, rfl, by rintro _ ⟨⟩⟩, ?_⟩,
      ⟨⟨_, _, rfl, rfl, ?_⟩, ?_⟩, ⟨⟨_, _, rfl, _, _, rfl, by decide⟩, ?_⟩, ⟨trivial, trivial⟩,
      ⟨⟨rfl, trivial⟩, trivial⟩, ⟨⟨_, _, rfl, rfl, by rintro _ ⟨⟩⟩, ?_⟩, trivial⟩
    · refine ReadThrough.reliable_moves rfl
        (fun _ => ⟨by rintro _ _ ⟨⟩, ReadThrough.not_busy ?_⟩) (by rintro ⟨⟩) (by rintro ⟨⟩)
      exact ReadThrough.reading_update (by rintro _ _ _ ⟨⟩) rfl
    · rintro _ ⟨⟩
      rfl
    · exact ReadThrough.reliable_moves rfl (by rintro ⟨⟩) (by rintro ⟨⟩) (by rintro ⟨⟩)
    · exact ReadThrough.reliable_moves rfl (by rintro ⟨⟩) (by rintro ⟨⟩) (by rintro ⟨⟩)
    · refine ReadThrough.reliable_moves rfl (fun _ => ⟨?_, ReadThrough.not_busy ?_⟩)
        (by rintro ⟨⟩) (by rintro ⟨⟩)
      · intro value expiry hentry
        change Function.update (fun _ => none) (Request.markets 10).cacheKey
          (some (Response.markets [], (0 : ℤ) + (60000 : ℕ))) (Request.markets 10).cacheKey = _
          at hentry
        rw [Function.update_self] at hentry
        obtain ⟨-, rfl⟩ := Prod.mk.inj (Option.some.inj hentry)
        exact le_rfl
      · refine ReadThrough.reading_update
          (fun j _ => ReadThrough.reading_update (i := 0) (fun j hj task htask => ?_) rfl j) rfl
        -- There is no client but the first one.
        have hreading := (Function.update_of_ne hj _ _).symm.trans htask
        have hstarting := (Function.update_of_ne hj _ _).symm.trans hreading
        cases (Function.update_of_ne hj _ _).symm.trans hstarting
  exact requests_apart asciiCasing minuteTtl 0 hr

end Prices

end CryptoZaloBot
