import Mathlib.Data.Rat.Defs
import Mathlib.Data.List.DropRight
import CryptoZaloBot.Base.InsertionMap

/-!
# Looking up prices

`CoingeckoService.getPricesBySymbols` and the two functions that read its result by
symbol: `pricesBySymbol` for the portfolio, the digest and the signals, and
`PriceAlertsController.loadPrices` for the alerts.

A lookup asks CoinGecko by *id*, and several symbols can have one id (`matic` and
`pol`). The coin then comes back under one symbol only; the others count as unresolved
and are looked up again at CoinPaprika, by symbol.

What the two services answer is a parameter (`CryptoZaloBot.Prices.PriceSources`), and
so is the lowercasing of texts, of which only one fact is used
(`CryptoZaloBot.Prices.Casing`).
-/

namespace CryptoZaloBot

namespace Prices

/-! ### Symbols -/

/-- White space and line terminators, as `trim` knows them. -/
def isTrimmed (c : Char) : Bool :=
  c.toNat ∈ [0x9, 0xa, 0xb, 0xc, 0xd, 0x20, 0xa0, 0x1680, 0x2028, 0x2029, 0x202f, 0x205f, 0x3000,
    0xfeff] || (0x2000 ≤ c.toNat && c.toNat ≤ 0x200a)

def trimChars (cs : List Char) : List Char := (cs.dropWhile isTrimmed).rdropWhile isTrimmed

/-- `s.trim()`. -/
def trim (s : String) : String := String.ofList (trimChars s.toList)

/-- **The case mappings of the language.** A text that was trimmed and lowercased stays
as it is when this is done again. -/
structure Casing where
  toLowerCase : String → String
  toUpperCase : String → String
  stable : ∀ s, toLowerCase (trim (toLowerCase (trim s))) = toLowerCase (trim s)

/-- The lowercase of a letter of ASCII. -/
def lowerChar (c : Char) : Char :=
  if 65 ≤ c.toNat ∧ c.toNat ≤ 90 then Char.ofNat (c.toNat + 32) else c

theorem lowerChar_spec (c : Char) :
    lowerChar (lowerChar c) = lowerChar c ∧ isTrimmed (lowerChar c) = isTrimmed c := by
  by_cases h : 65 ≤ c.toNat ∧ c.toNat ≤ 90
  · have hall : ∀ n, n < 91 → 65 ≤ n →
        lowerChar (lowerChar (Char.ofNat n)) = lowerChar (Char.ofNat n) ∧
          isTrimmed (lowerChar (Char.ofNat n)) = isTrimmed (Char.ofNat n) := by decide
    simpa using hall c.toNat (by omega) h.1
  · have hsame : lowerChar c = c := if_neg h
    rw [hsame]
    exact ⟨hsame, rfl⟩

theorem trimChars_trimChars (cs : List Char) : trimChars (trimChars cs) = trimChars cs := by
  have hdrop : (trimChars cs).dropWhile isTrimmed = trimChars cs := by
    rw [List.dropWhile_eq_self_iff]
    intro hl
    have hpre : trimChars cs <+: cs.dropWhile isTrimmed := List.rdropWhile_prefix _ _
    have hl' : 0 < (cs.dropWhile isTrimmed).length := hl.trans_le hpre.length_le
    rw [hpre.getElem hl]
    exact List.dropWhile_get_zero_not isTrimmed cs hl'
  rw [trimChars, hdrop, trimChars, List.rdropWhile_idempotent]

theorem trimChars_map_lowerChar (cs : List Char) :
    trimChars (cs.map lowerChar) = (trimChars cs).map lowerChar := by
  have hp : isTrimmed ∘ lowerChar = isTrimmed := funext fun c => (lowerChar_spec c).2
  rw [trimChars, List.dropWhile_map, hp, List.rdropWhile, ← List.map_reverse, List.dropWhile_map,
    hp, ← List.map_reverse]
  rfl

/-- **Texts without letters beyond ASCII** are cased letter by letter. -/
def asciiCasing : Casing where
  toLowerCase s := String.ofList (s.toList.map lowerChar)
  toUpperCase s := s.toUpper
  stable s := by
    have hlower : lowerChar ∘ lowerChar = lowerChar := funext fun c => (lowerChar_spec c).1
    have htrim : ∀ s, (trim s).toList = trimChars s.toList := fun s => by simp [trim]
    simp only [htrim, String.toList_ofList, trimChars_map_lowerChar, trimChars_trimChars,
      List.map_map, hlower]

variable (casing : Casing)

/-- `s.trim().toLowerCase()`. -/
def normalize (s : String) : String := casing.toLowerCase (trim s)

theorem normalize_normalize (s : String) :
    normalize casing (normalize casing s) = normalize casing s :=
  casing.stable s

/-- Static symbol to CoinGecko coin id map for the most commonly requested coins. -/
def symbolToCoingeckoId : List (String × String) :=
  [("btc", "bitcoin"), ("eth", "ethereum"), ("sol", "solana"), ("bnb", "binancecoin"),
    ("xrp", "ripple"), ("ada", "cardano"), ("doge", "dogecoin"), ("dot", "polkadot"),
    ("matic", "matic-network"), ("pol", "matic-network"), ("avax", "avalanche-2"),
    ("ltc", "litecoin"), ("trx", "tron"), ("link", "chainlink"), ("usdt", "tether"),
    ("usdc", "usd-coin"), ("shib", "shiba-inu"), ("atom", "cosmos"), ("near", "near"),
    ("apt", "aptos"), ("arb", "arbitrum"), ("op", "optimism"), ("sui", "sui"),
    ("ton", "the-open-network"), ("bch", "bitcoin-cash"), ("etc", "ethereum-classic"),
    ("xlm", "stellar"), ("fil", "filecoin"), ("icp", "internet-computer"), ("uni", "uniswap"),
    ("pepe", "pepe"), ("wld", "worldcoin-wld"), ("ygg", "yield-guild-games"), ("2z", "doublezero")]

/-- A symbol with no known mapping is its own id. -/
def resolveSymbolToId (symbol : String) : String :=
  let normalized := normalize casing symbol
  (InsertionMap.lookupEntry normalized symbolToCoingeckoId).getD normalized

/-! ### The two price services -/

/-- One entry of CoinGecko's `/simple/price`. -/
structure SimplePriceEntry where
  usd : ℚ
  usd24hChange : Option ℚ
  usdMarketCap : Option ℚ

/-- What CoinGecko answered, by coin id. -/
abbrev SimplePriceResponse := InsertionMap String SimplePriceEntry

/-- One entry of CoinPaprika's `/v1/tickers`. -/
structure CoinPaprikaTicker where
  id : String
  name : String
  symbol : String
  rank : ℤ
  price : ℚ
  marketCap : ℚ
  percentChange24h : Option ℚ

structure CoinMarketData where
  id : String
  symbol : String
  name : String
  priceUsd : ℚ
  changePercent24h : Option ℚ
  marketCapUsd : Option ℚ

inductive PriceError where
  | coingeckoUnavailable
  | unknownCoinSymbols (symbols : List String)

/-- **What the services answer**, from their caches or over the network. -/
structure PriceSources where
  /-- CoinGecko's answer for some ids. -/
  simplePrice : List String → Except PriceError SimplePriceResponse
  /-- CoinPaprika's ticker list, unless it failed. -/
  allTickers : Option (List CoinPaprikaTicker)

/-! ### CoinPaprika -/

/-- CoinPaprika reuses tickers across unrelated coins: the lowest rank is kept, and the
first of two equal ones. -/
def keepBest (best : InsertionMap String CoinPaprikaTicker) (ticker : CoinPaprikaTicker) :
    InsertionMap String CoinPaprikaTicker :=
  let key := casing.toLowerCase ticker.symbol
  match best.get? key with
  | none => best.set key ticker
  | some existing => if ticker.rank < existing.rank then best.set key ticker else best

def bestTickerBySymbol (tickers : List CoinPaprikaTicker) :
    InsertionMap String CoinPaprikaTicker :=
  tickers.foldl (keepBest casing) InsertionMap.empty

def coinOfTicker (symbol : String) (ticker : CoinPaprikaTicker) : CoinMarketData where
  id := ticker.id
  symbol := symbol
  name := ticker.name
  priceUsd := ticker.price
  changePercent24h := ticker.percentChange24h
  marketCapUsd := some ticker.marketCap

/-- `CoinPaprikaService.getPricesBySymbols`: symbols without a ticker are left out. -/
def paprikaPrices (allTickers : Option (List CoinPaprikaTicker)) (symbols : List String) :
    List CoinMarketData :=
  if symbols = [] then []
  else
    match allTickers with
    | none => []
    | some tickers =>
      symbols.filterMap fun rawSymbol =>
        let symbol := normalize casing rawSymbol
        ((bestTickerBySymbol casing tickers).get? symbol).map (coinOfTicker symbol)

/-! ### CoinGecko -/

def uniqueSymbols (symbols : List String) : List String :=
  unique (symbols.map (normalize casing))

/-- `idToSymbol`: of two symbols with one id, the later one. -/
def idToSymbol (symbols : List String) : InsertionMap String String :=
  InsertionMap.ofList
    ((uniqueSymbols casing symbols).map fun symbol => (resolveSymbolToId casing symbol, symbol))

/-- The ids one lookup asks CoinGecko for. -/
def requestedIds (symbols : List String) : List String :=
  (idToSymbol casing symbols).entries.map Prod.fst

def coinOfEntry (symbols : List String) (e : String × SimplePriceEntry) : CoinMarketData :=
  let symbol := ((idToSymbol casing symbols).get? e.1).getD e.1
  { id := e.1
    symbol
    name := casing.toUpperCase symbol
    priceUsd := e.2.usd
    changePercent24h := e.2.usd24hChange
    marketCapUsd := e.2.usdMarketCap }

/-- The coins CoinGecko returned. -/
def resolvedCoins (symbols : List String) (data : SimplePriceResponse) : List CoinMarketData :=
  data.entries.map (coinOfEntry casing symbols)

/-- The symbols no returned coin goes under. -/
def unresolvedSymbols (symbols : List String) (data : SimplePriceResponse) : List String :=
  (uniqueSymbols casing symbols).filter fun symbol =>
    symbol ∉ (resolvedCoins casing symbols data).map CoinMarketData.symbol

/-- **`CoingeckoService.getPricesBySymbols`.** -/
def getPricesBySymbols (sources : PriceSources) (symbols : List String) :
    Except PriceError (List CoinMarketData) :=
  match sources.simplePrice (requestedIds casing symbols) with
  | .error error => .error error
  | .ok data =>
    let results := resolvedCoins casing symbols data ++
      paprikaPrices casing sources.allTickers (unresolvedSymbols casing symbols data)
    if results.isEmpty then .error (.unknownCoinSymbols (uniqueSymbols casing symbols))
    else .ok results

/-! ### Prices by symbol -/

structure HoldingPrice where
  priceUsd : ℚ
  changePercent24h : Option ℚ

/-- The coin of a symbol: under the symbol itself, or else under its id. -/
def coinFor (coins : List CoinMarketData) (symbol : String) : Option CoinMarketData :=
  ((InsertionMap.ofList (coins.map fun coin => (coin.symbol, coin))).get? symbol).or
    ((InsertionMap.ofList (coins.map fun coin => (coin.id, coin))).get?
      (resolveSymbolToId casing symbol))

/-- **`pricesBySymbol`**: prices keyed by each requested symbol; symbols the lookup did
not return are absent. -/
def pricesBySymbol (coins : List CoinMarketData) (symbols : List String) :
    InsertionMap String HoldingPrice :=
  InsertionMap.ofList (symbols.filterMap fun symbol =>
    (coinFor casing coins symbol).map fun coin =>
      (symbol, { priceUsd := coin.priceUsd, changePercent24h := coin.changePercent24h }))

/-- The price of a symbol: under the symbol itself, or else under its id. -/
def priceFor (coins : List CoinMarketData) (symbol : String) : Option ℚ :=
  ((InsertionMap.ofList (coins.map fun coin => (coin.symbol, coin.priceUsd))).get? symbol).or
    ((InsertionMap.ofList (coins.map fun coin => (coin.id, coin.priceUsd))).get?
      (resolveSymbolToId casing symbol))

/-- **`PriceAlertsController.loadPrices`**, for the symbols of the alerts: no prices if
the price source is down. -/
def loadPrices (sources : PriceSources) (alertSymbols : List String) : InsertionMap String ℚ :=
  let symbols := unique alertSymbols
  match getPricesBySymbols casing sources symbols with
  | .error _ => InsertionMap.empty
  | .ok coins =>
    InsertionMap.ofList (symbols.filterMap fun symbol =>
      (priceFor casing coins symbol).map fun price => (symbol, price))

end Prices

end CryptoZaloBot
