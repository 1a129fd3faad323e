import CryptoZaloBot.Base.JsNumber
import CryptoZaloBot.Base.WeightedMean
import CryptoZaloBot.Portfolio.Costs

/-!
# What a portfolio is worth

`computePortfolio`: the holdings at current prices. A coin without a price is listed and left
out of every total; a coin without a usable 24h change is left out of the 24h change only. Of a
change of `c` percent the code goes back to the value a day ago, `value / (1 + c / 100)`, which
is why a change of `-100` or less is not usable.

Three sets of coins feed the totals – those without a price, those with a price alone and those
with a change too – and the change in percent is the mean of the changes of the third, weighted
by the values a day ago (`CryptoZaloBot.Portfolio.computePortfolio_spec`).
-/

namespace CryptoZaloBot

namespace Portfolio

/-- Price of one held coin, as the price source returned it. -/
structure HoldingPrice where
  priceUsd : ℚ
  changePercent24h : Option JsNumber

structure PricedHoldingLine where
  symbol : String
  quantity : String
  priceUsd : ℚ
  valueUsd : ℚ
  unrealizedPnlUsd : ℚ
  /-- Nothing when the cost basis is 0. -/
  unrealizedPnlPercent : Option ℚ
  /-- Nothing when the price source had no 24h change for this coin. -/
  change24hUsd : Option ℚ
  deriving DecidableEq

inductive HoldingLine where
  | priced (line : PricedHoldingLine)
  | unpriced (symbol quantity : String)
  deriving DecidableEq

/-- Everything `/danhmuc` and the digest show. -/
structure PortfolioSnapshot where
  lines : List HoldingLine
  /-- Sum over priced coins only. -/
  totalValueUsd : ℚ
  totalCostBasisUsd : ℚ
  unrealizedPnlUsd : ℚ
  /-- On the cost basis of the priced coins still held. -/
  unrealizedPnlPercent : Option ℚ
  realizedPnlUsd : ℚ
  /-- Over priced coins that also have a 24h change. -/
  change24hUsd : Option ℚ
  change24hPercent : Option ℚ
  /-- Held coins with no price right now, left out of every total. -/
  unpricedSymbols : List String
  /-- Priced coins with no 24h change, left out of the 24h change only. -/
  missingChangeSymbols : List String
  deriving DecidableEq

/-! ### The loop -/

/-- `a / b`; nothing where the language goes on with an infinity or `NaN`. -/
def divide? (a b : ℚ) : Option ℚ := if b = 0 then none else some (a / b)

/-- `base > 0 ? (part / base) * 100 : null`. -/
def percentOf? (part base : ℚ) : Option (Option ℚ) :=
  if 0 < base then (divide? part base).map fun share => some (share * 100) else some none

/-- The 24h change, if it is there, finite and above `-100`. -/
def HoldingPrice.usableChange (price : HoldingPrice) : Option ℚ :=
  match price.changePercent24h with
  | some (.finite change) => if -100 < change then some change else none
  | _ => none

/-- What the loop over the holdings has gathered. -/
structure Gathered where
  lines : List HoldingLine := []
  unpricedSymbols : List String := []
  missingChangeSymbols : List String := []
  totalValueUsd : ℚ := 0
  totalCostBasisUsd : ℚ := 0
  change24hUsd : ℚ := 0
  valueWithChangeUsd : ℚ := 0
  changedCount : ℕ := 0

/-- `value − value / (1 + change% / 100)`, for a usable change. -/
def lineChange? (valueUsd : ℚ) : Option ℚ → Option (Option ℚ)
  | none => some none
  | some change => (divide? valueUsd (1 + change / 100)).map fun dayAgo => some (valueUsd - dayAgo)

/-- One turn of the loop, for a coin with a price. -/
def gatherPriced (gathered : Gathered) (holding : Holding) (price : HoldingPrice) :
    Option Gathered := do
  let valueUsd := unitsToNumber holding.quantityUnits * price.priceUsd
  let unrealizedPnlUsd := valueUsd - holding.costBasisUsd
  let lineChangeUsd ← lineChange? valueUsd price.usableChange
  let unrealizedPnlPercent ← percentOf? unrealizedPnlUsd holding.costBasisUsd
  let line : PricedHoldingLine :=
    { symbol := holding.symbol
      quantity := holding.quantity
      priceUsd := price.priceUsd
      valueUsd
      unrealizedPnlUsd
      unrealizedPnlPercent
      change24hUsd := lineChangeUsd }
  let withLine :=
    { gathered with
      lines := gathered.lines ++ [HoldingLine.priced line]
      totalValueUsd := gathered.totalValueUsd + valueUsd
      totalCostBasisUsd := gathered.totalCostBasisUsd + holding.costBasisUsd }
  match lineChangeUsd with
  | none =>
    return { withLine with
      missingChangeSymbols := gathered.missingChangeSymbols ++ [holding.symbol] }
  | some change =>
    return { withLine with
      change24hUsd := gathered.change24hUsd + change
      valueWithChangeUsd := gathered.valueWithChangeUsd + valueUsd
      changedCount := gathered.changedCount + 1 }

/-- One turn of the loop. -/
def gather (prices : InsertionMap String HoldingPrice) (gathered : Gathered) (holding : Holding) :
    Option Gathered :=
  match prices.get? holding.symbol with
  | none =>
    some { gathered with
      unpricedSymbols := gathered.unpricedSymbols ++ [holding.symbol]
      lines := gathered.lines ++ [.unpriced holding.symbol holding.quantity] }
  | some price => gatherPriced gathered holding price

/-- **Values the holdings at current prices**; nothing if something is divided by zero. -/
def computePortfolio (result : HoldingsResult) (prices : InsertionMap String HoldingPrice) :
    Option PortfolioSnapshot := do
  let gathered ← result.holdings.foldlM (gather prices) {}
  let unrealizedPnlUsd := gathered.totalValueUsd - gathered.totalCostBasisUsd
  let valueDayAgoUsd := gathered.valueWithChangeUsd - gathered.change24hUsd
  let unrealizedPnlPercent ← percentOf? unrealizedPnlUsd gathered.totalCostBasisUsd
  let change24hPercent ←
    if 0 < gathered.changedCount then percentOf? gathered.change24hUsd valueDayAgoUsd
    else some none
  return {
    lines := gathered.lines
    totalValueUsd := gathered.totalValueUsd
    totalCostBasisUsd := gathered.totalCostBasisUsd
    unrealizedPnlUsd
    unrealizedPnlPercent
    realizedPnlUsd := result.realizedPnlUsd
    change24hUsd := if 0 < gathered.changedCount then some gathered.change24hUsd else none
    change24hPercent
    unpricedSymbols := gathered.unpricedSymbols
    missingChangeSymbols := gathered.missingChangeSymbols }

/-! ### Nothing is divided by zero -/

theorem divide?_of_ne_zero (a : ℚ) {b : ℚ} (h : b ≠ 0) : divide? a b = some (a / b) := if_neg h

theorem percentOf?_eq (part base : ℚ) :
    percentOf? part base = some (if 0 < base then some (part / base * 100) else none) := by
  rw [percentOf?]
  split_ifs with h
  · rw [divide?_of_ne_zero part h.ne', Option.map_some]
  · rfl

theorem usableChange_eq_some_iff {price : HoldingPrice} {change : ℚ} :
    price.usableChange = some change ↔
      price.changePercent24h = some (.finite change) ∧ -100 < change := by
  rw [HoldingPrice.usableChange]
  split
  · next change' h =>
    rw [h]
    split_ifs with hlt
    · simp only [Option.some.injEq, JsNumber.finite.injEq]
      exact ⟨fun heq => ⟨heq, heq ▸ hlt⟩, And.left⟩
    · simp only [Option.some.injEq, JsNumber.finite.injEq, false_iff, not_and]
      exact fun heq => heq ▸ hlt
  · next hnot =>
    simp only [reduceCtorEq, false_iff, not_and]
    exact fun h => absurd h (hnot change)

theorem one_add_pos {change : ℚ} (h : -100 < change) : 0 < 1 + change / 100 := by linarith

theorem lineChange?_usableChange (valueUsd : ℚ) (price : HoldingPrice) :
    lineChange? valueUsd price.usableChange =
      some (price.usableChange.map fun change => valueUsd - valueUsd / (1 + change / 100)) := by
  cases h : price.usableChange with
  | none => rfl
  | some change =>
    have hpos := one_add_pos (usableChange_eq_some_iff.mp h).2
    rw [lineChange?, divide?_of_ne_zero valueUsd hpos.ne', Option.map_some, Option.map_some]

/-! ### What is gathered -/

section Coins

variable (prices : InsertionMap String HoldingPrice)

/-- The coins that have a price. -/
def pricedCoins (holdings : List Holding) : List (Holding × HoldingPrice) :=
  holdings.filterMap fun holding => (prices.get? holding.symbol).map (holding, ·)

/-- The coins that have a price and a usable change. -/
def changedCoins (holdings : List Holding) : List ((Holding × HoldingPrice) × ℚ) :=
  (pricedCoins prices holdings).filterMap fun coin => coin.2.usableChange.map (coin, ·)

/-- The value of a coin. -/
def valueOf (coin : Holding × HoldingPrice) : ℚ :=
  unitsToNumber coin.1.quantityUnits * coin.2.priceUsd

/-- The value of a coin a day ago. -/
def dayAgoOf (coin : (Holding × HoldingPrice) × ℚ) : ℚ := valueOf coin.1 / (1 + coin.2 / 100)

/-- The line of a coin. -/
def lineOf (holding : Holding) : HoldingLine :=
  match prices.get? holding.symbol with
  | none => .unpriced holding.symbol holding.quantity
  | some price =>
    let valueUsd := valueOf (holding, price)
    .priced
      { symbol := holding.symbol
        quantity := holding.quantity
        priceUsd := price.priceUsd
        valueUsd
        unrealizedPnlUsd := valueUsd - holding.costBasisUsd
        unrealizedPnlPercent :=
          if 0 < holding.costBasisUsd then
            some ((valueUsd - holding.costBasisUsd) / holding.costBasisUsd * 100)
          else none
        change24hUsd :=
          price.usableChange.map fun change => valueUsd - valueUsd / (1 + change / 100) }

/-- What the loop has gathered after some coins. -/
def gatheredOf (holdings : List Holding) : Gathered where
  lines := holdings.map (lineOf prices)
  unpricedSymbols :=
    (holdings.filter fun holding => (prices.get? holding.symbol).isNone).map Holding.symbol
  missingChangeSymbols :=
    ((pricedCoins prices holdings).filter fun coin => coin.2.usableChange.isNone).map
      fun coin => coin.1.symbol
  totalValueUsd := ((pricedCoins prices holdings).map valueOf).sum
  totalCostBasisUsd := ((pricedCoins prices holdings).map fun coin => coin.1.costBasisUsd).sum
  change24hUsd :=
    ((changedCoins prices holdings).map fun coin => valueOf coin.1 - dayAgoOf coin).sum
  valueWithChangeUsd := ((changedCoins prices holdings).map fun coin => valueOf coin.1).sum
  changedCount := (changedCoins prices holdings).length

variable {prices} {holdings : List Holding} {holding : Holding}

theorem pricedCoins_concat :
    pricedCoins prices (holdings ++ [holding]) =
      pricedCoins prices holdings ++ ((prices.get? holding.symbol).map (holding, ·)).toList := by
  rw [pricedCoins, List.filterMap_append, ← pricedCoins]
  cases h : prices.get? holding.symbol <;> simp [h]

theorem changedCoins_concat :
    changedCoins prices (holdings ++ [holding]) =
      changedCoins prices holdings ++ (((prices.get? holding.symbol).map (holding, ·)).bind
        fun coin => coin.2.usableChange.map (coin, ·)).toList := by
  rw [changedCoins, pricedCoins_concat, List.filterMap_append, ← changedCoins]
  cases prices.get? holding.symbol with
  | none => rfl
  | some price => cases h : price.usableChange <;> simp [h]

/-- **One turn adds one coin.** -/
theorem gather_gatheredOf (holdings : List Holding) (holding : Holding) :
    gather prices (gatheredOf prices holdings) holding =
      some (gatheredOf prices (holdings ++ [holding])) := by
  rw [gather]
  cases hprice : prices.get? holding.symbol with
  | none => simp [gatheredOf, pricedCoins_concat, changedCoins_concat, lineOf, hprice]
  | some price =>
    simp only [gatherPriced, lineChange?_usableChange, percentOf?_eq, Option.bind_eq_bind,
      Option.bind_some]
    cases hchange : price.usableChange with
    | none =>
      simp [gatheredOf, pricedCoins_concat, changedCoins_concat, lineOf, hprice, hchange, valueOf]
    | some change =>
      simp [gatheredOf, pricedCoins_concat, changedCoins_concat, lineOf, hprice, hchange, valueOf,
        dayAgoOf]

theorem foldlM_gather (holdings : List Holding) :
    holdings.foldlM (gather prices) {} = some (gatheredOf prices holdings) := by
  induction holdings using List.reverseRecOn with
  | nil => rfl
  | append_singleton holdings holding ih =>
    rw [List.foldlM_append, ih, Option.bind_eq_bind, Option.bind_some, List.foldlM_cons,
      gather_gatheredOf]
    rfl

/-! ### The snapshot -/

/-- The coin of a line, and how much of it is held. -/
def HoldingLine.coin : HoldingLine → String × String
  | priced line => (line.symbol, line.quantity)
  | unpriced symbol quantity => (symbol, quantity)

theorem coin_lineOf (holding : Holding) :
    (lineOf prices holding).coin = (holding.symbol, holding.quantity) := by
  rw [lineOf]
  cases prices.get? holding.symbol <;> rfl

theorem mem_pricedCoins {coin : Holding × HoldingPrice} :
    coin ∈ pricedCoins prices holdings ↔
      coin.1 ∈ holdings ∧ prices.get? coin.1.symbol = some coin.2 := by
  rw [pricedCoins, List.mem_filterMap]
  constructor
  · rintro ⟨holding, hmem, hcoin⟩
    obtain ⟨price, hprice, rfl⟩ := Option.map_eq_some_iff.mp hcoin
    exact ⟨hmem, hprice⟩
  · rintro ⟨hmem, hprice⟩
    exact ⟨coin.1, hmem, Option.map_eq_some_iff.mpr ⟨coin.2, hprice, rfl⟩⟩

theorem mem_changedCoins {coin : (Holding × HoldingPrice) × ℚ} :
    coin ∈ changedCoins prices holdings ↔
      coin.1 ∈ pricedCoins prices holdings ∧ coin.1.2.usableChange = some coin.2 := by
  rw [changedCoins, List.mem_filterMap]
  constructor
  · rintro ⟨coin', hmem, hcoin⟩
    obtain ⟨change, hchange, rfl⟩ := Option.map_eq_some_iff.mp hcoin
    exact ⟨hmem, hchange⟩
  · rintro ⟨hmem, hchange⟩
    exact ⟨coin.1, hmem, Option.map_eq_some_iff.mpr ⟨coin.2, hchange, rfl⟩⟩

/-- The snapshot of what was gathered. -/
def snapshotOf (result : HoldingsResult) (gathered : Gathered) : PortfolioSnapshot where
  lines := gathered.lines
  totalValueUsd := gathered.totalValueUsd
  totalCostBasisUsd := gathered.totalCostBasisUsd
  unrealizedPnlUsd := gathered.totalValueUsd - gathered.totalCostBasisUsd
  unrealizedPnlPercent :=
    if 0 < gathered.totalCostBasisUsd then
      some ((gathered.totalValueUsd - gathered.totalCostBasisUsd) /
        gathered.totalCostBasisUsd * 100)
    else none
  realizedPnlUsd := result.realizedPnlUsd
  change24hUsd := if 0 < gathered.changedCount then some gathered.change24hUsd else none
  change24hPercent :=
    if 0 < gathered.changedCount ∧ 0 < gathered.valueWithChangeUsd - gathered.change24hUsd then
      some (gathered.change24hUsd / (gathered.valueWithChangeUsd - gathered.change24hUsd) * 100)
    else none
  unpricedSymbols := gathered.unpricedSymbols
  missingChangeSymbols := gathered.missingChangeSymbols

/-- **Nothing is divided by zero.** -/
theorem computePortfolio_eq (result : HoldingsResult)
    (prices : InsertionMap String HoldingPrice) :
    computePortfolio result prices =
      some (snapshotOf result (gatheredOf prices result.holdings)) := by
  rw [computePortfolio, foldlM_gather]
  simp only [percentOf?_eq, Option.bind_eq_bind, Option.bind_some, snapshotOf]
  by_cases hcount : 0 < (gatheredOf prices result.holdings).changedCount
  · simp [hcount]
  · simp [hcount]

/-! ### The values a day ago -/

theorem valueOf_nonneg (hprices : ∀ symbol price, prices.get? symbol = some price →
    0 ≤ price.priceUsd) {coin : Holding × HoldingPrice} (h : coin ∈ pricedCoins prices holdings) :
    0 ≤ valueOf coin := by
  have hprice := hprices _ _ (mem_pricedCoins.mp h).2
  exact mul_nonneg (div_nonneg (Nat.cast_nonneg _) quantityScale_pos.le) hprice

theorem lt_of_mem_changedCoins {coin : (Holding × HoldingPrice) × ℚ}
    (h : coin ∈ changedCoins prices holdings) : -100 < coin.2 :=
  (usableChange_eq_some_iff.mp (mem_changedCoins.mp h).2).2

theorem dayAgoOf_nonneg (hprices : ∀ symbol price, prices.get? symbol = some price →
    0 ≤ price.priceUsd) {coin : (Holding × HoldingPrice) × ℚ}
    (h : coin ∈ changedCoins prices holdings) : 0 ≤ dayAgoOf coin :=
  div_nonneg (valueOf_nonneg hprices (mem_changedCoins.mp h).1)
    (one_add_pos (lt_of_mem_changedCoins h)).le

/-- Of a change of `c` percent, `c / 100` of the value a day ago has come since. -/
theorem valueOf_sub_dayAgoOf {coin : (Holding × HoldingPrice) × ℚ}
    (h : coin ∈ changedCoins prices holdings) :
    valueOf coin.1 - dayAgoOf coin = dayAgoOf coin * coin.2 / 100 := by
  have hpos := one_add_pos (lt_of_mem_changedCoins h)
  have hvalue : dayAgoOf coin * (1 + coin.2 / 100) = valueOf coin.1 := div_mul_cancel₀ _ hpos.ne'
  linarith

theorem sum_dayAgoOf (coins : List ((Holding × HoldingPrice) × ℚ)) :
    (coins.map fun coin => valueOf coin.1).sum -
      (coins.map fun coin => valueOf coin.1 - dayAgoOf coin).sum = (coins.map dayAgoOf).sum := by
  induction coins with
  | nil => simp
  | cons coin coins ih =>
    simp only [List.map_cons, List.sum_cons, ← ih]
    ring

theorem sum_change_mul (holdings : List Holding) :
    ((changedCoins prices holdings).map fun coin => valueOf coin.1 - dayAgoOf coin).sum * 100 =
      ((changedCoins prices holdings).map fun coin => dayAgoOf coin * coin.2).sum := by
  rw [← List.sum_map_mul_right]
  refine congrArg List.sum (List.map_congr_left fun coin hcoin => ?_)
  rw [valueOf_sub_dayAgoOf hcoin, div_mul_cancel₀ _ (by norm_num)]

theorem changedCoins_eq_nil_iff :
    changedCoins prices holdings = [] ↔
      ∀ coin ∈ pricedCoins prices holdings, coin.2.usableChange = none := by
  rw [changedCoins, List.filterMap_eq_nil_iff]
  simp

/-- **What a portfolio is worth.** For every holdings and every prices that are not negative,
nothing is divided by zero, and each held coin has one line, in order. A coin is told to have no
price if it has none, and the totals are over those that have one. There is a 24h change unless
no coin with a price has a usable one, and no value a day ago is negative. In percent it is the
mean of the changes, weighted by the values a day ago, and between the least and the greatest of
them. -/
theorem computePortfolio_spec (result : HoldingsResult) (prices : InsertionMap String HoldingPrice)
    (hprices : ∀ symbol price, prices.get? symbol = some price → 0 ≤ price.priceUsd) :
    ∃ snapshot, computePortfolio result prices = some snapshot ∧
      snapshot.lines.map HoldingLine.coin =
        (result.holdings.map fun holding => (holding.symbol, holding.quantity)) ∧
      (∀ symbol, symbol ∈ snapshot.unpricedSymbols ↔
        (∃ holding ∈ result.holdings, holding.symbol = symbol) ∧ prices.get? symbol = none) ∧
      (snapshot.totalValueUsd = ((pricedCoins prices result.holdings).map valueOf).sum ∧
        snapshot.totalCostBasisUsd =
          ((pricedCoins prices result.holdings).map fun coin => coin.1.costBasisUsd).sum ∧
        snapshot.unrealizedPnlUsd = snapshot.totalValueUsd - snapshot.totalCostBasisUsd) ∧
      (snapshot.change24hUsd = none ↔
        ∀ coin ∈ pricedCoins prices result.holdings, coin.2.usableChange = none) ∧
      (∀ change, snapshot.change24hUsd = some change →
        change = ((changedCoins prices result.holdings).map fun coin =>
          valueOf coin.1 - dayAgoOf coin).sum ∧
        0 ≤ ((changedCoins prices result.holdings).map fun coin => valueOf coin.1).sum - change) ∧
      (∀ coin ∈ changedCoins prices result.holdings, 0 < 1 + coin.2 / 100 ∧ 0 ≤ dayAgoOf coin) ∧
      ∀ percent, snapshot.change24hPercent = some percent →
        percent = weightedMean (changedCoins prices result.holdings) dayAgoOf Prod.snd ∧
        ∃ least ∈ changedCoins prices result.holdings,
          ∃ greatest ∈ changedCoins prices result.holdings,
            (∀ coin ∈ changedCoins prices result.holdings,
              least.2 ≤ coin.2 ∧ coin.2 ≤ greatest.2) ∧
            least.2 ≤ percent ∧ percent ≤ greatest.2 := by
  refine ⟨_, computePortfolio_eq result prices, ?_, fun symbol => ?_, ⟨rfl, rfl, rfl⟩, ?_, ?_,
    fun coin hcoin => ⟨one_add_pos (lt_of_mem_changedCoins hcoin), dayAgoOf_nonneg hprices hcoin⟩,
    ?_⟩
  · rw [snapshotOf, gatheredOf, List.map_map]
    exact List.map_congr_left fun holding _ => coin_lineOf holding
  · rw [snapshotOf, gatheredOf, List.mem_map]
    simp only [List.mem_filter, Option.isNone_iff_eq_none]
    constructor
    · rintro ⟨holding, ⟨hmem, hnone⟩, rfl⟩
      exact ⟨⟨holding, hmem, rfl⟩, hnone⟩
    · rintro ⟨⟨holding, hmem, rfl⟩, hnone⟩
      exact ⟨holding, ⟨hmem, hnone⟩, rfl⟩
  · rw [← changedCoins_eq_nil_iff, ← List.length_eq_zero_iff]
    refine ite_eq_right_iff.trans ?_
    simp only [gatheredOf, reduceCtorEq, imp_false, not_lt, Nat.le_zero]
  · intro change hchange
    obtain ⟨-, hsum⟩ := Option.ite_none_right_eq_some.mp hchange
    obtain rfl := Option.some.inj hsum
    refine ⟨rfl, ?_⟩
    simp only [gatheredOf]
    rw [sum_dayAgoOf]
    exact List.sum_nonneg (List.forall_mem_map.mpr fun coin => dayAgoOf_nonneg hprices)
  · intro percent hpercent
    simp only [snapshotOf, gatheredOf, sum_dayAgoOf] at hpercent
    obtain ⟨hpos, hshare⟩ := Option.ite_none_right_eq_some.mp hpercent
    have hmean : percent =
        weightedMean (changedCoins prices result.holdings) dayAgoOf Prod.snd := by
      rw [weightedMean, ← sum_change_mul, ← Option.some.inj hshare, div_mul_eq_mul_div]
    refine ⟨hmean, hmean ▸ exists_weightedMean_between (fun coin => dayAgoOf_nonneg hprices) hpos.2⟩

end Coins

/-- A coin that gained 20 percent, one whose change is not usable, and one without a price. -/
def threeCoins : HoldingsResult where
  holdings := [⟨"btc", "1", 10 ^ 8, 10, 10⟩, ⟨"eth", "2", 2 * 10 ^ 8, 5, 10⟩,
    ⟨"doge", "3", 3 * 10 ^ 8, 1, 3⟩]
  realizedPnlUsd := 0
  realizedBySymbol := InsertionMap.empty

def twoPrices : InsertionMap String HoldingPrice :=
  InsertionMap.ofList [("btc", ⟨12, some (.finite 20)⟩), ("eth", ⟨4, some (.finite (-150))⟩)]

theorem computePortfolio_spec_threeCoins :
    ∃ snapshot, computePortfolio threeCoins twoPrices = some snapshot ∧
      snapshot.lines.map HoldingLine.coin = [("btc", "1"), ("eth", "2"), ("doge", "3")] ∧
      "doge" ∈ snapshot.unpricedSymbols ∧ snapshot.change24hUsd ≠ none := by
  have hprices : ∀ symbol price, twoPrices.get? symbol = some price → 0 ≤ price.priceUsd := by
    intro symbol price h
    have hmem := InsertionMap.mem_of_get?_ofList h
    simp only [List.mem_cons, List.not_mem_nil, or_false, Prod.mk.injEq] at hmem
    rcases hmem with ⟨-, rfl⟩ | ⟨-, rfl⟩ <;> decide +kernel
  obtain ⟨snapshot, hsnapshot, hlines, hunpriced, -, hchange, -⟩ :=
    computePortfolio_spec threeCoins twoPrices hprices
  refine ⟨snapshot, hsnapshot, hlines, (hunpriced "doge").mpr (by decide +kernel), fun hnone => ?_⟩
  have hbitcoin : (⟨"btc", "1", 10 ^ 8, 10, 10⟩, ⟨12, some (.finite 20)⟩) ∈
      pricedCoins twoPrices threeCoins.holdings := mem_pricedCoins.mpr ⟨List.mem_cons_self, rfl⟩
  exact absurd (hchange.mp hnone _ hbitcoin) (by decide +kernel)

end Portfolio

end CryptoZaloBot
