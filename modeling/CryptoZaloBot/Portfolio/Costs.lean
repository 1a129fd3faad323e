import CryptoZaloBot.Base.AverageCost
import CryptoZaloBot.Portfolio.Calculator

/-!
# What the coins cost

The replay of `CryptoZaloBot.Portfolio.computeHoldings` is, coin by coin, the weighted-average
cost method: what is held of a coin, what it cost and what was realized is a
`CryptoZaloBot.AverageCost.Position`, and each trade of the coin is a deal
(`CryptoZaloBot.Portfolio.position_of_foldlM`). So the books of the library are the books of
a chat (`CryptoZaloBot.Portfolio.computeHoldings_accounts`).

A sale divides by what is held. Stored quantities are positive, so something is.
-/

namespace CryptoZaloBot

namespace Portfolio

open AverageCost (Deal Position)

/-! ### Trades as deals -/

/-- The units a trade is about. -/
def unitsOf (trade : PortfolioTrade) : ℕ :=
  match toQuantityUnits trade.quantity with
  | .ok units => units
  | .error _ => 0

/-- The trade as a deal in its coin. -/
def PortfolioTrade.deal (trade : PortfolioTrade) : Deal ℚ :=
  match trade.side with
  | .buy => .buy (unitsToNumber (unitsOf trade)) trade.priceUsd
  | .sell => .sell (unitsToNumber (unitsOf trade)) trade.priceUsd

/-- The deals in one coin, in the order of the list. -/
def dealsOf (symbol : String) (trades : List PortfolioTrade) : List (Deal ℚ) :=
  (trades.filter (·.symbol = symbol)).map PortfolioTrade.deal

/-- What the replay holds of a coin, as a position. -/
def SymbolState.position (state : SymbolState) : Position ℚ :=
  ⟨unitsToNumber state.units, state.costUsd, state.realizedUsd⟩

def positionOf (bySymbol : InsertionMap String SymbolState) (symbol : String) : Position ℚ :=
  ((bySymbol.get? symbol).getD {}).position

/-- The quantities the table admits: `quantity > 0`. -/
def Positive (trades : List PortfolioTrade) : Prop :=
  ∀ t ∈ trades, toQuantityUnits t.quantity ≠ .ok 0

theorem quantityScale_pos : (0 : ℚ) < quantityScale := by
  norm_num [quantityScale, maxQuantityDecimals]

theorem unitsToNumber_add (m n : ℕ) :
    unitsToNumber (m + n) = unitsToNumber m + unitsToNumber n := by
  rw [unitsToNumber, Nat.cast_add, add_div]
  rfl

theorem unitsToNumber_sub {m n : ℕ} (h : n ≤ m) :
    unitsToNumber (m - n) = unitsToNumber m - unitsToNumber n := by
  rw [unitsToNumber, Nat.cast_sub h, sub_div]
  rfl

theorem unitsToNumber_eq_zero {n : ℕ} : unitsToNumber n = 0 ↔ n = 0 := by
  rw [unitsToNumber, div_eq_zero_iff, or_iff_left quantityScale_pos.ne', Nat.cast_eq_zero]

theorem unitsToNumber_le {m n : ℕ} : unitsToNumber m ≤ unitsToNumber n ↔ m ≤ n := by
  rw [unitsToNumber, unitsToNumber, div_le_div_iff_of_pos_right quantityScale_pos, Nat.cast_le]

theorem unitsToNumber_pos {n : ℕ} : 0 < unitsToNumber n ↔ 0 < n := by
  rw [unitsToNumber, div_pos_iff_of_pos_right quantityScale_pos, Nat.cast_pos]

theorem dealsOf_cons (symbol : String) (t : PortfolioTrade) (ts : List PortfolioTrade) :
    dealsOf symbol (t :: ts) =
      if t.symbol = symbol then t.deal :: dealsOf symbol ts else dealsOf symbol ts := by
  by_cases h : t.symbol = symbol <;> simp [dealsOf, h]

theorem positionOf_set (m : InsertionMap String SymbolState) (symbol symbol' : String)
    (state : SymbolState) :
    positionOf (m.set symbol state) symbol' =
      if symbol' = symbol then state.position else positionOf m symbol' := by
  by_cases h : symbol' = symbol <;> simp [positionOf, InsertionMap.get?_set, h]

/-! ### The replay as the method -/

/-- **One turn of the loop is one deal** in the trade's coin. -/
theorem position_of_replayTrade {m m' : InsertionMap String SymbolState} {t : PortfolioTrade}
    (hpositive : toQuantityUnits t.quantity ≠ .ok 0) (h : replayTrade m t = .ok m') :
    (positionOf m t.symbol).Allows t.deal ∧ ∀ symbol, positionOf m' symbol =
      if t.symbol = symbol then (positionOf m symbol).deal t.deal else positionOf m symbol := by
  obtain ⟨units, hq, hnonneg⟩ := nonneg_of_replayTrade h
  have hunits : unitsOf t = units := by rw [unitsOf, hq]
  have hne : units ≠ 0 := by
    rintro rfl
    exact hpositive hq
  cases hside : t.side with
  | buy =>
    have hdeal : t.deal = .buy (unitsToNumber units) t.priceUsd := by
      rw [PortfolioTrade.deal, hside, hunits]
    simp only [replayTrade, hq, hside] at h
    obtain rfl := Except.ok.inj h
    rw [hdeal]
    refine ⟨(unitsToNumber_pos.mpr (Nat.pos_of_ne_zero hne)).le, fun symbol => ?_⟩
    rw [positionOf_set]
    by_cases hs : t.symbol = symbol
    · subst hs
      rw [if_pos rfl, if_pos rfl]
      simp [positionOf, SymbolState.position, Position.deal, unitsToNumber_add]
    · rw [if_neg hs, if_neg (Ne.symm hs)]
  | sell =>
    have hdeal : t.deal = .sell (unitsToNumber units) t.priceUsd := by
      rw [PortfolioTrade.deal, hside, hunits]
    -- The units sold are there, or the running sum would be negative.
    have hle : units ≤ ((m.get? t.symbol).getD {}).units := by
      simp only [signedUnits, hq, hside, heldUnits] at hnonneg
      omega
    simp only [replayTrade, hq, hside, if_neg (not_lt.mpr hle)] at h
    obtain rfl := Except.ok.inj h
    rw [hdeal]
    refine ⟨⟨unitsToNumber_pos.mpr (Nat.pos_of_ne_zero hne), unitsToNumber_le.mpr hle⟩,
      fun symbol => ?_⟩
    rw [positionOf_set]
    by_cases hs : t.symbol = symbol
    · subst hs
      rw [if_pos rfl, if_pos rfl]
      simp [positionOf, SymbolState.position, Position.deal, Position.average,
        ← unitsToNumber_sub hle, unitsToNumber_eq_zero]
    · rw [if_neg hs, if_neg (Ne.symm hs)]

/-- **The whole loop is, coin by coin, the method.** -/
theorem position_of_foldlM {trades : List PortfolioTrade}
    {m m' : InsertionMap String SymbolState} (hpositive : Positive trades)
    (h : trades.foldlM replayTrade m = .ok m') (symbol : String) :
    (positionOf m symbol).AllowsAll (dealsOf symbol trades) ∧
      positionOf m' symbol = (positionOf m symbol).deals (dealsOf symbol trades) := by
  induction trades generalizing m with
  | nil =>
    obtain rfl := Except.ok.inj h
    exact ⟨trivial, rfl⟩
  | cons t ts ih =>
    obtain ⟨m₁, hm₁, h⟩ := Keyed.foldlM_cons_eq_ok.mp h
    obtain ⟨hallows, hposition⟩ :=
      position_of_replayTrade (hpositive t List.mem_cons_self) hm₁
    obtain ⟨hrest, hlast⟩ := ih (fun t' ht' => hpositive t' (List.mem_cons_of_mem t ht')) h
    rw [hposition symbol] at hrest hlast
    rw [dealsOf_cons]
    split_ifs at hrest hlast ⊢ with hs
    · subst hs
      exact ⟨⟨hallows, hrest⟩, hlast⟩
    · exact ⟨hrest, hlast⟩

/-- The coins the replay knows are those traded. -/
theorem isSome_get?_of_foldlM {trades : List PortfolioTrade}
    {m m' : InsertionMap String SymbolState} (h : trades.foldlM replayTrade m = .ok m')
    (symbol : String) :
    (m'.get? symbol).isSome = true ↔
      (m.get? symbol).isSome = true ∨ ∃ t ∈ trades, t.symbol = symbol := by
  induction trades generalizing m with
  | nil =>
    obtain rfl := Except.ok.inj h
    simp
  | cons t ts ih =>
    obtain ⟨m₁, hm₁, h⟩ := Keyed.foldlM_cons_eq_ok.mp h
    have hset : ∃ state, m₁ = m.set t.symbol state := by
      obtain ⟨units, hq, -⟩ := nonneg_of_replayTrade hm₁
      simp only [replayTrade, hq] at hm₁
      split at hm₁
      · exact ⟨_, (Except.ok.inj hm₁).symm⟩
      · split at hm₁
        · cases hm₁
        · exact ⟨_, (Except.ok.inj hm₁).symm⟩
    obtain ⟨state, rfl⟩ := hset
    rw [ih h, InsertionMap.get?_set, List.exists_mem_cons_iff, ← or_assoc]
    refine or_congr ?_ Iff.rfl
    by_cases hs : symbol = t.symbol
    · simp [hs]
    · simp [hs, Ne.symm hs]

/-! ### What the result says of a coin -/

namespace HoldingsResult

variable (result : HoldingsResult) (symbol : String)

/-- The line of a coin, if it is held. -/
def line? : Option Holding := result.holdings.find? fun h => h.symbol = symbol

def unitsOf : ℕ := ((result.line? symbol).map Holding.quantityUnits).getD 0

def costBasisOf : ℚ := ((result.line? symbol).map Holding.costBasisUsd).getD 0

def avgCostOf : Option ℚ := (result.line? symbol).map Holding.avgCostUsd

/-- Realized on a coin, held or not. -/
def realizedOf : ℚ := (result.realizedBySymbol.get? symbol).getD 0

end HoldingsResult

/-- A result, as what the replay ended with. -/
structure EndsWith (trades : List PortfolioTrade) (result : HoldingsResult)
    (m : InsertionMap String SymbolState) : Prop where
  replay : (sortBySeq trades).foldlM replayTrade InsertionMap.empty = .ok m
  line : ∀ symbol, result.line? symbol = (m.get? symbol).bind (holdingOf symbol)
  realized : ∀ symbol, result.realizedOf symbol = (positionOf m symbol).realized
  total : result.realizedPnlUsd = (m.entries.map fun e => result.realizedOf e.1).sum

theorem endsWith_of_replay {trades : List PortfolioTrade} {m : InsertionMap String SymbolState}
    (hm : (sortBySeq trades).foldlM replayTrade InsertionMap.empty = .ok m) :
    ∃ result, computeHoldings trades = .ok result ∧ EndsWith trades result m := by
  have hrealized : ∀ symbol, (InsertionMap.ofList
      (m.entries.map fun e => (e.1, e.2.realizedUsd))).get? symbol =
        (m.get? symbol).map SymbolState.realizedUsd := fun symbol => by
    rw [InsertionMap.get?_ofList_map, InsertionMap.get?_ofList_entries]
  refine ⟨_, by rw [computeHoldings, hm]; rfl, ?_⟩
  refine ⟨hm, fun symbol => find?_holdings m.nodup symbol, fun symbol => ?_, ?_⟩
  · simp only [HoldingsResult.realizedOf, hrealized, positionOf]
    cases m.get? symbol <;> rfl
  · simp only [HoldingsResult.realizedOf, hrealized]
    rw [← List.foldl_map (f := fun e : String × SymbolState => e.2.realizedUsd) (g := (· + ·)),
      ← List.sum_eq_foldl]
    refine congrArg List.sum (List.map_congr_left fun e he => ?_)
    have hentry : m.get? e.1 = some e.2 := InsertionMap.mem_entries.mp he
    rw [hentry]
    rfl

theorem exists_endsWith {trades : List PortfolioTrade} {result : HoldingsResult}
    (h : computeHoldings trades = .ok result) : ∃ m, EndsWith trades result m := by
  cases hm : (sortBySeq trades).foldlM replayTrade InsertionMap.empty with
  | error error =>
    rw [computeHoldings, hm] at h
    cases h
  | ok m =>
    obtain ⟨result', hresult, hends⟩ := endsWith_of_replay hm
    obtain rfl := Except.ok.inj (hresult.symm.trans h)
    exact ⟨m, hends⟩

section Ends

variable {trades : List PortfolioTrade} {result : HoldingsResult}
  {m : InsertionMap String SymbolState}

theorem EndsWith.unitsOf (h : EndsWith trades result m) (symbol : String) :
    result.unitsOf symbol = heldUnits m symbol := by
  rw [HoldingsResult.unitsOf, h.line, heldUnits]
  cases m.get? symbol with
  | none => rfl
  | some state =>
    rcases Nat.eq_zero_or_pos state.units with hzero | hpos
    · simp [holdingOf, hzero]
    · simp [holdingOf, hpos]

theorem EndsWith.avgCostOf (h : EndsWith trades result m) (symbol : String) :
    result.avgCostOf symbol =
      if 0 < heldUnits m symbol then some (positionOf m symbol).average else none := by
  rw [HoldingsResult.avgCostOf, h.line, heldUnits, positionOf]
  cases m.get? symbol with
  | none => rfl
  | some state =>
    rcases Nat.eq_zero_or_pos state.units with hzero | hpos
    · simp [holdingOf, hzero]
    · simp [holdingOf, hpos, Position.average, SymbolState.position]

/-- The deals in a coin, from the start. -/
theorem EndsWith.position (h : EndsWith trades result m) (hpositive : Positive trades)
    (symbol : String) :
    Position.empty.AllowsAll (dealsOf symbol (sortBySeq trades)) ∧
      positionOf m symbol = Position.empty.deals (dealsOf symbol (sortBySeq trades)) := by
  have hsorted : Positive (sortBySeq trades) := fun t ht =>
    hpositive t ((List.perm_insertionSort _ trades).mem_iff.mp ht)
  have hempty : positionOf InsertionMap.empty symbol = Position.empty := by
    simp [positionOf, SymbolState.position, Position.empty, unitsToNumber]
  rw [← hempty]
  exact position_of_foldlM hsorted h.replay symbol

theorem EndsWith.settled (h : EndsWith trades result m) (hpositive : Positive trades)
    (symbol : String) : (positionOf m symbol).Settled := by
  obtain ⟨hallows, hposition⟩ := h.position hpositive symbol
  rw [hposition]
  exact AverageCost.settled_empty.deals hallows

theorem EndsWith.costBasisOf (h : EndsWith trades result m) (hpositive : Positive trades)
    (symbol : String) : result.costBasisOf symbol = (positionOf m symbol).cost := by
  have hsettled := (h.settled hpositive symbol).cost_eq_zero
  rw [HoldingsResult.costBasisOf, h.line]
  rw [positionOf] at hsettled ⊢
  cases hget : m.get? symbol with
  | none => rfl
  | some state =>
    rw [hget] at hsettled
    rcases Nat.eq_zero_or_pos state.units with hzero | hpos
    · have hcost : state.costUsd = 0 := hsettled (unitsToNumber_eq_zero.mpr hzero)
      simp [holdingOf, hzero, SymbolState.position, hcost]
    · simp [holdingOf, hpos, SymbolState.position]

end Ends

/-! ### Sums over the trades -/

/-- The trades of one kind in one coin. -/
def tradesOn (side : TradeSide) (symbol : String) (trades : List PortfolioTrade) :
    List PortfolioTrade :=
  trades.filter fun t => t.side = side ∧ t.symbol = symbol

/-- The units bought, or sold, of a coin. -/
def tradedUnits (side : TradeSide) (symbol : String) (trades : List PortfolioTrade) : ℕ :=
  ((tradesOn side symbol trades).map unitsOf).sum

/-- What was paid, or got, for a coin. -/
def tradedUsd (side : TradeSide) (symbol : String) (trades : List PortfolioTrade) : ℚ :=
  ((tradesOn side symbol trades).map fun t => unitsToNumber (unitsOf t) * t.priceUsd).sum

theorem tradesOn_cons (side : TradeSide) (symbol : String) (t : PortfolioTrade)
    (ts : List PortfolioTrade) :
    tradesOn side symbol (t :: ts) =
      if t.side = side ∧ t.symbol = symbol then t :: tradesOn side symbol ts
      else tradesOn side symbol ts := by
  by_cases h : t.side = side ∧ t.symbol = symbol <;> simp [tradesOn, h]

theorem sum_signedOf (symbol : String) (trades : List PortfolioTrade) :
    (signedOf symbol trades).sum =
      tradedUnits .buy symbol trades - tradedUnits .sell symbol trades := by
  induction trades with
  | nil => rfl
  | cons t ts ih =>
    rw [signedOf_cons]
    by_cases hs : t.symbol = symbol
    · have hsigned : signedUnits t = if t.side = .buy then (unitsOf t : ℤ) else -unitsOf t := by
        rw [signedUnits, Portfolio.unitsOf]
        cases toQuantityUnits t.quantity <;> cases t.side <;> rfl
      rw [if_pos hs, List.sum_cons, ih, hsigned]
      cases hside : t.side <;> simp [tradedUnits, tradesOn_cons, hside, hs] <;> omega
    · simp [hs, ih, tradedUnits, tradesOn_cons]

theorem sum_cash (symbol : String) (trades : List PortfolioTrade) :
    ((dealsOf symbol trades).map Deal.cash).sum =
      tradedUsd .sell symbol trades - tradedUsd .buy symbol trades := by
  induction trades with
  | nil => simp [dealsOf, tradedUsd, tradesOn]
  | cons t ts ih =>
    rw [dealsOf_cons]
    by_cases hs : t.symbol = symbol
    · rw [if_pos hs, List.map_cons, List.sum_cons, ih]
      cases hside : t.side <;>
        simp [tradedUsd, tradesOn_cons, hside, hs, PortfolioTrade.deal, Deal.cash] <;> ring
    · simp [hs, ih, tradedUsd, tradesOn_cons]

theorem tradesOn_sortBySeq (side : TradeSide) (symbol : String) (trades : List PortfolioTrade) :
    (tradesOn side symbol (sortBySeq trades)).Perm (tradesOn side symbol trades) :=
  (List.perm_insertionSort _ trades).filter _

theorem tradedUnits_sortBySeq (side : TradeSide) (symbol : String)
    (trades : List PortfolioTrade) :
    tradedUnits side symbol (sortBySeq trades) = tradedUnits side symbol trades :=
  ((tradesOn_sortBySeq side symbol trades).map _).sum_eq

theorem tradedUsd_sortBySeq (side : TradeSide) (symbol : String) (trades : List PortfolioTrade) :
    tradedUsd side symbol (sortBySeq trades) = tradedUsd side symbol trades :=
  ((tradesOn_sortBySeq side symbol trades).map _).sum_eq

/-! ### Parts of a replay -/

theorem pairwise_sortBySeq (trades : List PortfolioTrade) :
    (sortBySeq trades).Pairwise fun a b => a.seq ≤ b.seq :=
  List.pairwise_insertionSort _ trades

theorem sortBySeq_of_pairwise {trades : List PortfolioTrade}
    (h : trades.Pairwise fun a b => a.seq ≤ b.seq) : sortBySeq trades = trades :=
  h.insertionSort_eq

/-- What a replay makes of the first trades, and of the rest. -/
theorem foldlM_replayTrade_append {pre post : List PortfolioTrade}
    {m m' : InsertionMap String SymbolState}
    (h : (pre ++ post).foldlM replayTrade m = .ok m') :
    ∃ m₁, pre.foldlM replayTrade m = .ok m₁ ∧ post.foldlM replayTrade m₁ = .ok m' := by
  rw [List.foldlM_append] at h
  cases hpre : pre.foldlM replayTrade m with
  | error error =>
    rw [hpre] at h
    cases h
  | ok m₁ =>
    rw [hpre] at h
    exact ⟨m₁, rfl, h⟩

/-- **A replay up to some trade is a replay.** -/
theorem EndsWith.take {trades pre post : List PortfolioTrade} {result : HoldingsResult}
    {m : InsertionMap String SymbolState} (h : EndsWith trades result m)
    (hsplit : sortBySeq trades = pre ++ post) :
    ∃ before m₁, computeHoldings pre = .ok before ∧ EndsWith pre before m₁ ∧
      pre.foldlM replayTrade InsertionMap.empty = .ok m₁ ∧
        post.foldlM replayTrade m₁ = .ok m := by
  have hreplay := h.replay
  rw [hsplit] at hreplay
  obtain ⟨m₁, hpre, hpost⟩ := foldlM_replayTrade_append hreplay
  have hsorted : sortBySeq pre = pre := sortBySeq_of_pairwise
    (List.Pairwise.sublist (List.sublist_append_left pre post) (hsplit ▸ pairwise_sortBySeq trades))
  obtain ⟨before, hbefore, hends⟩ := endsWith_of_replay (hsorted.symm ▸ hpre)
  exact ⟨before, m₁, hbefore, hends, hpre, hpost⟩

theorem Positive.of_split {trades pre post : List PortfolioTrade} (h : Positive trades)
    (hsplit : sortBySeq trades = pre ++ post) : Positive pre ∧ Positive post := by
  have hsorted : Positive (pre ++ post) := fun t ht => by
    rw [← hsplit] at ht
    exact h t ((List.perm_insertionSort _ trades).mem_iff.mp ht)
  exact ⟨fun t ht => hsorted t (List.mem_append_left _ ht),
    fun t ht => hsorted t (List.mem_append_right _ ht)⟩

/-! ### The books of a chat -/

section Books

variable {trades : List PortfolioTrade} {result : HoldingsResult}
  {m : InsertionMap String SymbolState}

theorem quantity_positionOf (m : InsertionMap String SymbolState) (symbol : String) :
    (positionOf m symbol).quantity = unitsToNumber (heldUnits m symbol) := rfl

theorem EndsWith.held (h : EndsWith trades result m) (symbol : String) :
    (result.unitsOf symbol : ℤ) =
      tradedUnits .buy symbol trades - tradedUnits .sell symbol trades := by
  obtain ⟨hread, hnonneg⟩ := neverNegative_of_foldlM h.replay
  obtain ⟨m', hm', hsum⟩ := foldlM_replayTrade hread hnonneg
  obtain rfl := Except.ok.inj (hm'.symm.trans h.replay)
  rw [h.unitsOf, hsum symbol, sum_signedOf, tradedUnits_sortBySeq, tradedUnits_sortBySeq]
  exact zero_add _

theorem EndsWith.books (h : EndsWith trades result m) (hpositive : Positive trades)
    (symbol : String) : result.realizedOf symbol - result.costBasisOf symbol =
      tradedUsd .sell symbol trades - tradedUsd .buy symbol trades := by
  obtain ⟨hallows, hposition⟩ := h.position hpositive symbol
  rw [h.realized, h.costBasisOf hpositive, hposition, AverageCost.realized_sub_cost hallows,
    sum_cash, tradedUsd_sortBySeq, tradedUsd_sortBySeq]
  simp [Position.empty]

/-- **A sale divides by what is held, and keeps the average** if something is left. -/
theorem EndsWith.sell (h : EndsWith trades result m) (hpositive : Positive trades)
    {pre post : List PortfolioTrade} {t : PortfolioTrade}
    (hsplit : sortBySeq trades = pre ++ t :: post) (hside : t.side = .sell) :
    ∃ before after, computeHoldings pre = .ok before ∧
      computeHoldings (pre ++ [t]) = .ok after ∧ 0 < before.unitsOf t.symbol ∧
        (0 < after.unitsOf t.symbol →
          after.avgCostOf t.symbol = before.avgCostOf t.symbol) := by
  have hsplit' : sortBySeq trades = (pre ++ [t]) ++ post := by simpa using hsplit
  obtain ⟨before, m₁, hbefore, hends, hpre, -⟩ := h.take hsplit
  obtain ⟨after, m₂, hafter, hends', hlast, -⟩ := h.take hsplit'
  -- The second replay is the first, and the sale.
  obtain ⟨m₁', hpre', hlast⟩ := foldlM_replayTrade_append hlast
  obtain rfl := Except.ok.inj (hpre'.symm.trans hpre)
  obtain ⟨m₂', hturn, hnil⟩ := Keyed.foldlM_cons_eq_ok.mp hlast
  obtain rfl := Except.ok.inj hnil
  have hquantity := (hpositive.of_split hsplit).2 t List.mem_cons_self
  obtain ⟨hallows, hposition⟩ := position_of_replayTrade hquantity hturn
  have hdeal : t.deal = .sell (unitsToNumber (Portfolio.unitsOf t)) t.priceUsd := by
    rw [PortfolioTrade.deal, hside]
  rw [hdeal] at hallows hposition
  have hheld : 0 < heldUnits m₁' t.symbol :=
    unitsToNumber_pos.mp (lt_of_lt_of_le hallows.1 hallows.2)
  refine ⟨before, after, hbefore, hafter, by rwa [hends.unitsOf], fun hleft => ?_⟩
  rw [hends'.unitsOf] at hleft
  have hsale := hposition t.symbol
  rw [if_pos rfl] at hsale
  have hne : (positionOf m₁' t.symbol).quantity - unitsToNumber (Portfolio.unitsOf t) ≠ 0 := by
    have hquantity' := congrArg Position.quantity hsale
    rw [quantity_positionOf] at hquantity'
    exact fun hzero => (unitsToNumber_pos.mpr hleft).ne' (hquantity'.trans hzero)
  rw [hends'.avgCostOf, hends.avgCostOf, if_pos hleft, if_pos hheld, hsale,
    Position.average_sell hne]

/-- **A coin that was sold out costs what it cost since.** -/
theorem EndsWith.sinceEmpty (h : EndsWith trades result m) (hpositive : Positive trades)
    {pre post : List PortfolioTrade} {symbol : String} {before : HoldingsResult}
    (hsplit : sortBySeq trades = pre ++ post) (hbefore : computeHoldings pre = .ok before)
    (hempty : before.unitsOf symbol = 0) :
    ∃ m₁, post.foldlM replayTrade m₁ = .ok m ∧ heldUnits m₁ symbol = 0 ∧
      (positionOf m symbol).SameHolding (Position.empty.deals (dealsOf symbol post)) := by
  obtain ⟨before', m₁, hbefore', hends, -, hpost⟩ := h.take hsplit
  obtain rfl := Except.ok.inj (hbefore'.symm.trans hbefore)
  obtain ⟨hpositivePre, hpositivePost⟩ := hpositive.of_split hsplit
  rw [hends.unitsOf] at hempty
  refine ⟨m₁, hpost, hempty, ?_⟩
  rw [(position_of_foldlM hpositivePost hpost symbol).2]
  exact Position.deals_of_empty (hends.settled hpositivePre symbol)
    (unitsToNumber_eq_zero.mpr hempty) _

/-- The same holding has the same average cost. -/
theorem EndsWith.avgCostOf_eq {later : HoldingsResult} {other : List PortfolioTrade}
    {m' : InsertionMap String SymbolState} (h : EndsWith trades result m)
    (h' : EndsWith other later m') {symbol : String}
    (hsame : (positionOf m symbol).SameHolding (positionOf m' symbol)) :
    result.avgCostOf symbol = later.avgCostOf symbol := by
  have hunits : 0 < heldUnits m symbol ↔ 0 < heldUnits m' symbol := by
    rw [← unitsToNumber_pos, ← unitsToNumber_pos]
    exact iff_of_eq (congrArg (0 < ·) hsame.1)
  rw [h.avgCostOf, h'.avgCostOf, hsame.average_eq]
  exact if_congr hunits rfl rfl

theorem dealsOf_filter (symbol : String) (trades : List PortfolioTrade) :
    dealsOf symbol (trades.filter (·.symbol = symbol)) = dealsOf symbol trades := by
  rw [dealsOf, dealsOf, List.filter_filter]
  simp

theorem signedOf_filter (symbol other : String) (trades : List PortfolioTrade) :
    signedOf other (trades.filter (·.symbol = symbol)) =
      if other = symbol then signedOf symbol trades else [] := by
  rw [signedOf, List.filter_filter]
  split_ifs with h
  · subst h
    simp [signedOf]
  · refine List.map_eq_nil_iff.mpr (List.filter_eq_nil_iff.mpr fun t _ => ?_)
    simp only [Bool.and_eq_true, decide_eq_true_eq, not_and]
    exact fun hother hs => h (hother.symm.trans hs)

/-- **The later trades of a coin can be replayed by themselves**, and give its average. -/
theorem EndsWith.later (h : EndsWith trades result m) (hpositive : Positive trades)
    {pre post : List PortfolioTrade} {symbol : String} {before : HoldingsResult}
    (hsplit : sortBySeq trades = pre ++ post) (hbefore : computeHoldings pre = .ok before)
    (hempty : before.unitsOf symbol = 0) :
    ∃ later, computeHoldings (post.filter (·.symbol = symbol)) = .ok later ∧
      result.avgCostOf symbol = later.avgCostOf symbol := by
  obtain ⟨m₁, hpost, hzero, hsame⟩ := h.sinceEmpty hpositive hsplit hbefore hempty
  obtain ⟨hread, hnonneg⟩ := neverNegative_of_foldlM hpost
  have hsorted : sortBySeq (post.filter (·.symbol = symbol)) = post.filter (·.symbol = symbol) :=
    sortBySeq_of_pairwise (List.Pairwise.sublist
      (List.filter_sublist.trans (List.sublist_append_right pre post))
      (hsplit ▸ pairwise_sortBySeq trades))
  obtain ⟨later, hlater⟩ : ∃ later,
      computeHoldings (post.filter (·.symbol = symbol)) = .ok later := by
    refine replayable_iff.mpr ⟨fun t ht => hread t (List.mem_of_mem_filter ht),
      fun other => ?_⟩
    rw [hsorted, signedOf_filter]
    split_ifs with hs
    · have hown := hnonneg symbol
      rwa [hzero] at hown
    · exact neverNegativeFrom_nil 0
  obtain ⟨m', hends⟩ := exists_endsWith hlater
  have hpositive' : Positive (post.filter (·.symbol = symbol)) := fun t ht =>
    (hpositive.of_split hsplit).2 t (List.mem_of_mem_filter ht)
  refine ⟨later, hlater, h.avgCostOf_eq hends ?_⟩
  rw [(hends.position hpositive' symbol).2, hsorted, dealsOf_filter]
  exact hsame

/-- **A coin only bought since it was sold out** has the average of those purchases. -/
theorem EndsWith.boughtSince (h : EndsWith trades result m) (hpositive : Positive trades)
    {pre post : List PortfolioTrade} {symbol : String} {before : HoldingsResult}
    (hsplit : sortBySeq trades = pre ++ post) (hbefore : computeHoldings pre = .ok before)
    (hempty : before.unitsOf symbol = 0)
    (hbuys : ∀ t ∈ post, t.symbol = symbol → t.side = .buy) (hheld : 0 < result.unitsOf symbol) :
    result.avgCostOf symbol = some (tradedUsd .buy symbol post /
      unitsToNumber (tradedUnits .buy symbol post)) := by
  obtain ⟨m₁, hpost, hzero, hsame⟩ := h.sinceEmpty hpositive hsplit hbefore hempty
  have hnone : tradesOn .sell symbol post = [] := by
    refine List.filter_eq_nil_iff.mpr fun t ht => ?_
    simp only [decide_eq_true_eq, not_and]
    intro hsell hs
    rw [hbuys t ht hs] at hsell
    cases hsell
  have hcost : (positionOf m symbol).cost = tradedUsd .buy symbol post := by
    rw [hsame.2, Position.cost_deals_of_buys, sum_cash, tradedUsd, hnone]
    · simp [Position.empty]
    · intro d hd
      obtain ⟨t, ht, rfl⟩ := List.mem_map.mp hd
      obtain ⟨hmem, hs⟩ := List.mem_filter.mp ht
      rw [PortfolioTrade.deal, hbuys t hmem (of_decide_eq_true hs)]
      exact ⟨_, _, rfl⟩
  have hunits : heldUnits m symbol = tradedUnits .buy symbol post := by
    obtain ⟨hread, hnonneg⟩ := neverNegative_of_foldlM hpost
    obtain ⟨m', hm', hsum⟩ := foldlM_replayTrade hread hnonneg
    obtain rfl := Except.ok.inj (hm'.symm.trans hpost)
    have hnet := hsum symbol
    have hsold : tradedUnits .sell symbol post = 0 := by
      rw [tradedUnits, hnone]
      rfl
    rw [hzero, sum_signedOf, hsold] at hnet
    omega
  rw [h.unitsOf] at hheld
  rw [h.avgCostOf, if_pos hheld, Position.average, hcost, quantity_positionOf, hunits]

theorem EndsWith.realizedPnl (h : EndsWith trades result m) {symbols : List String}
    (hnodup : symbols.Nodup) (hsymbols : ∀ s, s ∈ symbols ↔ ∃ t ∈ trades, t.symbol = s) :
    result.realizedPnlUsd = (symbols.map result.realizedOf).sum := by
  have hperm : (m.entries.map Prod.fst).Perm symbols := by
    refine (List.perm_ext_iff_of_nodup m.nodup hnodup).mpr fun s => ?_
    have hknown := isSome_get?_of_foldlM h.replay s
    rw [InsertionMap.get?_empty] at hknown
    have hkeys : s ∈ m.entries.map Prod.fst ↔ (m.get? s).isSome = true := by
      rw [Option.isSome_iff_exists, List.mem_map]
      constructor
      · rintro ⟨e, he, rfl⟩
        exact ⟨e.2, InsertionMap.mem_entries.mp he⟩
      · rintro ⟨state, hstate⟩
        exact ⟨(s, state), InsertionMap.mem_entries.mpr hstate, rfl⟩
    rw [hkeys, hknown, hsymbols]
    simp [sortBySeq]
  rw [h.total, ← (hperm.map result.realizedOf).sum_eq, List.map_map]
  rfl

end Books

/-- **The books of a chat.** For every list of trades that can be replayed: what is held of
a coin is what was bought less what was sold; what was realized less what is tied up is the
cash that came in less the cash that went out; a sale finds something to divide by, and keeps
the average cost of what it leaves; a coin that was sold out costs what it cost since; and
the profit told is that of all coins traded, held or not. -/
theorem computeHoldings_accounts (trades : List PortfolioTrade) (result : HoldingsResult)
    (hpositive : Positive trades) (h : computeHoldings trades = .ok result) :
    (∀ symbol,
      (result.unitsOf symbol : ℤ) =
          tradedUnits .buy symbol trades - tradedUnits .sell symbol trades ∧
        result.realizedOf symbol - result.costBasisOf symbol =
          tradedUsd .sell symbol trades - tradedUsd .buy symbol trades ∧
        (result.unitsOf symbol = 0 → result.costBasisOf symbol = 0)) ∧
    (∀ pre t post, sortBySeq trades = pre ++ t :: post → t.side = .sell →
      ∃ before after, computeHoldings pre = .ok before ∧
        computeHoldings (pre ++ [t]) = .ok after ∧ 0 < before.unitsOf t.symbol ∧
          (0 < after.unitsOf t.symbol →
            after.avgCostOf t.symbol = before.avgCostOf t.symbol)) ∧
    (∀ pre post symbol before, sortBySeq trades = pre ++ post →
      computeHoldings pre = .ok before → before.unitsOf symbol = 0 →
        (∃ later, computeHoldings (post.filter (·.symbol = symbol)) = .ok later ∧
          result.avgCostOf symbol = later.avgCostOf symbol) ∧
        ((∀ t ∈ post, t.symbol = symbol → t.side = .buy) → 0 < result.unitsOf symbol →
          result.avgCostOf symbol = some (tradedUsd .buy symbol post /
            unitsToNumber (tradedUnits .buy symbol post)))) ∧
    ∀ symbols : List String, symbols.Nodup →
      (∀ s, s ∈ symbols ↔ ∃ t ∈ trades, t.symbol = s) →
        result.realizedPnlUsd = (symbols.map result.realizedOf).sum := by
  obtain ⟨m, hends⟩ := exists_endsWith h
  refine ⟨fun symbol => ⟨hends.held symbol, hends.books hpositive symbol, fun hzero => ?_⟩,
    fun pre t post hsplit hside => hends.sell hpositive hsplit hside,
    fun pre post symbol before hsplit hbefore hempty =>
      ⟨hends.later hpositive hsplit hbefore hempty,
        hends.boughtSince hpositive hsplit hbefore hempty⟩,
    fun symbols hnodup hsymbols => hends.realizedPnl hnodup hsymbols⟩
  rw [hends.unitsOf] at hzero
  rw [hends.costBasisOf hpositive]
  exact (hends.settled hpositive symbol).cost_eq_zero (unitsToNumber_eq_zero.mpr hzero)

/-- A coin bought, sold with a gain and bought again. -/
def rebought : List PortfolioTrade :=
  [⟨1, .buy, "btc", "1", 10, 0⟩, ⟨2, .sell, "btc", "1", 12, 0⟩, ⟨3, .buy, "btc", "0.5", 20, 0⟩]

theorem computeHoldings_accounts_rebought :
    ∃ result, computeHoldings rebought = .ok result ∧
      result.realizedOf "btc" - result.costBasisOf "btc" = -8 := by
  have hpositive : Positive rebought := by
    simp only [Positive, rebought, List.forall_mem_cons]
    decide +kernel
  obtain ⟨result, h⟩ : Replayable rebought := replayable_of_isOk (by decide +kernel)
  refine ⟨result, h, ?_⟩
  rw [((computeHoldings_accounts rebought result hpositive h).1 "btc").2.1]
  decide +kernel

end Portfolio

end CryptoZaloBot
