import Mathlib.Data.List.Sort
import Mathlib.Algebra.Order.Ring.Int
import Mathlib.Data.Rat.Defs
import CryptoZaloBot.Base.Decimal
import CryptoZaloBot.Base.Keyed
import CryptoZaloBot.Base.RunningSum
import CryptoZaloBot.Portfolio.Defs

/-!
# Replaying trades

`portfolio-calculator.ts`: a chat's holdings are recomputed from its trades every
time, in the order of their numbers. The replay throws when a sell takes more than
is held at that point, and nothing else in it can fail once the quantities are
decimals.

What the rest of the portfolio needs of it is
`CryptoZaloBot.Portfolio.computeHoldings_of_neverNegative`: if, coin by coin, the
running sums of the signed quantities are never negative, then the replay succeeds
and `CryptoZaloBot.Portfolio.heldQuantityOf` is the last of those sums, written as a
decimal.
-/

namespace CryptoZaloBot

namespace Portfolio

/-! ### Quantities -/

/-- Stored trades can't be replayed. -/
structure InconsistentTradesError where
  message : String
  deriving DecidableEq

/-- `/^\d+(\.\d+)?$/`. -/
def decimalPattern (cs : List Char) : Bool :=
  !(cs.takeWhile Char.isDigit).isEmpty &&
    match cs.dropWhile Char.isDigit with
    | [] => true
    | c :: fraction => c == '.' && !fraction.isEmpty && fraction.all Char.isDigit

/-- `"0.5"` is `50000000` units of `10⁻⁸`. -/
def toQuantityUnits (quantity : String) : Except InconsistentTradesError ℕ :=
  let cs := quantity.toList
  if decimalPattern cs then
    let whole := cs.takeWhile (· ≠ '.')
    let fraction := (cs.dropWhile (· ≠ '.')).drop 1
    let significant := fraction.rdropWhile (· = '0')
    if significant.length > maxQuantityDecimals then
      .error ⟨s!"Quantity has more than {maxQuantityDecimals} decimals"⟩
    else
      .ok (Decimal.value whole * quantityScale +
        Decimal.value (significant.rightpad maxQuantityDecimals '0'))
  else .error ⟨"Not a decimal quantity"⟩

/-- `60000000` units are `"0.6"`. -/
def formatQuantityUnits (units : ℕ) : String :=
  let whole := Decimal.ofNat (units / quantityScale)
  let fraction :=
    ((Decimal.ofNat (units % quantityScale)).leftpad maxQuantityDecimals '0').rdropWhile (· = '0')
  String.ofList (if fraction.isEmpty then whole else whole ++ '.' :: fraction)

theorem formatQuantityUnits_zero : formatQuantityUnits 0 = "0" := by decide

def unitsToNumber (units : ℕ) : ℚ := units / quantityScale

/-! ### The replay -/

structure SymbolState where
  units : ℕ := 0
  costUsd : ℚ := 0
  realizedUsd : ℚ := 0

/-- One turn of the replay loop. A coin sold down to exactly zero starts over with
no cost; otherwise a sell keeps the average cost. -/
def replayTrade (bySymbol : InsertionMap String SymbolState) (trade : PortfolioTrade) :
    Except InconsistentTradesError (InsertionMap String SymbolState) :=
  let state := (bySymbol.get? trade.symbol).getD {}
  match toQuantityUnits trade.quantity with
  | .error error => .error error
  | .ok units =>
    let quantity := unitsToNumber units
    match trade.side with
    | .buy =>
      .ok (bySymbol.set trade.symbol
        { state with
          units := state.units + units
          costUsd := state.costUsd + quantity * trade.priceUsd })
    | .sell =>
      if state.units < units then
        .error ⟨"Trade #" ++ toString trade.seq ++ " sells more " ++ trade.symbol ++
          " than was held"⟩
      else
        let avgCostUsd := state.costUsd / unitsToNumber state.units
        let left := state.units - units
        .ok (bySymbol.set trade.symbol
          { units := left
            costUsd := if left = 0 then 0 else avgCostUsd * unitsToNumber left
            realizedUsd := state.realizedUsd + quantity * (trade.priceUsd - avgCostUsd) })

/-- The line of a coin that is still held. -/
def holdingOf (symbol : String) (state : SymbolState) : Option Holding :=
  if 0 < state.units then
    some
      { symbol
        quantity := formatQuantityUnits state.units
        quantityUnits := state.units
        avgCostUsd := state.costUsd / unitsToNumber state.units
        costBasisUsd := state.costUsd }
  else none

/-- `[...trades].sort((a, b) => a.seq - b.seq)`: a stable sort. -/
def sortBySeq (trades : List PortfolioTrade) : List PortfolioTrade :=
  trades.insertionSort fun a b => a.seq ≤ b.seq

/-- **Replays trades in `seq` order** with the weighted-average cost method. -/
def computeHoldings (trades : List PortfolioTrade) :
    Except InconsistentTradesError HoldingsResult := do
  let bySymbol ← (sortBySeq trades).foldlM replayTrade InsertionMap.empty
  return {
    holdings := bySymbol.entries.filterMap fun e => holdingOf e.1 e.2
    realizedPnlUsd := bySymbol.entries.foldl (fun sum e => sum + e.2.realizedUsd) 0
    realizedBySymbol := InsertionMap.ofList (bySymbol.entries.map fun e => (e.1, e.2.realizedUsd)) }

/-- Held quantity of one symbol (`"0"` when not held). -/
def heldQuantityOf (result : HoldingsResult) (symbol : String) : String :=
  ((result.holdings.find? fun h => h.symbol = symbol).map Holding.quantity).getD "0"

/-! ### What the replay keeps

The replay walks the trades of all coins at once. Coin by coin it only adds and
subtracts: the units it holds of a symbol are the sum of the signed quantities of
that symbol's trades so far, and it throws exactly when one of those sums would go
below zero. -/

/-- A trade's quantity with its sign: positive for a buy, negative for a sell. -/
def signedUnits (trade : PortfolioTrade) : ℤ :=
  match toQuantityUnits trade.quantity, trade.side with
  | .ok units, .buy => units
  | .ok units, .sell => -units
  | .error _, _ => 0

/-- The signed quantities of one coin's trades, in the order of the list. -/
def signedOf (symbol : String) (trades : List PortfolioTrade) : List ℤ :=
  (trades.filter (·.symbol = symbol)).map signedUnits

/-- Every quantity of the list is a decimal of at most eight places. -/
def Readable (trades : List PortfolioTrade) : Prop :=
  ∀ t ∈ trades, ∃ units, toQuantityUnits t.quantity = .ok units

/-- The units of a coin the replay holds at some point. -/
def heldUnits (bySymbol : InsertionMap String SymbolState) (symbol : String) : ℕ :=
  ((bySymbol.get? symbol).getD {}).units

@[simp] theorem signedOf_nil (symbol : String) : signedOf symbol [] = [] := rfl

theorem signedOf_cons (symbol : String) (t : PortfolioTrade) (ts : List PortfolioTrade) :
    signedOf symbol (t :: ts) =
      if t.symbol = symbol then signedUnits t :: signedOf symbol ts else signedOf symbol ts := by
  by_cases h : t.symbol = symbol <;> simp [signedOf, h]

theorem heldUnits_set (m : InsertionMap String SymbolState) (symbol symbol' : String)
    (state : SymbolState) :
    heldUnits (m.set symbol state) symbol' =
      if symbol' = symbol then state.units else heldUnits m symbol' := by
  by_cases h : symbol' = symbol <;> simp [heldUnits, InsertionMap.get?_set, h]

/-- **One turn of the loop**: as long as the sum stays nonnegative, the trade is
added to its own coin and nothing else changes. -/
theorem replayTrade_of_nonneg {m : InsertionMap String SymbolState} {t : PortfolioTrade} {units : ℕ}
    (hq : toQuantityUnits t.quantity = .ok units)
    (h : 0 ≤ (heldUnits m t.symbol : ℤ) + signedUnits t) :
    ∃ m', replayTrade m t = .ok m' ∧ ∀ symbol,
      (heldUnits m' symbol : ℤ) =
        heldUnits m symbol + if t.symbol = symbol then signedUnits t else 0 := by
  cases hside : t.side with
  | buy =>
    refine ⟨_, by simp only [replayTrade, hq, hside]; exact rfl, fun symbol => ?_⟩
    rw [heldUnits_set]
    by_cases hs : t.symbol = symbol
    · simp [hs, heldUnits, signedUnits, hq, hside]
    · simp [hs, Ne.symm hs]
  | sell =>
    have hsigned : signedUnits t = -(units : ℤ) := by simp [signedUnits, hq, hside]
    have hle : units ≤ ((m.get? t.symbol).getD {}).units := by
      rw [hsigned, heldUnits] at h
      omega
    refine ⟨_, by simp only [replayTrade, hq, hside, if_neg (not_lt.mpr hle)]; exact rfl,
      fun symbol => ?_⟩
    rw [heldUnits_set]
    by_cases hs : t.symbol = symbol
    · subst hs
      rw [if_pos rfl, if_pos rfl, hsigned, heldUnits, Nat.cast_sub hle]
      ring
    · simp [hs, Ne.symm hs]

/-- **The whole loop**, from any state it can be in. -/
theorem foldlM_replayTrade {trades : List PortfolioTrade} (hread : Readable trades)
    {m : InsertionMap String SymbolState}
    (h : ∀ symbol, NeverNegativeFrom (heldUnits m symbol : ℤ) (signedOf symbol trades)) :
    ∃ m', trades.foldlM replayTrade m = .ok m' ∧ ∀ symbol,
      (heldUnits m' symbol : ℤ) = heldUnits m symbol + (signedOf symbol trades).sum := by
  induction trades generalizing m with
  | nil => exact ⟨m, rfl, by simp⟩
  | cons t ts ih =>
    obtain ⟨units, hq⟩ := hread t List.mem_cons_self
    have hown := h t.symbol
    rw [signedOf_cons, if_pos rfl, neverNegativeFrom_cons] at hown
    obtain ⟨m₁, hm₁, hheld⟩ := replayTrade_of_nonneg hq hown.1
    have hrest : ∀ symbol, NeverNegativeFrom (heldUnits m₁ symbol : ℤ) (signedOf symbol ts) := by
      intro symbol
      rw [hheld symbol]
      have hsym := h symbol
      rw [signedOf_cons] at hsym
      split_ifs at hsym ⊢ with hs
      · exact ((neverNegativeFrom_cons _ _ _).mp hsym).2
      · simpa using hsym
    obtain ⟨m', hm', hsum⟩ := ih (fun t' ht' => hread t' (List.mem_cons_of_mem t ht')) hrest
    refine ⟨m', by rw [List.foldlM_cons, hm₁]; exact hm', fun symbol => ?_⟩
    rw [hsum symbol, hheld symbol, signedOf_cons]
    split_ifs
    · rw [List.sum_cons, add_assoc]
    · rw [add_zero]

/-- **A turn that succeeds** read a quantity, and left nothing negative. -/
theorem nonneg_of_replayTrade {m m' : InsertionMap String SymbolState} {t : PortfolioTrade}
    (h : replayTrade m t = .ok m') :
    ∃ units, toQuantityUnits t.quantity = .ok units ∧
      0 ≤ (heldUnits m t.symbol : ℤ) + signedUnits t := by
  cases hq : toQuantityUnits t.quantity with
  | error error => simp [replayTrade, hq] at h
  | ok units =>
    refine ⟨units, rfl, ?_⟩
    cases hside : t.side with
    | buy =>
      simp only [signedUnits, hq, hside]
      omega
    | sell =>
      have hle : units ≤ heldUnits m t.symbol := by
        by_contra hlt
        have hlt' : ((m.get? t.symbol).getD {}).units < units := not_le.mp hlt
        simp [replayTrade, hq, hside, hlt'] at h
      simp only [signedUnits, hq, hside]
      omega

/-- **A replay that succeeds** never oversold. -/
theorem neverNegative_of_foldlM {trades : List PortfolioTrade}
    {m m' : InsertionMap String SymbolState} (h : trades.foldlM replayTrade m = .ok m') :
    Readable trades ∧
      ∀ symbol, NeverNegativeFrom (heldUnits m symbol : ℤ) (signedOf symbol trades) := by
  induction trades generalizing m with
  | nil => exact ⟨fun _ hmem => absurd hmem (by simp), fun symbol => by simp⟩
  | cons t ts ih =>
    obtain ⟨m₁, hm₁, h⟩ := Keyed.foldlM_cons_eq_ok.mp h
    obtain ⟨units, hq, hnonneg⟩ := nonneg_of_replayTrade hm₁
    obtain ⟨m₂, hm₂, hheld⟩ := replayTrade_of_nonneg hq hnonneg
    obtain rfl : m₂ = m₁ := Except.ok.inj (hm₂.symm.trans hm₁)
    obtain ⟨hread, hrest⟩ := ih h
    refine ⟨fun t' ht' => ?_, fun symbol => ?_⟩
    · rcases List.mem_cons.mp ht' with rfl | hmem
      · exact ⟨units, hq⟩
      · exact hread t' hmem
    · have hsymbol := hrest symbol
      rw [hheld symbol] at hsymbol
      rw [signedOf_cons]
      split_ifs at hsymbol ⊢ with hs
      · subst hs
        exact (neverNegativeFrom_cons _ _ _).mpr ⟨hnonneg, hsymbol⟩
      · simpa using hsymbol

/-- The line of a coin is what the replay ended with for it. -/
theorem find?_holdings {es : List (String × SymbolState)} (hnd : (es.map Prod.fst).Nodup)
    (symbol : String) :
    ((es.filterMap fun e => holdingOf e.1 e.2).find? fun h => h.symbol = symbol) =
      (InsertionMap.lookupEntry symbol es).bind (holdingOf symbol) := by
  induction es with
  | nil => rfl
  | cons e es ih =>
    obtain ⟨symbol', state⟩ := e
    rw [List.map_cons, List.nodup_cons] at hnd
    have hrest := ih hnd.2
    by_cases hpos : 0 < state.units
    · by_cases hs : symbol' = symbol
      · simp [holdingOf, hpos, hs, InsertionMap.lookupEntry]
      · simpa [holdingOf, hpos, hs, InsertionMap.lookupEntry] using hrest
    · by_cases hs : symbol' = symbol
      · subst hs
        -- A coin that is sold out has no line, and no second entry further on.
        have hnone : InsertionMap.lookupEntry symbol' es = none := by
          cases hl : InsertionMap.lookupEntry symbol' es with
          | none => rfl
          | some v =>
            have hmem := (InsertionMap.lookupEntry_eq_some hnd.2).mp hl
            exact absurd (List.mem_map_of_mem (f := Prod.fst) hmem) hnd.1
        rw [hnone] at hrest
        have hzero : state.units = 0 := by omega
        simpa [holdingOf, hzero, InsertionMap.lookupEntry] using hrest
      · simpa [holdingOf, hpos, hs, InsertionMap.lookupEntry] using hrest

/-- The quantity line of a coin is the units the replay ended with. -/
theorem find?_holdingOf {es : List (String × SymbolState)} (hnd : (es.map Prod.fst).Nodup)
    (symbol : String) :
    (((es.filterMap fun e => holdingOf e.1 e.2).find? fun h => h.symbol = symbol).map
        Holding.quantity).getD "0" =
      formatQuantityUnits (((InsertionMap.lookupEntry symbol es).getD {}).units) := by
  rw [find?_holdings hnd]
  cases InsertionMap.lookupEntry symbol es with
  | none => exact formatQuantityUnits_zero.symm
  | some state =>
    rcases Nat.eq_zero_or_pos state.units with hzero | hpos
    · simp [holdingOf, hzero, formatQuantityUnits_zero]
    · simp [holdingOf, hpos]

/-- **The replay succeeds on trades that never oversell**, and what it says is held
of a coin is the sum of that coin's signed quantities. -/
theorem computeHoldings_of_neverNegative {trades : List PortfolioTrade} (hread : Readable trades)
    (h : ∀ symbol, NeverNegative (signedOf symbol (sortBySeq trades))) :
    ∃ result, computeHoldings trades = .ok result ∧ ∀ symbol, ∃ units : ℕ,
      (units : ℤ) = (signedOf symbol (sortBySeq trades)).sum ∧
        heldQuantityOf result symbol = formatQuantityUnits units := by
  have hsorted : Readable (sortBySeq trades) := fun t ht =>
    hread t ((List.perm_insertionSort _ trades).mem_iff.mp ht)
  obtain ⟨m, hm, hsum⟩ := foldlM_replayTrade (m := InsertionMap.empty) hsorted h
  refine ⟨_, by rw [computeHoldings, hm]; rfl, fun symbol => ⟨heldUnits m symbol, ?_, ?_⟩⟩
  · rw [hsum symbol]
    simp [heldUnits]
  · exact find?_holdingOf m.nodup symbol

/-- `computeHoldings` does not throw. -/
abbrev Replayable (trades : List PortfolioTrade) : Prop :=
  ∃ result, computeHoldings trades = .ok result

theorem replayable_of_isOk {trades : List PortfolioTrade}
    (h : (computeHoldings trades).isOk = true) : Replayable trades := by
  cases hresult : computeHoldings trades with
  | error error =>
    rw [hresult] at h
    cases h
  | ok result => exact ⟨result, hresult⟩

/-- **The replay succeeds exactly on** readable trades that never oversell a coin. -/
theorem replayable_iff {trades : List PortfolioTrade} :
    Replayable trades ↔
      Readable trades ∧ ∀ symbol, NeverNegative (signedOf symbol (sortBySeq trades)) := by
  constructor
  · rintro ⟨result, hresult⟩
    cases hm : (sortBySeq trades).foldlM replayTrade InsertionMap.empty with
    | error error =>
      rw [computeHoldings, hm] at hresult
      cases hresult
    | ok m =>
      obtain ⟨hread, hnonneg⟩ := neverNegative_of_foldlM hm
      exact ⟨fun t ht => hread t ((List.perm_insertionSort _ trades).mem_iff.mpr ht), hnonneg⟩
  · rintro ⟨hread, hnonneg⟩
    obtain ⟨result, hresult, -⟩ := computeHoldings_of_neverNegative hread hnonneg
    exact ⟨result, hresult⟩

end Portfolio

end CryptoZaloBot
