import Mathlib.Algebra.Order.Field.Basic
import Mathlib.Algebra.BigOperators.Group.List.Basic
import Mathlib.Tactic.Linarith
import Mathlib.Tactic.Ring

/-!
# The weighted-average cost method

A position in one good: how much is held, what it cost, and what was gained by selling.
A purchase adds to the cost. A sale takes its share of the cost at the average, so that the
average stays, and what it brought above that is realized. A position sold out starts over
with no cost.

The average is a quotient and each sale multiplies it out again, but nothing is lost on
the way: what was realized less what is still tied up is the cash that went in and out
(`CryptoZaloBot.AverageCost.realized_sub_cost`). And the cost knows nothing of what was
before the position was last empty (`CryptoZaloBot.AverageCost.Position.deals_of_empty`).
-/

namespace CryptoZaloBot

namespace AverageCost

variable {K : Type*} [Field K]

/-- A purchase or a sale of a quantity at a price. -/
inductive Deal (K : Type*) where
  | buy (quantity price : K)
  | sell (quantity price : K)

/-- What a deal adds to the quantity held. -/
def Deal.change : Deal K → K
  | .buy quantity _ => quantity
  | .sell quantity _ => -quantity

/-- What a deal brings in cash. -/
def Deal.cash : Deal K → K
  | .buy quantity price => -(quantity * price)
  | .sell quantity price => quantity * price

/-- **A position in one good.** -/
@[ext]
structure Position (K : Type*) where
  quantity : K
  cost : K
  realized : K

namespace Position

/-- Nothing held, nothing gained. -/
def empty : Position K := ⟨0, 0, 0⟩

def average (p : Position K) : K := p.cost / p.quantity

variable [DecidableEq K]

/-- The position after a deal. -/
def deal (p : Position K) : Deal K → Position K
  | .buy quantity price =>
    { p with quantity := p.quantity + quantity, cost := p.cost + quantity * price }
  | .sell quantity price =>
    { quantity := p.quantity - quantity
      cost := if p.quantity - quantity = 0 then 0 else p.average * (p.quantity - quantity)
      realized := p.realized + quantity * (price - p.average) }

/-- The position after a list of deals. -/
def deals (p : Position K) (ds : List (Deal K)) : Position K := ds.foldl deal p

@[simp] theorem deals_nil (p : Position K) : p.deals [] = p := rfl

@[simp] theorem deals_cons (p : Position K) (d : Deal K) (ds : List (Deal K)) :
    p.deals (d :: ds) = (p.deal d).deals ds := rfl

@[simp] theorem deal_quantity (p : Position K) (d : Deal K) :
    (p.deal d).quantity = p.quantity + d.change := by
  cases d with
  | buy quantity price => rfl
  | sell quantity price => exact sub_eq_add_neg ..

/-- **A sale that leaves something keeps the average.** -/
theorem average_sell {p : Position K} {quantity price : K} (h : p.quantity - quantity ≠ 0) :
    (p.deal (.sell quantity price)).average = p.average := by
  rw [average, deal, if_neg h, mul_div_assoc, div_self h, mul_one]

/-- Purchases add up. -/
theorem cost_deals_of_buys (p : Position K) {ds : List (Deal K)}
    (hbuys : ∀ d ∈ ds, ∃ quantity price, d = .buy quantity price) :
    (p.deals ds).cost = p.cost - (ds.map Deal.cash).sum := by
  induction ds generalizing p with
  | nil => simp
  | cons d ds ih =>
    obtain ⟨quantity, price, rfl⟩ := hbuys d List.mem_cons_self
    rw [deals_cons, ih _ fun d hd => hbuys d (List.mem_cons_of_mem _ hd), List.map_cons,
      List.sum_cons]
    simp only [deal, Deal.cash]
    ring

/-! ### What was before does not count -/

/-- The two positions hold the same at the same cost. -/
def SameHolding (p q : Position K) : Prop := p.quantity = q.quantity ∧ p.cost = q.cost

theorem SameHolding.deal {p q : Position K} (h : p.SameHolding q) (d : Deal K) :
    (p.deal d).SameHolding (q.deal d) := by
  obtain ⟨hquantity, hcost⟩ := h
  cases d with
  | buy quantity price => exact ⟨by simp [hquantity], by simp [Position.deal, hcost]⟩
  | sell quantity price =>
    exact ⟨by simp [hquantity], by simp [Position.deal, average, hquantity, hcost]⟩

theorem SameHolding.deals {p q : Position K} (h : p.SameHolding q) (ds : List (Deal K)) :
    (p.deals ds).SameHolding (q.deals ds) := by
  induction ds generalizing p q with
  | nil => exact h
  | cons d ds ih => exact ih (h.deal d)

omit [DecidableEq K] in
theorem SameHolding.average_eq {p q : Position K} (h : p.SameHolding q) :
    p.average = q.average := by
  rw [average, average, h.1, h.2]

end Position

/-! ### Positions that are never oversold -/

section Ordered

variable [LinearOrder K] {p : Position K} {d : Deal K}
  {ds : List (Deal K)}

/-- A purchase is of no negative quantity; a sale takes some of what is there. -/
def Position.Allows (p : Position K) : Deal K → Prop
  | .buy quantity _ => 0 ≤ quantity
  | .sell quantity _ => 0 < quantity ∧ quantity ≤ p.quantity

/-- **Every deal of the list is allowed** where its turn comes. -/
def Position.AllowsAll (p : Position K) : List (Deal K) → Prop
  | [] => True
  | d :: ds => p.Allows d ∧ (p.deal d).AllowsAll ds

/-- Nothing is tied up in an empty position. -/
structure Position.Settled (p : Position K) : Prop where
  quantity_nonneg : 0 ≤ p.quantity
  cost_eq_zero : p.quantity = 0 → p.cost = 0

theorem settled_empty : (Position.empty : Position K).Settled := ⟨le_refl 0, fun _ => rfl⟩

/-- **What is realized less what is tied up changes by the cash of the deal.** The division
is by what is held, which a sale needs to be something. -/
theorem realized_sub_cost_deal (hd : p.Allows d) :
    (p.deal d).realized - (p.deal d).cost = p.realized - p.cost + d.cash := by
  cases d with
  | buy quantity price =>
    simp only [Position.deal, Deal.cash]
    ring
  | sell quantity price =>
    have hne : p.quantity ≠ 0 := (lt_of_lt_of_le hd.1 hd.2).ne'
    have hcost : p.average * p.quantity = p.cost := div_mul_cancel₀ _ hne
    simp only [Position.deal, Deal.cash]
    split <;> rename_i hleft
    · have hall : quantity = p.quantity := (sub_eq_zero.mp hleft).symm
      rw [← hcost, hall]
      ring
    · rw [← hcost]
      ring

/-- **The books balance.** -/
theorem realized_sub_cost (hds : p.AllowsAll ds) :
    (p.deals ds).realized - (p.deals ds).cost =
      p.realized - p.cost + (ds.map Deal.cash).sum := by
  induction ds generalizing p with
  | nil => simp
  | cons d ds ih =>
    rw [Position.deals_cons, ih hds.2, realized_sub_cost_deal hds.1, List.map_cons, List.sum_cons,
      add_assoc]

/-- **A position that was empty once** holds what the deals since then make of nothing. -/
theorem Position.deals_of_empty (h : p.Settled) (hzero : p.quantity = 0) (ds : List (Deal K)) :
    (p.deals ds).SameHolding (Position.empty.deals ds) :=
  SameHolding.deals ⟨hzero, h.cost_eq_zero hzero⟩ ds

variable [IsStrictOrderedRing K]

theorem Position.Settled.deal (h : p.Settled) (hd : p.Allows d) : (p.deal d).Settled := by
  cases d with
  | buy quantity price =>
    have hnonneg : 0 ≤ quantity := hd
    refine ⟨by simpa [Deal.change] using add_nonneg h.quantity_nonneg hnonneg, fun hzero => ?_⟩
    have hsum : p.quantity + quantity = 0 := hzero
    have hheld : p.quantity = 0 := by linarith [h.quantity_nonneg]
    have hbought : quantity = 0 := by linarith [h.quantity_nonneg]
    simp [Position.deal, h.cost_eq_zero hheld, hbought]
  | sell quantity price =>
    refine ⟨sub_nonneg.mpr hd.2, fun hzero => ?_⟩
    exact if_pos hzero

theorem Position.Settled.deals (h : p.Settled) (hds : p.AllowsAll ds) :
    (p.deals ds).Settled := by
  induction ds generalizing p with
  | nil => exact h
  | cons d ds ih => exact ih (h.deal hds.1) hds.2

end Ordered

end AverageCost

end CryptoZaloBot
