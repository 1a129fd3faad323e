import Mathlib.Algebra.Group.Nat.Defs
import Mathlib.Data.Rat.Defs
import CryptoZaloBot.Base.InsertionMap

/-!
# The data of the portfolio

The types of `portfolio.interface.ts` and the limits of `portfolio.constants.ts`.
A quantity is an exact decimal text, as Postgres hands it back; the calculator
turns it into integer units of `10⁻⁸` before it computes anything with it. Prices
are JavaScript numbers in the source and exact rationals here.
-/

namespace CryptoZaloBot

namespace Portfolio

/-- Max trades one chat can record. -/
def maxTradesPerChat : ℕ := 200

/-- Max distinct coins one chat can hold at once. -/
def maxHeldCoins : ℕ := 20

/-- Quantities are stored with this many decimals. -/
def maxQuantityDecimals : ℕ := 8

/-- Quantities are exact decimals with 8 places, so the calculator works in
integer units of `10⁻⁸`. -/
def quantityScale : ℕ := 10 ^ maxQuantityDecimals

/-- Longest message id kept for de-duplication. -/
def maxSourceMessageIdLength : ℕ := 128

inductive TradeSide where
  | buy
  | sell
  deriving DecidableEq, Repr

/-- **One recorded trade, as stored.** -/
structure PortfolioTrade where
  /-- The chat's stable trade number. -/
  seq : ℕ
  side : TradeSide
  symbol : String
  /-- Exact decimal text. -/
  quantity : String
  priceUsd : ℚ
  /-- Epoch milliseconds. -/
  createdAt : ℤ
  deriving DecidableEq

/-- A coin the chat still holds. -/
structure Holding where
  symbol : String
  /-- Held quantity, as a trimmed decimal text. -/
  quantity : String
  /-- Held quantity in `10⁻⁸` units, exact. -/
  quantityUnits : ℕ
  avgCostUsd : ℚ
  costBasisUsd : ℚ
  deriving DecidableEq

structure HoldingsResult where
  /-- Coins with quantity `> 0`, in the order they were first bought. -/
  holdings : List Holding
  realizedPnlUsd : ℚ
  realizedBySymbol : InsertionMap String ℚ

end Portfolio

end CryptoZaloBot
