import Mathlib.Data.Nat.Prime.Basic
import CryptoZaloBot.Base.Notation
import CryptoZaloBot.Commands.Parser
import CryptoZaloBot.Portfolio.Replays

/-!
# From a message to a row

A trade is read by a pattern, checked as a double, stored as a `NUMERIC(21, 8)` and computed
with in units of `10⁻⁸`. The quantity goes through all of it as a text and loses nothing. The
price is stored from the *text of its double*, which may be another number than was typed, but
one that reads as the same double.

So the bounds of the column are bounds of doubles here: a price of at least `10⁻⁸` has a double
above `2⁻²⁷`, and what reads as such a double does not round to zero
(`CryptoZaloBot.Commands.parse_trade_fits`).
-/

namespace CryptoZaloBot

namespace Commands

open Portfolio

/-! ### Numbers as the language writes them -/

/-- **The digits of doubles** and where their point stands, as `toString` chooses them: as few
as read back to the same double, which is all that is needed of them here. -/
structure ShortestDigits where
  digitsOf : ℚ → ℕ × ℤ
  readsBack : ∀ x, Binary64.IsDouble x → 0 < x → x < 2 ^ 1024 →
    Binary64.ofRat (Decimal.pointed (Decimal.ofNat (digitsOf x).1) (digitsOf x).2) = .finite x

/-- `x.toString()`, for a positive number. -/
def numberToString (shortest : ShortestDigits) (x : ℚ) : String :=
  String.ofList (Decimal.layout (Decimal.ofNat (shortest.digitsOf x).1) (shortest.digitsOf x).2)

/-- `${text}::numeric`. -/
def numericOfText? (text : String) : Option ℚ := Decimal.read? text.toList

/-- The arguments a message has, as the parser reads them. -/
def typedArgs (tables : UnicodeTables) (rawText : String) : List String :=
  ((words (String.ofList ((Prices.trim rawText).toList.drop 1))).drop 1).map (fold tables)

variable {tables : UnicodeTables} {shortest : ShortestDigits}

theorem numericOfText?_numberToString (x : ℚ) :
    numericOfText? (numberToString shortest x) =
      some (Decimal.pointed (Decimal.ofNat (shortest.digitsOf x).1) (shortest.digitsOf x).2) := by
  rw [numericOfText?, numberToString, String.toList_ofList,
    Decimal.read?_layout (fun c hc => Decimal.isDigit_of_mem_ofNat hc) (Decimal.ofNat_ne_nil _)]

theorem pointed_nonneg (digits : List Char) (n : ℤ) : 0 ≤ Decimal.pointed digits n :=
  mul_nonneg (Nat.cast_nonneg _) (zpow_nonneg (by norm_num) _)

/-! ### Numbers the parser accepts -/

section Numbers

variable {raw : String} {maxDecimals : ℕ} {max : ℚ} {p : PositiveNumber}

theorem parsePositiveNumber_eq_some (h : parsePositiveNumber raw maxDecimals max = some p) :
    p.plain.text = String.ofList (raw.toList.filter (· ≠ ',')) ∧
      number p.plain = .finite p.value ∧ decimals p.plain ≤ maxDecimals ∧ 0 < p.value ∧
        p.value ≤ max := by
  rw [parsePositiveNumber] at h
  split_ifs at h with hpat
  dsimp only at h
  split at h
  · next value hvalue =>
    split_ifs at h with hout
    obtain rfl := Option.some.inj h
    obtain ⟨hdecimals, hpos, hmax⟩ := not_or.mp hout |>.imp id not_or.mp
    exact ⟨rfl, hvalue, not_lt.mp hdecimals, not_le.mp hpos, not_lt.mp hmax⟩
  · cases h

/-- A decimal with 8 places at most is a number of units. -/
theorem exists_toQuantityUnits {plain : DecimalText} (h : decimals plain ≤ maxQuantityDecimals) :
    ∃ units, toQuantityUnits plain.text = .ok units := by
  have hle : ((((plain.text.toList.dropWhile (· ≠ '.')).drop 1)).rdropWhile (· = '0')).length ≤
      maxQuantityDecimals := (List.rdropWhile_prefix _ _).length_le.trans h
  rw [toQuantityUnits]
  dsimp only
  rw [if_pos plain.plain, if_neg (not_lt.mpr hle)]
  exact ⟨_, rfl⟩

theorem numeric_nonneg (plain : DecimalText) : 0 ≤ plain.numeric := by
  rw [DecimalText.numeric]
  positivity

theorem roundToDouble_numeric (h : number p.plain = .finite p.value) :
    Binary64.roundToDouble p.plain.numeric = p.value := Binary64.ofRat_eq_finite h

/-- **Positive, and of 8 places at most**: at least one unit. -/
theorem one_le_units {units : ℕ} (hvalue : number p.plain = .finite p.value) (hpos : 0 < p.value)
    (hunits : p.plain.numeric = numericOfUnits units) : 1 ≤ units := by
  rcases units.eq_zero_or_pos with rfl | h
  · have hzero : p.plain.numeric = 0 := by
      rw [hunits]
      simp [numericOfUnits]
    rw [← roundToDouble_numeric hvalue, hzero, Binary64.roundToDouble_zero] at hpos
    exact absurd hpos (lt_irrefl _)
  · exact h

end Numbers

/-! ### Bounds that are doubles -/

theorem cast_quantityScale : (quantityScale : ℚ) = 10 ^ 8 := by
  norm_num [quantityScale, maxQuantityDecimals]

theorem isDouble_least : Binary64.IsDouble (5 / 2 ^ 29) := ⟨5, -29, by norm_num, by norm_num, by
  norm_num⟩

theorem isDouble_below : Binary64.IsDouble (1 / 2 ^ 27) := ⟨1, -27, by norm_num, by norm_num, by
  norm_num⟩

theorem isDouble_above : Binary64.IsDouble (2 * 10 ^ 12) := ⟨2 * 10 ^ 12, 0, by norm_num, by
  norm_num, by norm_num⟩

theorem lt_above {x : ℚ} (hx : 0 ≤ x) (h : Binary64.roundToDouble x ≤ 10 ^ 12) :
    x < 2 * 10 ^ 12 :=
  Binary64.lt_of_roundToDouble_lt hx isDouble_above (h.trans_lt (by norm_num))

/-- Within the bounds, the column holds the number. -/
theorem roundToUnits_fits {x : ℚ} (hlow : 1 / 2 ^ 27 < x) (hhigh : x < 2 * 10 ^ 12) :
    0 < roundToUnits x ∧ roundToUnits x < numericBound := by
  have hnonneg : 0 ≤ x := le_trans (by norm_num) hlow.le
  rw [roundToUnits, if_pos hnonneg, cast_quantityScale, Int.floor_lt, numericBound, Int.floor_pos]
  constructor
  · linarith
  · push_cast
    linarith

theorem roundToUnits_numericOfUnits (units : ℕ) : roundToUnits (numericOfUnits units) = units := by
  have hscale : (quantityScale : ℚ) ≠ 0 := by
    rw [cast_quantityScale]
    norm_num
  have hnonneg : 0 ≤ numericOfUnits units := by
    rw [numericOfUnits]
    positivity
  rw [roundToUnits, if_pos hnonneg, numericOfUnits, div_mul_cancel₀ _ hscale, Int.floor_eq_iff]
  constructor <;> push_cast <;> linarith

/-! ### The price -/

/-- **The text of a price reads as a number that fits the column.** -/
theorem price_fits (shortest : ShortestDigits) {raw : String} {p : PositiveNumber}
    (h : parsePositiveNumber raw maxThresholdDecimals maxAlertThreshold = some p) :
    ∃ price, numericOfText? (numberToString shortest p.value) = some price ∧
      0 < roundToUnits price ∧ roundToUnits price < numericBound := by
  obtain ⟨-, hvalue, hdecimals, hpos, hmax⟩ := parsePositiveNumber_eq_some h
  have hround := roundToDouble_numeric hvalue
  have hnonneg := numeric_nonneg p.plain
  have hdouble : Binary64.IsDouble p.value := hround ▸ Binary64.isDouble_roundToDouble hnonneg
  -- What was typed is one unit or more, so the double is not below `5 / 2 ^ 29`.
  have hleast : 5 / 2 ^ 29 ≤ p.value := by
    obtain ⟨units, hunits⟩ := exists_toQuantityUnits hdecimals
    have hnumeric := numeric_of_toQuantityUnits hunits
    have hone : (1 : ℚ) ≤ units := by exact_mod_cast one_le_units hvalue hpos hnumeric
    refine hround ▸ Binary64.le_roundToDouble hnonneg isDouble_least ?_
    rw [hnumeric, numericOfUnits, cast_quantityScale, le_div_iff₀ (by norm_num)]
    push_cast
    linarith
  refine ⟨_, numericOfText?_numberToString p.value, ?_⟩
  have hread := Binary64.ofRat_eq_finite (shortest.readsBack p.value hdouble hpos
    (Binary64.lt_of_ofRat_eq_finite hvalue))
  refine roundToUnits_fits
    (Binary64.lt_of_lt_roundToDouble (pointed_nonneg _ _) isDouble_below ?_)
    (lt_above (pointed_nonneg _ _) (hread.trans_le hmax))
  rw [hread]
  exact lt_of_lt_of_le (by norm_num) hleast

/-! ### The quantity -/

/-- **The quantity is stored as it was typed.** -/
theorem quantity_fits {raw : String} {q : PositiveNumber}
    (h : parsePositiveNumber raw maxQuantityDecimals maxQuantity = some q) :
    ∃ units : ℕ, roundToUnits q.plain.numeric = units ∧ q.plain.numeric = numericOfUnits units ∧
      0 < units ∧ (units : ℤ) < numericBound := by
  obtain ⟨-, hvalue, hdecimals, hpos, hmax⟩ := parsePositiveNumber_eq_some h
  obtain ⟨units, hunits⟩ := exists_toQuantityUnits hdecimals
  have hnumeric := numeric_of_toQuantityUnits hunits
  refine ⟨units, hnumeric ▸ roundToUnits_numericOfUnits units, hnumeric,
    one_le_units hvalue hpos hnumeric, ?_⟩
  have hlt := lt_above (numeric_nonneg q.plain) ((roundToDouble_numeric hvalue).trans_le hmax)
  rw [hnumeric, numericOfUnits, cast_quantityScale, div_lt_iff₀ (by norm_num)] at hlt
  have hcast : ((units : ℤ) : ℚ) < (numericBound : ℤ) := by
    refine hlt.trans ?_
    norm_num [numericBound]
  exact_mod_cast hcast

/-! ### All the digits of a double -/

/-- All the digits a double has. They are more than `toString` chooses, but for a number of few
digits. -/
def exactDigits (x : ℚ) : ℕ × ℤ :=
  let places := Nat.log2 x.den
  let digits := x.num.natAbs * 5 ^ places
  (digits, (Decimal.ofNat digits).length - places)

theorem den_of_isDouble {x : ℚ} (h : Binary64.IsDouble x) : ∃ k, x.den = 2 ^ k := by
  obtain ⟨m, e, -, hmin, rfl⟩ := h
  obtain ⟨k, hk⟩ : ∃ k : ℕ, 0 ≤ e + k := ⟨1074, by omega⟩
  obtain ⟨n, hn⟩ := Int.eq_ofNat_of_zero_le hk
  have hdiv : (m : ℚ) * 2 ^ e = ((m * 2 ^ n : ℤ) : ℚ) / ((2 ^ k : ℤ) : ℚ) := by
    have he : e = n - k := by omega
    rw [he, zpow_sub₀ (by norm_num), zpow_natCast, zpow_natCast]
    push_cast
    ring
  have hdvd := Rat.den_dvd (m * 2 ^ n) (2 ^ k)
  rw [Rat.divInt_eq_div, ← hdiv] at hdvd
  obtain ⟨j, -, hj⟩ := (Nat.dvd_prime_pow Nat.prime_two).mp (by exact_mod_cast hdvd)
  exact ⟨j, hj⟩

theorem pointed_exactDigits {x : ℚ} (h : Binary64.IsDouble x) (hpos : 0 < x) :
    Decimal.pointed (Decimal.ofNat (exactDigits x).1) (exactDigits x).2 = x := by
  obtain ⟨k, hk⟩ := den_of_isDouble h
  have hnum : ((x.num.natAbs : ℕ) : ℚ) = x.num := by
    rw [Nat.cast_natAbs, abs_of_pos (Rat.num_pos.mpr hpos)]
  have hplaces : ∀ n : ℕ, (n : ℤ) - k - n = -k := fun n => by omega
  rw [Decimal.pointed, exactDigits, hk, Nat.log2_two_pow]
  dsimp only
  rw [Decimal.value_ofNat, hplaces, zpow_neg, zpow_natCast]
  push_cast
  conv_rhs => rw [← Rat.num_div_den x, hk]
  rw [hnum]
  push_cast
  have hten : (10 : ℚ) ^ k = 5 ^ k * 2 ^ k := by
    rw [← mul_pow]
    norm_num
  rw [hten]
  field_simp

def exactDouble : ShortestDigits where
  digitsOf := exactDigits
  readsBack x hx hpos hlt := by
    rw [pointed_exactDigits hx hpos, Binary64.ofRat, hx.roundToDouble_eq hpos.le, if_pos hlt]

/-! ### Which messages are trades -/

section Messages

variable {rawArgs : List String} {rawText symbol : String} {side : TradeSide}
  {quantity : DecimalText} {priceUsd : ℚ}

theorem parseAlert_ne_trade :
    parseAlert tables rawArgs ≠ .portfolioTrade symbol side quantity priceUsd := by
  intro h
  rw [parseAlert] at h
  dsimp only at h
  repeat' split at h
  all_goals cases h

theorem parseSignal_ne_trade :
    parseSignal tables rawArgs ≠ .portfolioTrade symbol side quantity priceUsd := by
  intro h
  rw [parseSignal] at h
  repeat' split at h
  all_goals cases h

/-- A quantity has no commas to take out. -/
theorem filter_comma_of_decimalPattern {cs : List Char} (h : decimalPattern cs = true) :
    cs.filter (· ≠ ',') = cs := by
  rw [decimalPattern, Bool.and_eq_true] at h
  have hwhole : ∀ c ∈ cs.takeWhile Char.isDigit, c.isDigit = true := fun c hc =>
    List.mem_takeWhile_imp hc
  rw [← List.takeWhile_append_dropWhile (p := Char.isDigit) (l := cs), List.filter_append,
    filter_comma_of_digits hwhole]
  cases hdrop : cs.dropWhile Char.isDigit with
  | nil => rfl
  | cons c fraction =>
    have hfraction := h.2
    rw [hdrop] at hfraction
    simp only [Bool.and_eq_true, beq_iff_eq, List.all_eq_true] at hfraction
    obtain ⟨⟨rfl, -⟩, hdigits⟩ := hfraction
    rw [List.filter_cons_of_pos (by decide), filter_comma_of_digits hdigits]

/-- **What a trade was read from.** -/
theorem parseTrade_eq_trade {side' : TradeSide}
    (h : parseTrade side' rawArgs = .portfolioTrade symbol side quantity priceUsd) :
    ∃ rawPrice q p, rawArgs = [symbol, quantity.text, rawPrice] ∧
      (symbolPattern symbol = true ∧ utf16Length symbol ≤ maxPortfolioSymbolLength) ∧
      (parsePositiveNumber quantity.text maxQuantityDecimals maxQuantity = some q ∧
        q.plain = quantity) ∧
      parsePositiveNumber rawPrice maxThresholdDecimals maxAlertThreshold = some p ∧
        p.value = priceUsd := by
  rw [parseTrade.eq_def] at h
  split at h
  · next symbol' rawQuantity rawPrice =>
    dsimp only at h
    split at h
    · next q p hq hp =>
      split_ifs at h with hsymbol
      injection h with h₁ h₂ h₃ h₄
      subst h₁ h₃ h₄
      split_ifs at hq with hpat
      have htext := (parsePositiveNumber_eq_some hq).1
      rw [filter_comma_of_decimalPattern hpat, String.ofList_toList] at htext
      rw [Bool.or_eq_true, not_or] at hsymbol
      refine ⟨rawPrice, q, p, by rw [htext], ⟨by simpa using hsymbol.1, by simpa using hsymbol.2⟩,
        ⟨by rwa [htext], rfl⟩, hp, rfl⟩
    · cases h
  · cases h

theorem elim_ne_trade {n : Option ℕ} {f : ℕ → ParsedCommand}
    (hf : ∀ k, f k ≠ .portfolioTrade symbol side quantity priceUsd) :
    n.elim .portfolioInvalid f ≠ .portfolioTrade symbol side quantity priceUsd := by
  cases n with
  | none => exact nofun
  | some k => exact hf k

theorem parsePortfolio_eq_trade
    (h : parsePortfolio tables rawArgs = .portfolioTrade symbol side quantity priceUsd) :
    ∃ keyword rest, rawArgs.map (fold tables) = keyword :: rest ∧
      parseTrade (if keyword ∈ portfolioBuyKeywords then .buy else .sell) rest =
        .portfolioTrade symbol side quantity priceUsd := by
  rw [parsePortfolio] at h
  split at h
  · cases h
  · next keyword rest hsplit =>
    split at h
    · cases h
    split at h
    · exact ⟨keyword, rest, hsplit, h⟩
    split_ifs at h
    · split at h
      · cases h
      · exact absurd h (elim_ne_trade fun k => nofun)
      · cases h
    · split at h
      · exact absurd h (elim_ne_trade fun k => nofun)
      · cases h
    · repeat' split at h
      all_goals cases h

theorem parse_eq_trade (h : parse tables rawText = .portfolioTrade symbol side quantity priceUsd) :
    ∃ keyword rest, typedArgs tables rawText = keyword :: rest ∧
      parseTrade (if keyword ∈ portfolioBuyKeywords then .buy else .sell) rest =
        .portfolioTrade symbol side quantity priceUsd := by
  rw [parse] at h
  split at h
  · next text htext =>
    split at h
    · cases h
    · next rawCommand rawSymbols hwords =>
      have hargs : typedArgs tables rawText = rawSymbols.map (fold tables) := by
        rw [typedArgs, htext, List.drop_succ_cons, List.drop_zero, hwords, List.drop_succ_cons,
          List.drop_zero]
      dsimp only at h
      -- Help and the subscription come first, prices last.
      iterate 4
        replace h := ((ite_eq_iff.mp h).resolve_left fun hearlier => by cases hearlier.2).2
      obtain ⟨-, halert⟩ | ⟨-, h⟩ := ite_eq_iff.mp h
      · exact absurd halert parseAlert_ne_trade
      obtain ⟨-, hportfolio⟩ | ⟨-, h⟩ := ite_eq_iff.mp h
      · exact hargs ▸ parsePortfolio_eq_trade hportfolio
      obtain ⟨-, hsignal⟩ | ⟨-, h⟩ := ite_eq_iff.mp h
      · exact absurd hsignal parseSignal_ne_trade
      split_ifs at h
  · cases h

/-- A symbol of the pattern is as long for the database as for the parser. -/
theorem utf16Length_of_symbolPattern (h : symbolPattern symbol = true) :
    utf16Length symbol = symbol.length ∧ 1 ≤ symbol.length := by
  rw [symbolPattern, Bool.and_eq_true, List.all_eq_true] at h
  obtain ⟨hne, hall⟩ := h
  constructor
  · have hone : ∀ c ∈ symbol.toList, (if c.toNat < 0x10000 then 1 else 2) = 1 := by
      intro c hc
      refine if_pos ?_
      change c.val.toNat < _
      -- The last letter, or the last digit.
      rcases Bool.or_eq_true_iff.mp (hall c hc) with h | h <;>
        exact lt_of_le_of_lt (UInt32.le_iff_toNat_le.mp
          (of_decide_eq_true (Bool.and_eq_true_iff.mp h).2)) (by decide)
    rw [utf16Length, List.map_congr_left hone, List.map_const', List.sum_replicate_nat, Nat.mul_one,
      String.length_toList]
  · rw [← String.length_toList, Nat.one_le_iff_ne_zero, Ne, List.length_eq_zero_iff,
      String.toList_eq_nil_iff]
    simpa using hne

/-- **What the parser lets through fits the table**, and the quantity is read back from it as
it was typed. -/
theorem parse_trade_fits (tables : UnicodeTables) (shortest : ShortestDigits)
    (h : parse tables rawText = .portfolioTrade symbol side quantity priceUsd) :
    (typedArgs tables rawText)[2]? = some quantity.text ∧
    ∃ price, numericOfText? (numberToString shortest priceUsd) = some price ∧
      ∀ (c : Context) (rows : List TradeRow) (messageId : Option String),
        let columns := newColumns c rows
          (RecordArgs.newTrade ⟨side, symbol, quantity, price, messageId⟩)
        (1 ≤ columns.symbol.length ∧ columns.symbol.length ≤ 20) ∧
        (0 < columns.quantity ∧ columns.quantity < numericBound) ∧
        (0 < columns.priceUsd ∧ columns.priceUsd < numericBound) ∧
        ∃ units : ℕ, toQuantityUnits (numericText columns.quantity.toNat) = .ok units ∧
          numericOfUnits units = quantity.numeric := by
  obtain ⟨keyword, rest, hargs, htrade⟩ := parse_eq_trade h
  obtain ⟨rawPrice, q, p, rfl, ⟨hsymbol, hlength⟩, ⟨hq, rfl⟩, hp, rfl⟩ :=
    parseTrade_eq_trade htrade
  obtain ⟨price, hprice, hprice_fits⟩ := price_fits shortest hp
  obtain ⟨units, hround, hnumeric, hpos, hlt⟩ := quantity_fits hq
  obtain ⟨hutf16, hone⟩ := utf16Length_of_symbolPattern hsymbol
  refine ⟨by rw [hargs]; rfl, price, hprice, fun c rows messageId => ?_⟩
  have hquantity : (newColumns c rows (RecordArgs.newTrade
      ⟨side, symbol, q.plain, price, messageId⟩)).quantity = units := hround
  dsimp only
  rw [hquantity]
  exact ⟨⟨hone, hutf16 ▸ hlength⟩, ⟨by exact_mod_cast hpos, hlt⟩, hprice_fits, units,
    toQuantityUnits_numericText units, hnumeric.symm⟩

end Messages

theorem decimalPattern_quarter : decimalPattern "0.25".toList = true := by decide

/-- Tables for texts of ASCII, which do not decompose. -/
def asciiTables : UnicodeTables where
  toCasing := Prices.asciiCasing
  nfd := id

theorem parse_trade_fits_half : (typedArgs asciiTables "/danhmuc mua btc 0.25 0.5")[2]? =
      some "0.25" ∧
    ∃ price, numericOfText? (numberToString exactDouble (1 / 2)) = some price ∧
      ∀ (c : Context) (rows : List TradeRow) (messageId : Option String),
        let columns := newColumns c rows (RecordArgs.newTrade
          ⟨.buy, "btc", ⟨"0.25", decimalPattern_quarter⟩, price, messageId⟩)
        (1 ≤ columns.symbol.length ∧ columns.symbol.length ≤ 20) ∧
        (0 < columns.quantity ∧ columns.quantity < numericBound) ∧
        (0 < columns.priceUsd ∧ columns.priceUsd < numericBound) ∧
        ∃ units : ℕ, toQuantityUnits (numericText columns.quantity.toNat) = .ok units ∧
          numericOfUnits units = (⟨"0.25", decimalPattern_quarter⟩ : DecimalText).numeric := by
  have hparse : parse asciiTables "/danhmuc mua btc 0.25 0.5" =
      .portfolioTrade "btc" .buy ⟨"0.25", decimalPattern_quarter⟩ (1 / 2) := by decide +kernel
  exact parse_trade_fits asciiTables exactDouble hparse

end Commands

end CryptoZaloBot
