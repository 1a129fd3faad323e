import CryptoZaloBot.Base.Binary64
import CryptoZaloBot.Portfolio.Store
import CryptoZaloBot.PriceAlerts.Evaluator
import CryptoZaloBot.Prices.Lookup

/-!
# Commands

`CommandParserService.parse`: a message is split at white space, its first word says which
command it is, and the rest are the arguments, lowercased and without accents. A command
that has a syntax of its own (`/canhbao`, `/danhmuc`, `/tinhieu`) and does not follow it is
told apart from a command nobody knows, so that the reply can show the syntax.

A number is read by a pattern first and then as a double, which is compared with the limits
(`CryptoZaloBot.Commands.parsePositiveNumber`). A quantity goes on as the *text*, a price as
the double.

The tables of Unicode are a parameter (`CryptoZaloBot.Commands.UnicodeTables`).
-/

namespace CryptoZaloBot

namespace Commands

open Portfolio (DecimalText TradeSide decimalPattern utf16Length)
open PriceAlerts (AlertDirection)

/-! ### What a command asks for -/

/-- **A parsed command**, with the arguments its type has. -/
inductive ParsedCommand where
  | price (symbols : List String)
  | topMarkets
  | help
  | subscribe (symbols : List String)
  | unsubscribe
  /-- Without symbols the watchlist is shown, otherwise it is set. -/
  | watchlist (symbols : List String)
  | alertCreate (symbol : String) (direction : AlertDirection) (threshold : ℚ)
  | alertList
  /-- The index counts from 1 in the chat's list. -/
  | alertDelete (index : ℕ)
  | alertInvalid
  | portfolioView
  | portfolioTrade (symbol : String) (side : TradeSide) (quantity : DecimalText) (priceUsd : ℚ)
  | portfolioHistory (page : ℕ)
  | portfolioDelete (index : ℕ)
  /-- Confirmed only by `/danhmuc xoahet xacnhan`. -/
  | portfolioClear (confirmed : Bool)
  | portfolioInvalid
  /-- Without a symbol, the whole watchlist. -/
  | signalView (symbol : Option String)
  | signalBacktest (symbol : String)
  | signalStats
  | signalToggle (enabled : Bool)
  | signalInvalid
  | unknown
  deriving DecidableEq

/-- The symbols a command carries. -/
def ParsedCommand.symbols : ParsedCommand → List String
  | price symbols | subscribe symbols | watchlist symbols => symbols
  | alertCreate symbol _ _ | portfolioTrade symbol _ _ _ | signalBacktest symbol => [symbol]
  | signalView symbol => symbol.toList
  | _ => []

/-! ### Words -/

def priceCommandAliases : List String := ["gia", "g\u00eda", "gi\u00e1", "price"]
def helpCommandAliases : List String := ["help", "start", "trogiup", "tr\u1ee3gi\u00fap"]
def subscribeCommandAliases : List String := ["dangky", "subscribe"]
def unsubscribeCommandAliases : List String := ["huy", "huydangky", "unsubscribe"]
def watchlistCommandAliases : List String := ["watchlist", "danhsach", "ds"]
def alertCommandAliases : List String := ["canhbao", "alert"]
def alertDeleteKeywords : List String := ["xoa", "delete"]
def portfolioCommandAliases : List String := ["danhmuc", "portfolio"]
def signalCommandAliases : List String := ["tinhieu", "signal", "signals"]
def signalBacktestKeywords : List String := ["backtest"]
def signalStatsKeywords : List String := ["thongke"]
def signalOffKeywords : List String := ["tat"]
def signalOnKeywords : List String := ["bat"]

/-- Slips of the keywords that must show the syntax, not be read as a coin. -/
def signalKeywordTypos : List String :=
  ["tatt", "batt", "thongk", "thongkee", "backtes", "bactest", "backtst"]

def portfolioBuyKeywords : List String := ["mua", "buy"]
def portfolioSellKeywords : List String := ["ban", "sell"]
def portfolioHistoryKeywords : List String := ["lichsu", "history"]
def portfolioDeleteKeywords : List String := ["xoa", "delete"]
def portfolioClearKeywords : List String := ["xoahet", "clear"]
def portfolioConfirmKeywords : List String := ["xacnhan", "confirm"]

/-- Max length of a coin symbol in `/canhbao` and `/tinhieu`. -/
def maxAlertSymbolLength : ℕ := 20

/-- Longest coin symbol stored. -/
def maxPortfolioSymbolLength : ℕ := 20

/-- Upper bound of a price, inclusive. -/
def maxAlertThreshold : ℚ := 10 ^ 12

def maxThresholdDecimals : ℕ := 8

/-- Largest quantity accepted in one trade. -/
def maxQuantity : ℚ := 10 ^ 12

/-! ### Texts -/

/-- **The tables of Unicode**: the case mappings and the canonical decomposition. -/
structure UnicodeTables extends Prices.Casing where
  /-- `s.normalize('NFD')`. -/
  nfd : String → String

def isCombiningMark (c : Char) : Bool := 0x300 ≤ c.toNat && c.toNat ≤ 0x36f

/-- The letter `đ` does not decompose. -/
def replaceDj (c : Char) : Char :=
  if c = '\u0111' then 'd' else if c = '\u0110' then 'D' else c

/-- The words of a text. The pieces between two spaces next to each other are empty and are
filtered out, so that it is enough to split at every single one. -/
def words (text : String) : List String :=
  (((text.toList.splitOnP Prices.isTrimmed).map String.ofList).map Prices.trim).filter (· ≠ "")

/-- `/^[a-z0-9]+$/`. -/
def symbolPattern (s : String) : Bool :=
  s ≠ "" && s.toList.all fun c => c.isLower || c.isDigit

variable (tables : UnicodeTables)

/-- Removes Vietnamese diacritics, so that `/giá` and `/gia` are the same command. -/
def stripDiacritics (value : String) : String :=
  String.ofList (((tables.nfd value).toList.filter fun c => !isCombiningMark c).map replaceDj)

/-- `this.stripDiacritics(arg.toLowerCase())`. -/
def fold (arg : String) : String := stripDiacritics tables (tables.toLowerCase arg)

/-- Normalizes symbol words, which may also be separated by commas. -/
def parseSymbols (rawSymbols : List String) : List String :=
  unique (((rawSymbols.flatMap fun token => (token.toList.splitOn ',').map String.ofList).map
    Prices.trim |>.filter (· ≠ "")).map (fold tables))

/-! ### Numbers -/

/-- `\d+`. -/
def isDigits (cs : List Char) : Bool := !cs.isEmpty && cs.all Char.isDigit

/-- `(,\d{3})*`. -/
def commaGroups : List Char → Bool
  | [] => true
  | ',' :: a :: b :: c :: cs => a.isDigit && b.isDigit && c.isDigit && commaGroups cs
  | _ => false

/-- `[1-9]\d{0,2}(,\d{3})+`. A grouped number can't start with `0`. -/
def groupedPattern (cs : List Char) : Bool :=
  let first := cs.takeWhile Char.isDigit
  let groups := cs.dropWhile Char.isDigit
  !first.isEmpty && first.head? ≠ some '0' && first.length ≤ 3 && !groups.isEmpty &&
    commaGroups groups

/-- `/^(\d+|[1-9]\d{0,2}(,\d{3})+)(\.\d+)?$/`. -/
def positiveNumberPattern (cs : List Char) : Bool :=
  let whole := cs.takeWhile (· ≠ '.')
  (isDigits whole || groupedPattern whole) &&
    match cs.dropWhile (· ≠ '.') with
    | [] => true
    | _ :: fraction => isDigits fraction

/-- The length of what `plain.split('.')` has after the point. -/
def decimals (plain : DecimalText) : ℕ := ((plain.text.toList.dropWhile (· ≠ '.')).drop 1).length

/-- `Number(plain)`: the nearest double. -/
def number (plain : DecimalText) : JsNumber := Binary64.ofRat plain.numeric

/-! Without its commas, a number of the pattern is a plain decimal. -/

theorem all_isDigit_of_isDigits {cs : List Char} (h : isDigits cs = true) :
    ∀ c ∈ cs, c.isDigit = true := by
  rw [isDigits, Bool.and_eq_true, List.all_eq_true] at h
  exact h.2

theorem ne_nil_of_isDigits {cs : List Char} (h : isDigits cs = true) : cs ≠ [] := by
  rintro rfl
  cases h

theorem ne_comma_of_isDigit {c : Char} (h : c.isDigit = true) : c ≠ ',' := by
  rintro rfl
  cases h

theorem filter_comma_of_digits {cs : List Char} (h : ∀ c ∈ cs, c.isDigit = true) :
    cs.filter (· ≠ ',') = cs :=
  List.filter_eq_self.mpr fun c hc => by simpa using ne_comma_of_isDigit (h c hc)

/-- Groups of three digits, without the commas. -/
theorem isDigit_of_commaGroups {cs : List Char} (h : commaGroups cs = true) {c : Char}
    (hc : c ∈ cs) (hcomma : c ≠ ',') : c.isDigit = true := by
  induction cs using commaGroups.induct with
  | case1 => cases hc
  | case2 x y z cs ih =>
    simp only [commaGroups, Bool.and_eq_true] at h
    simp only [List.mem_cons] at hc
    rcases hc with rfl | rfl | rfl | rfl | hmem
    · exact absurd rfl hcomma
    · exact h.1.1.1
    · exact h.1.1.2
    · exact h.1.2
    · exact ih h.2 hmem
  | case3 cs hnil hcons => simp [commaGroups] at h

theorem isDigits_filter_of_groupedPattern {cs : List Char} (h : groupedPattern cs = true) :
    isDigits (cs.filter (· ≠ ',')) = true := by
  simp only [groupedPattern, Bool.and_eq_true, Bool.not_eq_true', decide_eq_true_eq] at h
  obtain ⟨⟨⟨⟨hfirst, -⟩, -⟩, -⟩, hgroups⟩ := h
  have hdigits : ∀ c ∈ cs.takeWhile Char.isDigit, c.isDigit = true := fun c hc =>
    List.mem_takeWhile_imp hc
  rw [isDigits, Bool.and_eq_true, List.all_eq_true]
  refine ⟨?_, fun c hc => ?_⟩
  · rw [← List.takeWhile_append_dropWhile (p := Char.isDigit) (l := cs), List.filter_append,
      filter_comma_of_digits hdigits]
    cases hwhole : cs.takeWhile Char.isDigit with
    | nil => simp [hwhole] at hfirst
    | cons c rest => rfl
  · obtain ⟨hmem, hcomma⟩ := List.mem_filter.mp hc
    rw [← List.takeWhile_append_dropWhile (p := Char.isDigit) (l := cs), List.mem_append] at hmem
    exact hmem.elim (hdigits c) fun hmem =>
      isDigit_of_commaGroups hgroups hmem (by simpa using hcomma)

theorem decimalPattern_of_isDigits {whole fraction : List Char} (hwhole : isDigits whole = true)
    (h : fraction = [] ∨ ∃ ds, fraction = '.' :: ds ∧ isDigits ds = true) :
    decimalPattern (whole ++ fraction) = true := by
  have hdigits := all_isDigit_of_isDigits hwhole
  have hne := ne_nil_of_isDigits hwhole
  refine Portfolio.decimalPattern_iff.mpr ?_
  rcases h with rfl | ⟨ds, rfl, hds⟩
  · exact ⟨⟨whole, [], hne, hdigits, List.forall_mem_nil _⟩, List.append_nil whole⟩
  · exact ⟨⟨whole, ds, hne, hdigits, all_isDigit_of_isDigits hds⟩,
      (if_neg (ne_nil_of_isDigits hds)).symm⟩

theorem decimalPattern_filter {cs : List Char} (h : positiveNumberPattern cs = true) :
    decimalPattern (String.ofList (cs.filter (· ≠ ','))).toList = true := by
  rw [String.toList_ofList, ← List.takeWhile_append_dropWhile (p := (· ≠ '.')) (l := cs),
    List.filter_append]
  rw [positiveNumberPattern, Bool.and_eq_true, Bool.or_eq_true] at h
  obtain ⟨hwhole, hfraction⟩ := h
  refine decimalPattern_of_isDigits ?_ ?_
  · rcases hwhole with hwhole | hwhole
    · rwa [filter_comma_of_digits (all_isDigit_of_isDigits hwhole)]
    · exact isDigits_filter_of_groupedPattern hwhole
  · cases hdrop : cs.dropWhile (· ≠ '.') with
    | nil => exact Or.inl rfl
    | cons c ds =>
      rw [hdrop] at hfraction
      obtain rfl : c = '.' := by
        have hhead := List.head?_dropWhile_not (fun c => decide (c ≠ '.')) cs
        rw [hdrop] at hhead
        simpa using hhead
      refine Or.inr ⟨ds, ?_, hfraction⟩
      rw [List.filter_cons_of_pos (by decide),
        filter_comma_of_digits (all_isDigit_of_isDigits hfraction)]

/-- A number the parser accepted: its double, and the decimal text it was read from. -/
structure PositiveNumber where
  value : ℚ
  plain : DecimalText

/-- `100,000` is the number 100000, written `100000`. Nothing that is not a number, not
positive, too large, or has too many decimals. -/
def parsePositiveNumber (raw : String) (maxDecimals : ℕ) (max : ℚ) : Option PositiveNumber :=
  if h : positiveNumberPattern raw.toList = true then
    let plain : DecimalText := ⟨_, decimalPattern_filter h⟩
    match number plain with
    | .finite value =>
      if maxDecimals < decimals plain ∨ value ≤ 0 ∨ max < value then none else some ⟨value, plain⟩
    -- Infinity is larger than the limit.
    | _ => none
  else none

/-- A trade number or a page: 1 to 999999. -/
def parsePositiveInteger (raw : String) : Option ℕ :=
  let digits := raw.toList
  if isDigits digits ∧ digits.length ≤ 6 ∧ 1 ≤ Decimal.value digits then
    some (Decimal.value digits)
  else none

/-! ### Arguments -/

/-- What `/^([a-z0-9]+)\s*([<>])\s*(\S+)$/` captures: no character of one part is a
character of the next. -/
def alertCreateMatch (text : String) : Option (String × AlertDirection × String) :=
  let cs := text.toList
  let isSymbol := fun c : Char => c.isLower || c.isDigit
  let symbol := cs.takeWhile isSymbol
  match (cs.dropWhile isSymbol).dropWhile Prices.isTrimmed with
  | [] => none
  | operator :: rest =>
    let threshold := rest.dropWhile Prices.isTrimmed
    if symbol.isEmpty || threshold.isEmpty || threshold.any Prices.isTrimmed then none
    else if operator = '>' then some (String.ofList symbol, .above, String.ofList threshold)
    else if operator = '<' then some (String.ofList symbol, .below, String.ofList threshold)
    else none

/-- The arguments of `/canhbao`. -/
def parseAlert (rawArgs : List String) : ParsedCommand :=
  match rawArgs.map (fold tables) with
  | [] => .alertList
  | keyword :: rest =>
    if keyword ∈ alertDeleteKeywords then
      match rest with
      | [index] =>
        let digits := index.toList
        if isDigits digits ∧ digits.length ≤ 3 ∧ 1 ≤ Decimal.value digits then
          .alertDelete (Decimal.value digits)
        else .alertInvalid
      | _ => .alertInvalid
    else
      match alertCreateMatch (" ".intercalate (keyword :: rest)) with
      | none => .alertInvalid
      | some (symbol, direction, rawThreshold) =>
        match parsePositiveNumber rawThreshold maxThresholdDecimals maxAlertThreshold with
        | none => .alertInvalid
        | some threshold =>
          if maxAlertSymbolLength < utf16Length symbol then .alertInvalid
          else .alertCreate symbol direction threshold.value

/-- A coin that `/tinhieu` can be asked about. -/
def validSymbol (symbol : String) : Bool :=
  symbolPattern symbol && utf16Length symbol ≤ maxAlertSymbolLength

/-- The arguments of `/tinhieu`. An argument of accents only is an empty text, and counts as
none. -/
def parseSignal (rawArgs : List String) : ParsedCommand :=
  match rawArgs.map (fold tables) with
  | [] => .signalView none
  | keyword :: rest =>
    if keyword = "" then .signalView none
    else if keyword ∈ signalStatsKeywords then
      if rest = [] then .signalStats else .signalInvalid
    else if keyword ∈ signalOffKeywords ∨ keyword ∈ signalOnKeywords then
      if rest = [] then .signalToggle (keyword ∈ signalOnKeywords) else .signalInvalid
    else if keyword ∈ signalBacktestKeywords then
      match rest with
      | [symbol] => if validSymbol symbol then .signalBacktest symbol else .signalInvalid
      | _ => .signalInvalid
    else if rest = [] ∧ validSymbol keyword ∧ keyword ∉ signalKeywordTypos then
      .signalView (some keyword)
    else .signalInvalid

/-- **A trade**: coin, quantity, price. A quantity takes no comma at all, a price does. -/
def parseTrade (side : TradeSide) : List String → ParsedCommand
  | [symbol, rawQuantity, rawPrice] =>
    let quantity := if decimalPattern rawQuantity.toList then
        parsePositiveNumber rawQuantity Portfolio.maxQuantityDecimals maxQuantity
      else none
    let price := parsePositiveNumber rawPrice maxThresholdDecimals maxAlertThreshold
    match quantity, price with
    | some quantity, some price =>
      if !symbolPattern symbol || maxPortfolioSymbolLength < utf16Length symbol then
        .portfolioInvalid
      else .portfolioTrade symbol side quantity.plain price.value
    | _, _ => .portfolioInvalid
  | _ => .portfolioInvalid

/-- The arguments of `/danhmuc`. -/
def parsePortfolio (rawArgs : List String) : ParsedCommand :=
  match rawArgs.map (fold tables) with
  | [] => .portfolioView
  | keyword :: rest =>
    if keyword = "" then .portfolioView
    else if keyword ∈ portfolioBuyKeywords ∨ keyword ∈ portfolioSellKeywords then
      parseTrade (if keyword ∈ portfolioBuyKeywords then .buy else .sell) rest
    else if keyword ∈ portfolioHistoryKeywords then
      match rest with
      | [] => .portfolioHistory 1
      | [page] => (parsePositiveInteger page).elim .portfolioInvalid .portfolioHistory
      | _ => .portfolioInvalid
    else if keyword ∈ portfolioDeleteKeywords then
      match rest with
      | [index] => (parsePositiveInteger index).elim .portfolioInvalid .portfolioDelete
      | _ => .portfolioInvalid
    else if keyword ∈ portfolioClearKeywords then
      match rest with
      | [] => .portfolioClear false
      | [word] =>
        if word ∈ portfolioConfirmKeywords then .portfolioClear true else .portfolioInvalid
      | _ => .portfolioInvalid
    else .portfolioInvalid

/-! ### Messages -/

/-- **A message as a command.** -/
def parse (rawText : String) : ParsedCommand :=
  match (Prices.trim rawText).toList with
  | '/' :: text =>
    match words (String.ofList text) with
    | [] => .unknown
    | rawCommand :: rawSymbols =>
      let command := fold tables rawCommand
      if command ∈ helpCommandAliases then .help
      else if command ∈ unsubscribeCommandAliases then .unsubscribe
      else if command ∈ subscribeCommandAliases then .subscribe (parseSymbols tables rawSymbols)
      else if command ∈ watchlistCommandAliases then .watchlist (parseSymbols tables rawSymbols)
      else if command ∈ alertCommandAliases then parseAlert tables rawSymbols
      else if command ∈ portfolioCommandAliases then parsePortfolio tables rawSymbols
      else if command ∈ signalCommandAliases then parseSignal tables rawSymbols
      else if tables.toLowerCase rawCommand ∉ priceCommandAliases ∧ command ≠ "gia" then .unknown
      else if rawSymbols = [] then .topMarkets
      else .price (parseSymbols tables rawSymbols)
  | _ => .unknown

end Commands

end CryptoZaloBot
