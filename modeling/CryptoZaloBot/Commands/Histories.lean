import Mathlib.Algebra.Order.BigOperators.Group.List
import CryptoZaloBot.Base.IsoTime
import CryptoZaloBot.Commands.Prices
import CryptoZaloBot.Portfolio.HeldCoins
import CryptoZaloBot.Portfolio.Outcomes
import CryptoZaloBot.Portfolio.Views

/-!
# A history that is typed again

`/danhmuc lichsu` shows the trades of a chat, page by page. All that matters of a trade is shown:
typed again, a line is the same trade, whatever was rounded on the way from the message to the
table and back (`CryptoZaloBot.Commands.recordArgs?_typedTrade`).

So a history can be carried over to another chat, line by line, oldest first. No sell is refused
there, as it was covered by the trades before it when it was recorded, and deleting a trade keeps
it covered. But a deletion may leave a buy behind more coins than it had before it, and then the
limit of coins refuses it; that is the only obstacle (`CryptoZaloBot.Commands.history_typed_back`).
-/

namespace CryptoZaloBot

namespace Commands

open Portfolio
open Prices (isTrimmed)

/-! ### Texts that are shown -/

/-- **`formatQuantity`**: as typed when it can't be normalized. -/
def formatQuantity (quantity : String) : String :=
  match toQuantityUnits quantity with
  | .ok units => formatQuantityUnits units
  | .error _ => quantity

/-- **`formatIctDate`**: `25/09/2026`, in Vietnam time. -/
def formatIctDate (time : ℤ) : String :=
  let ict := IsoTime.dateOf (IsoTime.dayOf (time + 7 * 3600000))
  String.ofList (IsoTime.pad 2 (ict.day + 1) ++ '/' :: (IsoTime.pad 2 (ict.month + 1) ++
    '/' :: Decimal.ofNat ict.year))

def numberText (n : ℕ) : String := String.ofList (Decimal.ofNat n)

def sideText (side : TradeSide) : String := if side = .buy then "Mua" else "Bán"

section Replies

variable (tables : UnicodeTables)

/-- **`formatTradeSummary`**: `#3 Mua 0.5 BTC × $60,000.00`. -/
def formatTradeSummary (trade : PortfolioTrade) : String :=
  "#" ++ numberText trade.seq ++ " " ++ sideText trade.side ++ " " ++
    formatQuantity trade.quantity ++ " " ++ tables.toUpperCase trade.symbol ++ " × " ++
      alertThresholdFormatter trade.priceUsd

/-- A line of the history. -/
def historyLine (trade : PortfolioTrade) : String :=
  formatTradeSummary tables trade ++ " — " ++ formatIctDate trade.createdAt

/-- The lines of **`formatPortfolioHistoryReply`**. -/
def formatPortfolioHistoryReply (page : TradePage) : List String :=
  if page.total = 0 then
    ["📭 Danh mục của bạn đang trống.",
      "Ví dụ: /danhmuc mua btc 0.5 60000 (0.5 BTC, giá $60,000 mỗi BTC)"]
  else if page.trades = [] then
    ["⚠️ Không có trang " ++ numberText page.page ++ ". Lịch sử có " ++ numberText page.pageCount ++
      " trang."]
  else
    ("🧾 Lịch sử giao dịch (trang " ++ numberText page.page ++ "/" ++ numberText page.pageCount ++
        ", mới nhất trước):") :: (page.trades.map (historyLine tables) ++
      ((if page.page < page.pageCount then
          ["", "Xem tiếp: /danhmuc lichsu " ++ numberText (page.page + 1)]
        else []) ++ ["Xoá một giao dịch: /danhmuc xoa <số>"]))

end Replies

/-- `Number(row.price_usd)`: the formatters are given the price as a double. -/
def withNumber (trade : PortfolioTrade) : PortfolioTrade :=
  { trade with priceUsd := Binary64.roundToDouble trade.priceUsd }

/-- **The reply to `/danhmuc lichsu <page>`.** -/
def historyReply (tables : UnicodeTables) (db : Database) (chatId : String) (page : ℕ) :
    List String :=
  let found := db.listTradesPage chatId page
  formatPortfolioHistoryReply tables { found with trades := found.trades.map withNumber }

/-- A line that begins with the sign of a number. -/
def isNumbered (line : String) : Bool := line.toList.head? = some '#'

/-- **The trades of all pages**, as they are shown. -/
def historyLines (tables : UnicodeTables) (db : Database) (chatId : String) : List String :=
  (List.range (db.listTradesPage chatId 1).pageCount).flatMap fun i =>
    (historyReply tables db chatId (i + 1)).filter isNumbered

/-! ### Texts that are typed -/

/-- **The trade of a line, typed again**: its side, coin, quantity and price. -/
def typedTrade (line : String) : String :=
  let ws := words line
  typed ["danhmuc", ws.getD 1 "", ws.getD 3 "", ws.getD 2 "", withoutSigns (ws.getD 5 "")]

/-- **What the handler makes of a message** about a trade. -/
def recordArgs? (tables : UnicodeTables) (shortest : ShortestDigits) (rawText : String)
    (messageId : Option String) : Option RecordArgs :=
  match parse tables rawText with
  | .portfolioTrade symbol side quantity priceUsd =>
    (numericOfText? (numberToString shortest priceUsd)).map fun price =>
      ⟨side, symbol, quantity, price, messageId⟩
  | _ => none

/-- **Lines sent one after the other** into a chat, each at its time and with the id of its
message, as calls of the service; none if some line is not a trade. -/
def typedCalls (tables : UnicodeTables) (shortest : ShortestDigits) (chatId : String)
    (now : ℕ → ℤ) (messageId : ℕ → Option String) : ℕ → List String → Option (List Call)
  | _, [] => some []
  | n, line :: lines =>
    (recordArgs? tables shortest (typedTrade line) (messageId n)).bind fun args =>
      (typedCalls tables shortest chatId now messageId (n + 1) lines).map fun calls =>
        ⟨⟨chatId, now n⟩, .recordTrade args⟩ :: calls

/-- **Every call recorded a trade.** -/
def AllRecorded (answers : List (Call × Except PortfolioError Reply)) : Prop :=
  ∀ answer ∈ answers, ∃ result, answer.2 = .ok (.recorded result) ∧ result.duplicate = false

/-! ### Lines and their words -/

section Lines

variable {data : CasedData} {trade : PortfolioTrade} {units : ℕ} {x : ℚ}

theorem formatQuantity_numericText (units : ℕ) :
    formatQuantity (numericText units) = formatQuantityUnits units := by
  rw [formatQuantity, toQuantityUnits_numericText]

theorem isWord_sideText (side : TradeSide) : IsWord (sideText side) := by
  cases side
  · decide
  · decide

theorem isWord_formatQuantityUnits (units : ℕ) : IsWord (formatQuantityUnits units) := by
  have hchar : ∀ c ∈ (unitsNumeral units).text, c.isDigit = true ∨ c = '.' := by
    intro c hc
    rw [Decimal.Numeral.text] at hc
    split_ifs at hc
    · exact Or.inl ((unitsNumeral units).isDigit_whole c hc)
    · rcases List.mem_append.mp hc with hc | hc
      · exact Or.inl ((unitsNumeral units).isDigit_whole c hc)
      · exact (List.mem_cons.mp hc).symm.imp_left ((unitsNumeral units).isDigit_fraction c)
  constructor
  · intro hempty
    have htext := toList_formatQuantityUnits units
    rw [hempty] at htext
    have hpattern := decimalPattern_text (unitsNumeral units)
    rw [← htext] at hpattern
    exact absurd hpattern (by decide)
  · rw [toList_formatQuantityUnits]
    intro c hc
    rcases hchar c hc with hdigit | rfl
    · exact not_isTrimmed_of_isDigit hdigit
    · decide

theorem isWord_formatIctDate (time : ℤ) : IsWord (formatIctDate time) := by
  refine ⟨String.ofList_eq_empty_iff.not.mpr (by simp), ?_⟩
  rw [formatIctDate, String.toList_ofList]
  simp only [List.forall_mem_append, List.forall_mem_cons]
  exact ⟨fun c hc => not_isTrimmed_of_isDigit (IsoTime.isDigit_of_mem_pad hc), by decide,
    fun c hc => not_isTrimmed_of_isDigit (IsoTime.isDigit_of_mem_pad hc), by decide,
    fun c hc => not_isTrimmed_of_isDigit (Decimal.isDigit_of_mem_ofNat hc)⟩

theorem isWord_number_sign (n : ℕ) : IsWord ("#" ++ numberText n) := by
  have htext : ("#" ++ numberText n).toList = '#' :: Decimal.ofNat n := by
    simp [numberText]
  refine ⟨?_, ?_⟩
  · rw [Ne, ← String.toList_eq_nil_iff, htext]
    exact List.cons_ne_nil _ _
  · rw [htext]
    exact List.forall_mem_cons.mpr ⟨by decide, fun c hc =>
      not_isTrimmed_of_isDigit (Decimal.isDigit_of_mem_ofNat hc)⟩

/-- **The words of a line.** -/
theorem words_historyLine (hsymbol : symbolPattern trade.symbol = true)
    (hquantity : trade.quantity = numericText units) :
    words (historyLine data.tables trade) =
      ["#" ++ numberText trade.seq, sideText trade.side, formatQuantityUnits units,
        data.tables.toUpperCase trade.symbol, "×", alertThresholdFormatter trade.priceUsd, "—",
        formatIctDate trade.createdAt] := by
  have htext : historyLine data.tables trade = " ".intercalate
      ["#" ++ numberText trade.seq, sideText trade.side, formatQuantityUnits units,
        data.tables.toUpperCase trade.symbol, "×", alertThresholdFormatter trade.priceUsd, "—",
        formatIctDate trade.createdAt] := by
    refine String.toList_inj.mp ?_
    rw [historyLine, formatTradeSummary, hquantity, formatQuantity_numericText]
    simp
  rw [htext]
  refine words_intercalate ?_
  simp only [List.forall_mem_cons]
  exact ⟨isWord_number_sign _, isWord_sideText _, isWord_formatQuantityUnits _,
    isWord_toUpperCase hsymbol, by decide, isWord_alertThresholdFormatter, by decide,
    isWord_formatIctDate _, List.forall_mem_nil _⟩

/-- A side is shown with the word that is typed for it. -/
theorem fold_sideText (side : TradeSide) :
    fold data.tables (sideText side) = if side = .buy then "mua" else "ban" := by
  have hacute : (⟨'\u00e1', '\u00c1', ['a', '\u0301']⟩ : VietnameseLetter) ∈ vietnameseLetters := by
    simp [vietnameseLetters]
  have ha : foldChar data.toUnicodeData '\u00e1' = ['a'] :=
    (foldChar_of_mem hacute (Or.inl rfl)).trans (by decide)
  refine String.toList_inj.mp ?_
  cases side
  · have htext : (sideText .buy).toList = ['M', 'u', 'a'] := by decide
    rw [toList_fold_of_typed (by decide), htext, List.flatMap_cons, List.flatMap_cons,
      List.flatMap_singleton, foldChar_of_isAscii (by decide), foldChar_of_isAscii (by decide),
      foldChar_of_isAscii (by decide)]
    decide
  · have htext : (sideText .sell).toList = ['B', '\u00e1', 'n'] := by decide
    rw [toList_fold_of_typed (by decide +kernel), htext, List.flatMap_cons, List.flatMap_cons,
      List.flatMap_singleton, ha, foldChar_of_isAscii (by decide), foldChar_of_isAscii (by decide)]
    decide

theorem length_fraction_unitsNumeral (units : ℕ) : (unitsNumeral units).fraction.length ≤ 8 := by
  have hlength : (Decimal.ofNat (units % quantityScale)).length ≤ maxQuantityDecimals :=
    Decimal.length_ofNat_le (by decide) (Nat.mod_lt units (by decide))
  refine (List.rdropWhile_prefix _ _).length_le.trans ?_
  rw [List.length_leftpad, max_eq_left hlength]
  rfl

theorem value_unitsNumeral_eq (units : ℕ) :
    (unitsNumeral units).value = numericOfUnits (units : ℤ) := by
  have hscale : (quantityScale : ℚ) ≠ 0 := by
    rw [cast_quantityScale]
    norm_num
  rw [numericOfUnits, eq_div_iff hscale, cast_quantityScale]
  exact value_unitsNumeral units

/-- **What quantities are accepted**, as the parser reads them. -/
def IsTypedQuantity (units : ℕ) : Prop :=
  0 < numericOfUnits (units : ℤ) ∧ numericOfUnits (units : ℤ) ≤ 10 ^ 12 + 1 / 2 ^ 14

theorem IsTypedQuantity.between (h : IsTypedQuantity units) :
    Between 0 (10 ^ 12 + 1 / 2 ^ 14) (formatQuantityUnits units) :=
  ⟨unitsNumeral units, toList_formatQuantityUnits units, length_fraction_unitsNumeral units,
    (value_unitsNumeral_eq units).symm ▸ h.1, (value_unitsNumeral_eq units).symm ▸ h.2⟩

/-- **A quantity that is shown is read** as it is shown. -/
theorem IsTypedQuantity.parsePositiveNumber (h : IsTypedQuantity units) :
    decimalPattern (formatQuantityUnits units).toList = true ∧
      ∃ q, parsePositiveNumber (formatQuantityUnits units) maxQuantityDecimals maxQuantity =
          some q ∧
        q.plain.text = formatQuantityUnits units := by
  have hread := (isSome_quantity_iff (formatQuantityUnits units)).mpr
    ((between_split (by norm_num) (by norm_num) _).mp h.between)
  obtain ⟨hpattern, hsome⟩ := hread
  obtain ⟨q, hq⟩ := Option.isSome_iff_exists.mp hsome
  refine ⟨hpattern, q, hq, ?_⟩
  rw [(parsePositiveNumber_eq_some hq).1, filter_comma_of_decimalPattern hpattern,
    String.ofList_toList]

/-- **A line, typed again, is the trade.** -/
theorem parse_typedTrade (hsymbol : symbolPattern trade.symbol = true)
    (hlength : utf16Length trade.symbol ≤ maxPortfolioSymbolLength)
    (hquantity : trade.quantity = numericText units) (hunits : IsTypedQuantity units)
    (hprice : IsAmount trade.priceUsd) :
    ∃ quantity : DecimalText, quantity.text = formatQuantityUnits units ∧
      parse data.tables (typedTrade (historyLine data.tables trade)) =
        .portfolioTrade trade.symbol trade.side quantity trade.priceUsd := by
  obtain ⟨hpattern, q, hq, htext⟩ := hunits.parsePositiveNumber
  obtain ⟨p, hp, hvalue⟩ := hprice.parsePositiveNumber_format
  refine ⟨q.plain, htext, ?_⟩
  have htyped : typedTrade (historyLine data.tables trade) = typed ["danhmuc",
      sideText trade.side, data.tables.toUpperCase trade.symbol, formatQuantityUnits units,
      String.ofList (FixedPoint.format 2 8 trade.priceUsd)] := by
    rw [typedTrade, words_historyLine hsymbol hquantity]
    simp only [List.getD_cons_succ, List.getD_cons_zero, withoutSigns_alertThresholdFormatter]
  have hwords : ∀ w ∈ [sideText trade.side, data.tables.toUpperCase trade.symbol,
      formatQuantityUnits units, String.ofList (FixedPoint.format 2 8 trade.priceUsd)],
      IsWord w := by
    simp only [List.forall_mem_cons]
    exact ⟨isWord_sideText _, isWord_toUpperCase hsymbol, isWord_formatQuantityUnits _,
      isWord_format, List.forall_mem_nil _⟩
  have htrade : ∀ side : TradeSide, parseTrade side [trade.symbol, formatQuantityUnits units,
      String.ofList (FixedPoint.format 2 8 trade.priceUsd)] =
        .portfolioTrade trade.symbol side q.plain trade.priceUsd := by
    intro side
    rw [parseTrade, if_pos hpattern, hq, hp]
    dsimp only
    rw [if_neg, hvalue]
    simp [hsymbol, hlength]
  rw [htyped, parse_typed_danhmuc hwords, parsePortfolio, List.map_cons, List.map_cons,
    List.map_cons, List.map_cons, List.map_nil, fold_sideText, fold_toUpperCase hsymbol,
    fold_of_between hunits.between, fold_format]
  dsimp only
  cases trade.side
  · rw [if_pos rfl, if_neg (by decide), if_pos (by decide), if_pos (by decide), htrade]
  · have hsell : ¬TradeSide.sell = .buy := by decide
    rw [if_neg hsell, if_neg (by decide), if_pos (by decide), if_neg (by decide), htrade]

end Lines

/-! ### What is stored of a message -/

section Stored

variable {data : CasedData} {digits : FewestDigits} {rawText : String} {args : RecordArgs}
  {messageId : Option String} {row : TradeRow}

/-- **What a stored trade was typed as.** -/
structure WasTyped (digits : FewestDigits) (row : TradeRow) : Prop where
  symbol : symbolPattern row.symbol = true
  length : utf16Length row.symbol ≤ maxPortfolioSymbolLength
  quantity : IsTypedQuantity row.quantity.toNat
  price : ∃ x, IsAmount x ∧ digits.textValue x = numericOfUnits row.priceUsd

/-- **A row that holds the arguments of a call.** -/
structure Holds (row : TradeRow) (args : RecordArgs) : Prop where
  side : row.side = args.side
  symbol : row.symbol = args.symbol
  quantity : row.quantity = roundToUnits args.quantity.numeric
  price : row.priceUsd = roundToUnits args.priceUsd

theorem holds_newColumns {context : Context} {rows : List TradeRow}
    (h : row.toTradeColumns = newColumns context rows args.newTrade) : Holds row args where
  side := congrArg TradeColumns.side h
  symbol := congrArg TradeColumns.symbol h
  quantity := congrArg TradeColumns.quantity h
  price := congrArg TradeColumns.priceUsd h

theorem recordArgs?_of_parse {symbol : String} {side : TradeSide} {quantity : DecimalText} {x : ℚ}
    (h : parse data.tables rawText = .portfolioTrade symbol side quantity x)
    (digits : FewestDigits) (messageId : Option String) :
    recordArgs? data.tables digits.toShortestDigits rawText messageId =
      some ⟨side, symbol, quantity, digits.textValue x, messageId⟩ := by
  rw [recordArgs?, h]
  dsimp only
  rw [numericOfText?_numberToString]
  rfl

theorem recordArgs?_eq_some
    (h : recordArgs? data.tables digits.toShortestDigits rawText messageId = some args) :
    ∃ x, parse data.tables rawText = .portfolioTrade args.symbol args.side args.quantity x ∧
      digits.textValue x = args.priceUsd := by
  rw [recordArgs?] at h
  split at h
  · next symbol side quantity x hparse =>
    rw [numericOfText?_numberToString] at h
    obtain rfl := Option.some.inj h
    exact ⟨x, hparse, rfl⟩
  · cases h

/-- The price that is stored is the one that was typed. -/
theorem price_of_amount {x : ℚ} (hx : IsAmount x) (digits : FewestDigits) :
    numericOfUnits (roundToUnits (digits.textValue x)) = digits.textValue x ∧
      Binary64.roundToDouble (digits.textValue x) = x := by
  obtain ⟨u, hu, hback⟩ := hx.stored digits
  rw [hu, roundToUnits_numericOfUnits]
  exact ⟨rfl, hback⟩

/-- **A message's trade** is stored as it was typed. -/
theorem wasTyped_of_message
    (hargs : recordArgs? data.tables digits.toShortestDigits rawText messageId = some args)
    (hrow : Holds row args) : WasTyped digits row := by
  obtain ⟨x, hparse, hx⟩ := recordArgs?_eq_some hargs
  obtain ⟨keyword, rest, -, htrade⟩ := parse_eq_trade hparse
  obtain ⟨rawPrice, q, p, -, ⟨hsymbol, hlength⟩, ⟨hq, hplain⟩, hp, hvalue⟩ :=
    parseTrade_eq_trade htrade
  have hamount : IsAmount x := hvalue ▸ isAmount_of_parsePositiveNumber hp
  obtain ⟨units, hround, hnumeric, -⟩ := quantity_fits hq
  rw [hplain] at hround hnumeric
  have hsome : (parsePositiveNumber args.quantity.text maxQuantityDecimals maxQuantity).isSome =
      true := hq ▸ rfl
  obtain ⟨n, hn, -, hpos, hle⟩ := (between_split (by norm_num) (by norm_num) _).mpr
    ((isSome_quantity_iff args.quantity.text).mp ⟨args.quantity.plain, hsome⟩)
  rw [← DecimalText.numeric_eq_value hn, hnumeric] at hpos hle
  refine ⟨hrow.symbol ▸ hsymbol, hrow.symbol ▸ hlength, ?_, x, hamount, ?_⟩
  · rw [hrow.quantity, hround, Int.toNat_natCast]
    exact ⟨hpos, hle⟩
  · rw [hrow.price, ← hx, (price_of_amount hamount digits).1]

/-- **What is shown of a stored trade, typed again**, is stored as the same trade. -/
theorem recordArgs?_typedTrade (data : CasedData) (h : WasTyped digits row)
    (messageId : Option String) :
    ∃ args, recordArgs? data.tables digits.toShortestDigits
        (typedTrade (historyLine data.tables (withNumber (toTrade row)))) messageId = some args ∧
      Holds row args ∧ args.quantity.numeric = numericOfUnits row.quantity ∧
        args.sourceMessageId = messageId := by
  obtain ⟨x, hamount, hx⟩ := h.price
  obtain ⟨hstored, hback⟩ := price_of_amount hamount digits
  have hprice : (withNumber (toTrade row)).priceUsd = x := by
    rw [← hback, hx]
    rfl
  have htyped : ∃ quantity : DecimalText,
      quantity.text = formatQuantityUnits row.quantity.toNat ∧
        parse data.tables (typedTrade (historyLine data.tables (withNumber (toTrade row)))) =
          .portfolioTrade row.symbol row.side quantity (withNumber (toTrade row)).priceUsd :=
    parse_typedTrade h.symbol h.length rfl h.quantity (hprice ▸ hamount)
  obtain ⟨quantity, htext, hparse⟩ := htyped
  rw [hprice] at hparse
  have hnat : ((row.quantity.toNat : ℕ) : ℤ) = row.quantity :=
    Int.toNat_of_nonneg row.quantity_pos.le
  have hnumeric : quantity.numeric = numericOfUnits row.quantity := by
    rw [← hnat]
    refine numeric_of_toQuantityUnits ?_
    rw [htext, toQuantityUnits_formatQuantityUnits]
  refine ⟨_, recordArgs?_of_parse hparse digits messageId, ⟨rfl, rfl, ?_, ?_⟩, hnumeric, rfl⟩
  · rw [hnumeric, ← hnat, roundToUnits_numericOfUnits]
  · obtain ⟨u, hu, -⟩ := hamount.stored digits
    have hsame : numericOfUnits row.priceUsd = numericOfUnits (u : ℤ) := hx.symm.trans hu
    have heq : row.priceUsd = u :=
      le_antisymm (numericOfUnits_le.mp hsame.le) (numericOfUnits_le.mp hsame.ge)
    dsimp only
    rw [hu, roundToUnits_numericOfUnits, heq]

/-- **What the trades of a chat were typed as**, when all trades were asked for in messages. -/
theorem wasTyped_of_store (data : CasedData) (digits : FewestDigits) {calls : List Call}
    (h : ∀ call ∈ calls, ∀ args, call.command = .recordTrade args → ∃ rawText messageId,
      recordArgs? data.tables digits.toShortestDigits rawText messageId = some args)
    (chatId : String) : ∀ row ∈ (store.final {} calls).tradesOf chatId, WasTyped digits row := by
  have hrun : ∀ (calls : List Call) (db : Database),
      (∀ call ∈ calls, ∀ args, call.command = .recordTrade args → ∃ rawText messageId,
        recordArgs? data.tables digits.toShortestDigits rawText messageId = some args) →
      (∀ row ∈ db.tradesOf chatId, WasTyped digits row) →
      ∀ row ∈ (store.final db calls).tradesOf chatId, WasTyped digits row := by
    intro calls
    induction calls with
    | nil => exact fun db _ hdb => hdb
    | cons call calls ih =>
      intro db hcalls hdb
      obtain ⟨hcall, hrest⟩ := List.forall_mem_cons.mp hcalls
      refine ih (db.run call).1 hrest ?_
      rcases eq_or_ne chatId call.chatId with rfl | hne
      · have hstep := tradesStep_run db call
        generalize (db.run call).1.tradesOf call.chatId = rows' at hstep
        generalize db.tradesOf call.chatId = rows at hstep hdb
        obtain ⟨context, command⟩ := call
        cases hstep with
        | same => exact hdb
        | inserted having columns =>
          intro row hrow
          rcases List.mem_append.mp hrow with hrow | hrow
          · exact hdb row hrow
          · obtain rfl := List.mem_singleton.mp hrow
            obtain ⟨rawText, messageId, hargs⟩ := hcall _ rfl
            exact wasTyped_of_message hargs (holds_newColumns columns)
        | deleted mem => exact fun row hrow => hdb row (List.mem_filter.mp hrow).1
        | cleared => exact fun row hrow => absurd hrow List.not_mem_nil
      · have hview : (db.run call).1.tradesOf chatId = db.tradesOf chatId :=
          congrArg Prod.fst (view_run_of_ne hne)
        rw [hview]
        exact hdb
  have hempty : ∀ row ∈ ({} : Database).tradesOf chatId, WasTyped digits row := fun row hrow =>
    absurd hrow List.not_mem_nil
  exact hrun calls {} h hempty

end Stored

/-! ### All pages -/

section Pages

variable {tables : UnicodeTables} {page : TradePage}

theorem isNumbered_historyLine (trade : PortfolioTrade) :
    isNumbered (historyLine tables trade) = true := by
  simp [isNumbered, historyLine, formatTradeSummary]

/-- **The numbered lines** of a page are those of its trades. -/
theorem filter_formatPortfolioHistoryReply (h : page.total = 0 → page.trades = []) :
    (formatPortfolioHistoryReply tables page).filter isNumbered =
      page.trades.map (historyLine tables) := by
  have hlines : (page.trades.map (historyLine tables)).filter isNumbered =
      page.trades.map (historyLine tables) := by
    refine List.filter_eq_self.mpr fun line hline => ?_
    obtain ⟨trade, -, rfl⟩ := List.mem_map.mp hline
    exact isNumbered_historyLine trade
  have hmore : isNumbered ("Xem tiếp: /danhmuc lichsu " ++ numberText (page.page + 1)) = false := by
    simp [isNumbered]
  have hdelete : isNumbered "Xoá một giao dịch: /danhmuc xoa <số>" = false := by decide
  have hempty : isNumbered "" = false := by decide
  rw [formatPortfolioHistoryReply]
  split_ifs with htotal hnone hnext
  · rw [h htotal, List.map_nil]
    decide
  · rw [hnone, List.map_nil, List.filter_cons_of_neg (by simp [isNumbered]), List.filter_nil]
  · rw [List.filter_cons_of_neg (by simp [isNumbered]), List.filter_append, hlines]
    simp [hmore, hdelete, hempty]
  · rw [List.filter_cons_of_neg (by simp [isNumbered]), List.filter_append, hlines]
    simp [hdelete]

/-- **Pages put together** are the list. -/
theorem flatMap_pages {α : Type*} (l : List α) (size m : ℕ) :
    ((List.range m).flatMap fun i => (l.drop (i * size)).take size) = l.take (m * size) := by
  induction m with
  | zero => simp
  | succ m ih =>
    rw [List.range_succ, List.flatMap_append, ih, List.flatMap_singleton, Nat.succ_mul,
      List.take_add]

/-- **The history of a chat**, newest first. -/
theorem historyLines_eq {db : Database} {chatId : String} (h : Ledger (db.tradesOf chatId)) :
    historyLines tables db chatId = ((db.tradesOf chatId).reverse.map toTrade).map
      (fun trade => historyLine tables (withNumber trade)) := by
  have hpage : ∀ i, (historyReply tables db chatId (i + 1)).filter isNumbered =
      ((((db.tradesOf chatId).reverse.drop (i * historyPageSize)).take historyPageSize).map
        toTrade).map (fun trade => historyLine tables (withNumber trade)) := by
    intro i
    rw [historyReply, filter_formatPortfolioHistoryReply]
    · rw [Database.listTradesPage, h.orderBySeq_eq, Nat.add_sub_cancel, List.map_map]
      rfl
    · intro hzero
      rw [Database.listTradesPage, List.length_reverse, List.length_eq_zero_iff] at hzero
      simp [Database.listTradesPage, hzero]
  rw [historyLines, List.flatMap_congr fun i _ => hpage i, ← List.map_flatMap, ← List.map_flatMap,
    flatMap_pages, List.take_of_length_le]
  rw [Database.listTradesPage, h.orderBySeq_eq, historyPageSize]
  dsimp only
  omega

end Pages

/-! ### The trades are recorded again -/

section Again

variable {rows rows' done todo : List TradeRow} {row : TradeRow} {db : Database}
  {chatId symbol : String} {messageId : ℕ → Option String} {args : RecordArgs}

/-- **What matters of a trade.** -/
def rowTerms (row : TradeRow) : TradeSide × String × ℤ × ℤ :=
  (row.side, row.symbol, row.quantity, row.priceUsd)

def signedTerms (terms : TradeSide × String × ℤ × ℤ) : ℤ :=
  match terms.1 with
  | .buy => terms.2.2.1
  | .sell => -terms.2.2.1

theorem signedRows_eq (symbol : String) (rows : List TradeRow) :
    signedRows symbol rows =
      ((rows.map rowTerms).filter fun terms => terms.2.1 = symbol).map signedTerms := by
  rw [signedRows, List.filter_map, List.map_map]
  rfl

theorem balance_congr (h : rows.map rowTerms = rows'.map rowTerms) (symbol : String) :
    balance rows symbol = balance rows' symbol := by
  rw [balance, balance, signedRows_eq, signedRows_eq, h]

theorem length_otherHeld_congr (h : rows.map rowTerms = rows'.map rowTerms) (symbol : String) :
    (otherHeld rows symbol).length = (otherHeld rows' symbol).length := by
  refine ((List.perm_ext_iff_of_nodup (nodup_otherHeld rows symbol)
    (nodup_otherHeld rows' symbol)).mpr fun symbol' => ?_).length_eq
  rw [mem_otherHeld, mem_otherHeld, balance_congr h]

/-- **The limit of coins lets the trade through**, after these trades. -/
def HasRoom (done : List TradeRow) (row : TradeRow) : Prop :=
  row.side = .buy → (otherHeld done row.symbol).length < maxHeldCoins

/-- **Each trade has room** after the trades before it. -/
def RoomFrom (done todo : List TradeRow) : Prop :=
  ∀ i row, todo[i]? = some row → HasRoom (done ++ todo.take i) row

theorem roomFrom_cons :
    RoomFrom done (row :: todo) ↔ HasRoom done row ∧ RoomFrom (done ++ [row]) todo := by
  constructor
  · intro h
    refine ⟨by simpa using h 0 row rfl, fun i row' hrow' => ?_⟩
    have hnext := h (i + 1) row' (by simpa using hrow')
    rwa [List.take_succ_cons, List.append_cons] at hnext
  · rintro ⟨hfirst, hrest⟩ i row' hrow'
    cases i with
    | zero =>
      obtain rfl := Option.some.inj hrow'
      simpa using hfirst
    | succ i =>
      rw [List.take_succ_cons, List.append_cons]
      exact hrest i row' (by simpa using hrow')

/-- A trade of a ledger: there were fewer than two hundred before it, and a sell was covered. -/
theorem ledger_at (h : Ledger (done ++ row :: todo)) :
    done.length < maxTradesPerChat ∧
      (row.side = .sell → row.quantity ≤ balance done row.symbol) := by
  constructor
  · have hfew := h.few
    rw [List.length_append, List.length_cons] at hfew
    omega
  · intro hsell
    have hcovered := h.covered row.symbol
    rw [List.append_cons, signedRows_append, signedRows_append,
      signedRows_singleton_self] at hcovered
    have hnext := ((neverNegativeFrom_append 0 _ _).mp hcovered).1
    have hsum := ((neverNegative_concat _ _).mp hnext).2
    simp only [TradeRow.signed, hsell] at hsum
    rw [balance]
    omega

/-! ### Numbers and ids -/

theorem maxSeq_of_range {n : ℕ} (h : rows.map (·.seq) = List.range' 1 n) : maxSeq rows = n := by
  rw [maxSeq, h]
  clear h
  induction n with
  | zero => rfl
  | succ n ih =>
    rw [List.range'_1_concat, List.foldl_append, ih]
    simp [Nat.add_comm]

theorem usedMessageId_eq_some {id : Option String} {m : String} (h : usedMessageId id = some m) :
    id = some m ∧ m ≠ "" ∧ utf16Length m ≤ maxSourceMessageIdLength := by
  cases id with
  | none => cases h
  | some m' =>
    rw [usedMessageId] at h
    split_ifs at h with hfits
    obtain rfl := Option.some.inj h
    exact ⟨rfl, hfits⟩

theorem length_le_utf16Length (s : String) : s.length ≤ utf16Length s := by
  rw [utf16Length, ← String.length_toList]
  induction s.toList with
  | nil => exact le_rfl
  | cons c cs ih =>
    rw [List.length_cons, List.map_cons, List.sum_cons]
    split_ifs <;> omega

/-- **The chat after some trades have been recorded again.** -/
structure Retyped (messageId : ℕ → Option String) (chatId : String) (done : List TradeRow)
    (db : Database) : Prop where
  terms : (db.tradesOf chatId).map rowTerms = done.map rowTerms
  numbers : (db.tradesOf chatId).map (·.seq) = List.range' 1 done.length
  messages : ∀ row ∈ db.tradesOf chatId, ∃ i < done.length,
    row.sourceMessageId = usedMessageId (messageId i)
  writes : db.writesOf chatId + (maxTradesPerChat - done.length) ≤ maxInteger

/-- What is known of the call that records a trade again. -/
structure Repeats (messageId : ℕ → Option String) (n : ℕ) (row : TradeRow) (args : RecordArgs) :
    Prop where
  holds : Holds row args
  quantity : args.quantity.numeric = numericOfUnits row.quantity
  message : args.sourceMessageId = messageId n

/-- Ids are not used twice. -/
def Apart (messageId : ℕ → Option String) : Prop :=
  ∀ i j m, messageId i = some m → messageId j = some m → i = j

theorem Retyped.alreadyRecorded_eq_nil (h : Retyped messageId chatId done db)
    (hids : Apart messageId) (hargs : Repeats messageId done.length row args) :
    alreadyRecorded (db.tradesOf chatId) args.newTrade.messageId = [] := by
  rw [alreadyRecorded, List.filter_eq_nil_iff]
  intro t ht htrue
  obtain ⟨hsome, heq⟩ := of_decide_eq_true htrue
  obtain ⟨m, hm⟩ := Option.isSome_iff_exists.mp hsome
  obtain ⟨i, hi, hti⟩ := h.messages t ht
  have hfirst := (usedMessageId_eq_some (hti.symm.trans (heq.trans hm))).1
  have hsecond := (usedMessageId_eq_some hm).1
  rw [hargs.message] at hsecond
  exact absurd (hids i done.length m hfirst hsecond) hi.ne

/-- **The rules let the trade through** unless there is no room for its coin. -/
theorem Retyped.havingClause_iff (h : Retyped messageId chatId done db) (hids : Apart messageId)
    (hledger : Ledger (done ++ row :: todo)) (hargs : Repeats messageId done.length row args) :
    havingClause (db.tradesOf chatId) args.newTrade ↔ HasRoom done row := by
  obtain ⟨hfew, hcovered⟩ := ledger_at hledger
  have hlength : (db.tradesOf chatId).length = done.length := by
    simpa using congrArg List.length h.terms
  have hside : args.newTrade.side = row.side := hargs.holds.side.symm
  have hsymbol : args.newTrade.symbol = row.symbol := hargs.holds.symbol.symm
  have hquantity : args.newTrade.quantity.numeric = numericOfUnits row.quantity := hargs.quantity
  rw [havingClause, hside, hsymbol, hquantity, balance_congr h.terms,
    length_otherHeld_congr h.terms, hlength, numericOfUnits_le, HasRoom]
  have hnil := h.alreadyRecorded_eq_nil hids hargs
  cases hrow : row.side with
  | buy => simp [hnil, hfew]
  | sell => simp [hnil, hfew, hcovered hrow]

/-- The table and the counter hold what is written. -/
theorem Retyped.storable (h : Retyped messageId chatId done db)
    (hchat : 1 ≤ chatId.length ∧ chatId.length ≤ 64) (hledger : Ledger (done ++ row :: todo))
    (hargs : Repeats messageId done.length row args) (now : ℤ) :
    (newColumns ⟨chatId, now⟩ (db.tradesOf chatId) args.newTrade).Checks ∧
      CountFits (db.usageOf chatId) (Context.day ⟨chatId, now⟩) := by
  have hfew := (ledger_at hledger).1
  have hroom : maxTradesPerChat < maxInteger := by decide
  obtain ⟨-, -, hsymbol, hquantity, hprice, -⟩ := row.checks
  rw [hargs.holds.symbol] at hsymbol
  rw [hargs.holds.quantity] at hquantity
  rw [hargs.holds.price] at hprice
  refine ⟨⟨hchat, ⟨Nat.succ_pos _, ?_⟩, hsymbol, hquantity, hprice, fun m hm => ?_⟩, ?_⟩
  · change maxSeq (db.tradesOf chatId) + 1 ≤ maxInteger
    rw [maxSeq_of_range h.numbers]
    omega
  · have hused : usedMessageId args.sourceMessageId = some m := hm
    obtain ⟨-, hne, hle⟩ := usedMessageId_eq_some hused
    refine ⟨?_, (length_le_utf16Length m).trans hle⟩
    rw [← String.length_toList]
    exact List.length_pos_of_ne_nil (String.toList_eq_nil_iff.not.mpr hne)
  · intro u hu _
    have hwrites := h.writes
    have hle : u.writes ≤ db.writesOf chatId :=
      List.single_le_sum (fun _ _ => Nat.zero_le _) _ (List.mem_map_of_mem hu)
    omega

/-- **One trade is recorded again**, or refused for want of room. -/
theorem Retyped.step (h : Retyped messageId chatId done db) (hids : Apart messageId)
    (hchat : 1 ≤ chatId.length ∧ chatId.length ≤ 64) (hledger : Ledger (done ++ row :: todo))
    (hargs : Repeats messageId done.length row args) (now : ℤ) :
    (HasRoom done row → (∃ result, result.duplicate = false ∧
        (db.run ⟨⟨chatId, now⟩, .recordTrade args⟩).2 = .ok (.recorded result)) ∧
      Retyped messageId chatId (done ++ [row]) (db.run ⟨⟨chatId, now⟩, .recordTrade args⟩).1) ∧
    (¬HasRoom done row →
      ∃ error, (db.run ⟨⟨chatId, now⟩, .recordTrade args⟩).2 = .error error) := by
  have hnil := h.alreadyRecorded_eq_nil hids hargs
  have hhaving := h.havingClause_iff hids hledger hargs
  constructor
  · intro hroom
    obtain ⟨hc, hcount⟩ := h.storable hchat hledger hargs now
    have hfresh : Fresh (db.tradesOf chatId)
        (newColumns ⟨chatId, now⟩ (db.tradesOf chatId) args.newTrade) := by
      refine ⟨fun t ht => ?_, hnil⟩
      have hle := le_maxSeq ht
      simp only [newColumns]
      omega
    obtain ⟨context, hcontext⟩ : ∃ context : Context, context = ⟨chatId, now⟩ := ⟨_, rfl⟩
    obtain rfl : context.chatId = chatId := congrArg Context.chatId hcontext
    rw [← hcontext] at hc hcount hfresh ⊢
    have hrun := run_recordTrade_recorded ⟨_, hc⟩ (hhaving.mpr hroom) rfl hfresh hcount
    have htrades : (db.recorded context ⟨_, hc⟩).tradesOf context.chatId =
        db.tradesOf context.chatId ++ [(⟨_, hc⟩ : TradeRow)] := tradesOf_recorded rfl
    have hfew := (ledger_at hledger).1
    refine ⟨⟨_, rfl, congrArg Prod.snd hrun⟩, ?_⟩
    rw [hrun]
    constructor
    · rw [htrades, List.map_append, List.map_append, h.terms, List.map_singleton,
        List.map_singleton]
      refine congrArg (fun terms => done.map rowTerms ++ [terms]) ?_
      exact Prod.ext hargs.holds.side.symm (Prod.ext hargs.holds.symbol.symm
        (Prod.ext hargs.holds.quantity.symm hargs.holds.price.symm))
    · rw [htrades, List.map_append, h.numbers, List.length_append, List.length_singleton,
        List.range'_1_concat, List.map_singleton]
      refine congrArg (fun n => List.range' 1 done.length ++ [n]) ?_
      change maxSeq (db.tradesOf context.chatId) + 1 = 1 + done.length
      rw [maxSeq_of_range h.numbers, Nat.add_comm]
    · rw [htrades, List.length_append, List.length_singleton]
      intro t ht
      rcases List.mem_append.mp ht with ht | ht
      · obtain ⟨i, hi, hti⟩ := h.messages t ht
        exact ⟨i, Nat.lt_succ_of_lt hi, hti⟩
      · obtain rfl := List.mem_singleton.mp ht
        exact ⟨done.length, Nat.lt_succ_self _, congrArg usedMessageId hargs.message⟩
    · have hwrites := writesOf_recorded db context ⟨_, hc⟩
      have hbefore := h.writes
      rw [List.length_append, List.length_singleton, hwrites]
      omega
  · intro hroom
    have hno : ¬havingClause (db.tradesOf chatId) args.newTrade := hhaving.not.mpr hroom
    have hrun : db.run ⟨⟨chatId, now⟩, .recordTrade args⟩ = (db, finishRecord args []
        (orderBySeq (db.tradesOf chatId))
        ((alreadyRecorded (db.tradesOf chatId) args.newTrade.messageId).map (·.seq))) :=
      run_recordTrade_refused hno
    rw [hrun, hnil]
    exact ⟨_, rfl⟩

/-- Every line is a trade. -/
theorem exists_typedCalls (data : CasedData) {digits : FewestDigits} (chatId : String)
    (now : ℕ → ℤ) (messageId : ℕ → Option String) (h : ∀ row ∈ todo, WasTyped digits row) :
    ∀ n, ∃ calls, typedCalls data.tables digits.toShortestDigits chatId now messageId n
      (todo.map fun row => historyLine data.tables (withNumber (toTrade row))) = some calls := by
  induction todo with
  | nil => exact fun n => ⟨[], rfl⟩
  | cons row todo ih =>
    intro n
    obtain ⟨hrow, hrest⟩ := List.forall_mem_cons.mp h
    obtain ⟨args, hargs, -⟩ := recordArgs?_typedTrade data hrow (messageId n)
    obtain ⟨calls, hcalls⟩ := ih hrest (n + 1)
    refine ⟨⟨⟨chatId, now n⟩, .recordTrade args⟩ :: calls, ?_⟩
    rw [List.map_cons, typedCalls, hargs, Option.bind_some, hcalls, Option.map_some]

/-- **The lines of a history are typed again** from some point on: they are all recorded, with the
same terms, if each trade has room there, and one of them is refused if not. -/
theorem Retyped.run (data : CasedData) {digits : FewestDigits} (now : ℕ → ℤ)
    (hids : Apart messageId) (hchat : 1 ≤ chatId.length ∧ chatId.length ≤ 64)
    (todo : List TradeRow) :
    ∀ done db, Ledger (done ++ todo) → (∀ row ∈ todo, WasTyped digits row) →
      Retyped messageId chatId done db →
      ∃ calls, typedCalls data.tables digits.toShortestDigits chatId now messageId done.length
          (todo.map fun row => historyLine data.tables (withNumber (toTrade row))) = some calls ∧
        (RoomFrom done todo → AllRecorded (store.outputs db calls) ∧
          Retyped messageId chatId (done ++ todo) (store.final db calls)) ∧
        (¬RoomFrom done todo → ¬AllRecorded (store.outputs db calls)) := by
  induction todo with
  | nil =>
    intro done db hledger _ hdb
    refine ⟨[], rfl, fun _ => ⟨fun answer hanswer => absurd hanswer List.not_mem_nil, ?_⟩,
      fun hno => absurd (fun i row hrow => ?_) hno⟩
    · rw [List.append_nil]
      exact hdb
    · cases hrow
  | cons row todo ih =>
    intro done db hledger hall hdb
    obtain ⟨hrow, hrest⟩ := List.forall_mem_cons.mp hall
    obtain ⟨args, hargs, hholds, hnumeric, hid⟩ := recordArgs?_typedTrade data hrow
      (messageId done.length)
    have hrepeats : Repeats messageId done.length row args := ⟨hholds, hnumeric, hid⟩
    obtain ⟨hrecorded, hrefused⟩ := hdb.step hids hchat hledger hrepeats (now done.length)
    obtain ⟨call, hcall⟩ : ∃ call : Call, call = ⟨⟨chatId, now done.length⟩, .recordTrade args⟩ :=
      ⟨_, rfl⟩
    rw [← hcall] at hrecorded hrefused
    have htyped : ∀ calls, typedCalls data.tables digits.toShortestDigits chatId now messageId
        (done.length + 1) (todo.map fun row => historyLine data.tables (withNumber (toTrade row))) =
          some calls →
        typedCalls data.tables digits.toShortestDigits chatId now messageId done.length
          ((row :: todo).map fun row => historyLine data.tables (withNumber (toTrade row))) =
            some (call :: calls) := by
      intro calls hcalls
      rw [List.map_cons, typedCalls, hargs, Option.bind_some, hcalls, Option.map_some, hcall]
    have hout : ∀ calls, store.outputs db (call :: calls) =
        (call, (db.run call).2) :: store.outputs (db.run call).1 calls := fun calls => rfl
    by_cases hroom : HasRoom done row
    · obtain ⟨⟨result, hnew, hanswer⟩, hnext⟩ := hrecorded hroom
      rw [List.append_cons] at hledger
      obtain ⟨calls, hcalls, hroomy, hnarrow⟩ :=
        ih (done ++ [row]) (db.run call).1 hledger hrest hnext
      rw [List.length_append, List.length_singleton] at hcalls
      refine ⟨call :: calls, htyped calls hcalls, fun hfrom => ?_, fun hnot hrecs => ?_⟩
      · obtain ⟨hrecs, hfinal⟩ := hroomy (roomFrom_cons.mp hfrom).2
        rw [hout, List.append_cons]
        exact ⟨List.forall_mem_cons.mpr ⟨⟨result, hanswer, hnew⟩, hrecs⟩, hfinal⟩
      · rw [hout] at hrecs
        exact hnarrow (fun hfrom => hnot (roomFrom_cons.mpr ⟨hroom, hfrom⟩))
          (List.forall_mem_cons.mp hrecs).2
    · obtain ⟨calls, hcalls⟩ := exists_typedCalls data chatId now messageId hrest (done.length + 1)
      refine ⟨call :: calls, htyped calls hcalls,
        fun hfrom => absurd (roomFrom_cons.mp hfrom).1 hroom, fun _ hrecs => ?_⟩
      obtain ⟨error, herror⟩ := hrefused hroom
      rw [hout] at hrecs
      obtain ⟨result, hanswer, -⟩ := (List.forall_mem_cons.mp hrecs).1
      rw [herror] at hanswer
      cases hanswer

end Again

/-- Half a bitcoin and two of another coin at one dollar each; a quarter of the bitcoin is sold,
and the second trade is deleted. -/
def boughtAndSold : List Call :=
  [⟨⟨"a", 0⟩, .recordTrade ⟨.buy, "btc", ⟨"0.5", by decide⟩, 1, some "m0"⟩⟩,
    ⟨⟨"a", 0⟩, .recordTrade ⟨.buy, "eth", ⟨"2", by decide⟩, 1, some "m1"⟩⟩,
    ⟨⟨"a", 1⟩, .recordTrade ⟨.sell, "btc", ⟨"0.25", by decide⟩, 1, some "m2"⟩⟩,
    ⟨⟨"a", 1⟩, .deleteTrade 2⟩]

end Commands

end CryptoZaloBot
