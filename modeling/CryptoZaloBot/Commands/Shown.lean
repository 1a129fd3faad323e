import CryptoZaloBot.Base.FixedPoint
import CryptoZaloBot.Commands.Messages
import CryptoZaloBot.Commands.Quantities
import CryptoZaloBot.Commands.Symbols
import CryptoZaloBot.PriceAlerts.Evaluator

/-!
# What is shown can be typed

The lists of alerts and trades show every number to eight decimals, grouped, after a dollar sign.
Without the sign, the words that are shown can be typed in a command, and the command means what
was shown: `/canhbao` with the words of an alert asks for the same alert
(`CryptoZaloBot.Commands.alerts_typed_back`).

A threshold is a double. It was typed with at most eight decimals, but it is not the number that
was typed, and the eight decimals that are shown of it may not be either. They read as the same
double, though, which is all that counts (`CryptoZaloBot.FixedPoint.roundToDouble_units`).
-/

namespace CryptoZaloBot

namespace Commands

open Decimal (Numeral)
open FixedPoint (groupedText grouped groups)
open Portfolio
open PriceAlerts (AlertDirection AlertState PriceAlert)
open Prices (isTrimmed lowerChar)

/-! ### Texts that are shown -/

/-- The uppercase of a letter of ASCII. -/
def upperChar (c : Char) : Char :=
  if 97 ≤ c.toNat ∧ c.toNat ≤ 122 then Char.ofNat (c.toNat - 32) else c

/-- **The tables of Unicode**, with the upper case of ASCII. -/
structure CasedData extends UnicodeData where
  upper_ascii : ∀ s : String, (∀ c ∈ s.toList, isAscii c = true) →
    (toUpperCase s).toList = s.toList.map upperChar

/-- `new Intl.NumberFormat('en-US', { style: 'currency', currency: 'USD', … })`, for amounts that
are not negative. -/
def formatCurrency (minimumFractionDigits maximumFractionDigits : ℕ) (amount : ℚ) : String :=
  String.ofList ('$' :: FixedPoint.format minimumFractionDigits maximumFractionDigits amount)

/-- **`ALERT_THRESHOLD_FORMATTER`** shows all eight decimals that `/canhbao` accepts. -/
def alertThresholdFormatter (threshold : ℚ) : String := formatCurrency 2 8 threshold

section Replies

variable (tables : UnicodeTables)

/-- **`formatAlertCondition`**: `BTC > $100,000.00`. -/
def formatAlertCondition (symbol : String) (direction : AlertDirection) (threshold : ℚ) : String :=
  tables.toUpperCase symbol ++ " " ++ (if direction = .above then ">" else "<") ++ " " ++
    alertThresholdFormatter threshold

/-- A line of `/canhbao`. -/
def alertLine (i : ℕ) (alert : PriceAlert) : String :=
  String.ofList (Decimal.ofNat (i + 1)) ++ ". " ++
    formatAlertCondition tables alert.symbol alert.direction alert.threshold ++ " — " ++
      (if alert.state = .armed then "đang canh" else "đã báo, chờ giá quay lại")

/-- The lines of **`formatAlertListReply`**. -/
def formatAlertListReply (alerts : List PriceAlert) : List String :=
  if alerts = [] then
    ["📭 Bạn chưa có cảnh báo giá nào.", "Ví dụ: /canhbao btc > 100000 hoặc /canhbao eth < 2000"]
  else
    "🔔 Cảnh báo giá của bạn:" :: alerts.mapIdx (alertLine tables) ++
      ["", "Gõ /canhbao xoa <số> để xoá."]

end Replies

/-! ### Texts that are typed -/

/-- A command with its arguments. -/
def typed (ws : List String) : String := "/" ++ " ".intercalate ws

/-- A word that was shown, as a number or a symbol is typed. -/
def withoutSigns (word : String) : String :=
  String.ofList (word.toList.filter fun c => c ≠ '$' ∧ c ≠ '#')

/-- **The alert of a line, typed back**: its condition. -/
def typedAlert (line : String) : String :=
  typed ("canhbao" :: (((words line).drop 1).take 3).map withoutSigns)

/-- Deleting the alert of a line: its number, without the point. -/
def typedAlertDelete (line : String) : String :=
  typed ["canhbao", "xoa", String.ofList (((words line).headD "").toList.filter (· ≠ '.'))]

/-- **What an alert was asked for with.** -/
def FromMessage (tables : UnicodeTables) (alert : PriceAlert) : Prop :=
  ∃ rawText, parse tables rawText = .alertCreate alert.symbol alert.direction alert.threshold

/-! ### Words put together -/

/-- **A word**: neither empty nor with white space in it. -/
def IsWord (w : String) : Prop := w ≠ "" ∧ ∀ c ∈ w.toList, isTrimmed c = false

instance (w : String) : Decidable (IsWord w) := by
  unfold IsWord
  infer_instance

theorem isWord_toList {ws : List String} (h : ∀ w ∈ ws, IsWord w) :
    ∀ w ∈ ws.map String.toList, w ≠ [] ∧ ∀ c ∈ w, isTrimmed c = false := by
  intro w hw
  obtain ⟨v, hv, rfl⟩ := List.mem_map.mp hw
  exact ⟨String.toList_eq_nil_iff.not.mpr (h v hv).1, (h v hv).2⟩

theorem map_ofList_toList (ws : List String) : (ws.map String.toList).map String.ofList = ws := by
  rw [List.map_map]
  conv_rhs => rw [← List.map_id ws]
  exact List.map_congr_left fun w _ => String.ofList_toList

/-- **Words put together** are found again. -/
theorem words_intercalate {ws : List String} (h : ∀ w ∈ ws, IsWord w) :
    words (" ".intercalate ws) = ws := by
  have hsplit : Words.splitWords isTrimmed ([' '].intercalate (ws.map String.toList)) =
      ws.map String.toList := Words.splitWords_intercalate (by decide) (isWord_toList h)
  have hspace : " ".toList = [' '] := by decide
  rw [words_eq, String.toList_intercalate, hspace, hsplit, map_ofList_toList]

theorem commandWords_typed {w : String} {ws : List String} (h : ∀ v ∈ w :: ws, IsWord v) :
    commandWords (typed (w :: ws)) = w :: ws := by
  have htext : (typed (w :: ws)).toList =
      [' '].intercalate (('/' :: w.toList) :: ws.map String.toList) := by
    rw [typed, String.toList_append, String.toList_intercalate, List.intercalate_cons_cons_left]
    rfl
  obtain ⟨hw, hws⟩ := List.forall_mem_cons.mp h
  have hsplit : Words.splitWords isTrimmed (typed (w :: ws)).toList =
      ('/' :: w.toList) :: ws.map String.toList := by
    rw [htext]
    refine Words.splitWords_intercalate (by decide)
      (List.forall_mem_cons.mpr ⟨⟨List.cons_ne_nil _ _, ?_⟩, isWord_toList hws⟩)
    exact List.forall_mem_cons.mpr ⟨by decide, hw.2⟩
  have hkept : ((w :: ws).map String.toList).filter (fun v => !v.isEmpty) =
      (w :: ws).map String.toList := by
    refine List.filter_eq_self.mpr fun v hv => ?_
    simpa using (isWord_toList h v hv).1
  rw [commandWords_of_slash hsplit, ← List.map_cons (f := String.toList), hkept, map_ofList_toList]

/-! ### Numbers -/

section Numbers

variable {n : Numeral} {maxDecimals : ℕ} {max : ℚ}

theorem commaGroups_groups {digits : List Char} (h : 3 ∣ digits.length)
    (hdigits : ∀ c ∈ digits, c.isDigit = true) : commaGroups (groups digits) = true := by
  induction digits using CryptoZaloBot.FixedPoint.groups.induct with
  | case1 a b c cs ih =>
    simp only [List.forall_mem_cons] at hdigits
    obtain ⟨ha, hb, hc, hcs⟩ := hdigits
    have hrest := ih ((Nat.dvd_add_left (dvd_refl 3)).mp h) hcs
    simp [groups, commaGroups, ha, hb, hc, hrest]
  | case2 cs hcs =>
    rw [groups.eq_2 cs hcs]
    rfl

/-- **Digits in groups** are a whole number of the pattern. -/
theorem whole_grouped {digits : List Char} (hne : digits ≠ [])
    (hdigits : ∀ c ∈ digits, c.isDigit = true) (hzero : Decimal.NoLeadingZero digits) :
    (isDigits (grouped digits) || groupedPattern (grouped digits)) = true := by
  rcases Nat.lt_or_ge 3 digits.length with hlong | hshort
  · obtain ⟨first, rest, hgrouped, hsplit, hlength, hthree, hrest⟩ :=
      FixedPoint.exists_first_group hlong
    have hfirst : ∀ c ∈ first, c.isDigit = true := fun c hc =>
      hdigits c (hsplit ▸ List.mem_append_left _ hc)
    have hcommas : commaGroups (groups rest) = true :=
      commaGroups_groups hthree fun c hc => hdigits c (hsplit ▸ List.mem_append_right _ hc)
    obtain ⟨tail, htail⟩ : ∃ tail, groups rest = ',' :: tail :=
      FixedPoint.exists_groups_eq_cons hthree hrest
    have hhead : first.head? ≠ some '0' := by
      rcases hzero with hone | hhead
      · rw [hone] at hlong
        exact absurd hlong (by decide)
      · rwa [hsplit, List.head?_append_of_ne_nil _ (List.length_pos_iff.mp hlength.1)] at hhead
    have hcomma : ¬Char.isDigit ',' = true := by decide
    have hpattern : groupedPattern (grouped digits) = true := by
      rw [groupedPattern, hgrouped, htail, List.takeWhile_append_of_pos hfirst,
        List.dropWhile_append_of_pos hfirst, List.takeWhile_cons_of_neg hcomma,
        List.dropWhile_cons_of_neg hcomma, List.append_nil, ← htail, hcommas]
      simp [hhead, hlength.2, htail, List.length_pos_iff.mp hlength.1]
    rw [hpattern, Bool.or_true]
  · rw [FixedPoint.grouped_of_le hshort, isDigits_iff.mpr ⟨hne, hdigits⟩, Bool.true_or]

theorem positiveNumberPattern_groupedText (hzero : Decimal.NoLeadingZero n.whole) :
    positiveNumberPattern (groupedText n) = true := by
  have hwhole := whole_grouped n.whole_ne_nil n.isDigit_whole hzero
  have hpoint : ∀ c ∈ grouped n.whole, decide (c ≠ '.') = true := by
    intro c hc
    rcases FixedPoint.mem_grouped hc with hc | rfl
    · exact Numeral.ne_point_of_isDigit (n.isDigit_whole c hc)
    · decide
  rw [positiveNumberPattern, groupedText]
  split_ifs with hnil
  · rw [List.takeWhile_eq_self_iff.mpr hpoint, List.dropWhile_eq_nil_iff.mpr hpoint, hwhole]
    rfl
  · rw [List.takeWhile_append_of_pos hpoint, List.dropWhile_append_of_pos hpoint,
      List.takeWhile_cons_of_neg (by simp), List.dropWhile_cons_of_neg (by simp), List.append_nil,
      hwhole]
    exact isDigits_iff.mpr ⟨hnil, n.isDigit_fraction⟩

/-- **A numeral in groups is read** as the numeral. -/
theorem parsePositiveNumber_groupedText {value : ℚ} (hzero : Decimal.NoLeadingZero n.whole)
    (hshort : n.fraction.length ≤ maxDecimals) (hvalue : Binary64.ofRat n.value = .finite value)
    (hpos : 0 < value) (hmax : value ≤ max) :
    ∃ p, parsePositiveNumber (String.ofList (groupedText n)) maxDecimals max = some p ∧
      p.value = value := by
  have hpattern : positiveNumberPattern (String.ofList (groupedText n)).toList = true := by
    rw [String.toList_ofList]
    exact positiveNumberPattern_groupedText hzero
  have htext : (String.ofList ((String.ofList (groupedText n)).toList.filter (· ≠ ','))).toList =
      n.text := by
    rw [String.toList_ofList, String.toList_ofList, FixedPoint.filter_groupedText]
  obtain ⟨plain, hplain⟩ : ∃ plain : DecimalText, plain = ⟨_, decimalPattern_filter hpattern⟩ :=
    ⟨_, rfl⟩
  have hsame : plain.text.toList = n.text := by
    rw [hplain]
    exact htext
  have hdecimals : decimals plain = n.fraction.length := by
    rw [decimals, hsame, n.parts_text.2]
  have hnumber : number plain = .finite value := by
    rw [number, DecimalText.numeric_eq_value hsame, hvalue]
  refine ⟨⟨value, plain⟩, ?_, rfl⟩
  rw [parsePositiveNumber, dif_pos hpattern]
  simp only [← hplain, hdecimals, hnumber]
  rw [if_neg]
  rw [not_or, not_or, not_lt, not_le, not_lt]
  exact ⟨hshort, hpos, hmax⟩

/-- **A number that was typed** with at most eight decimals, as the double it was read as. -/
structure IsAmount (x : ℚ) : Prop where
  typed : ∃ k : ℕ, Binary64.roundToDouble (k / 10 ^ 8) = x
  pos : 0 < x
  le : x ≤ maxAlertThreshold

theorem isAmount_of_parsePositiveNumber {raw : String} {p : PositiveNumber}
    (h : parsePositiveNumber raw maxThresholdDecimals maxAlertThreshold = some p) :
    IsAmount p.value := by
  obtain ⟨-, hvalue, hdecimals, hpos, hmax⟩ := parsePositiveNumber_eq_some h
  obtain ⟨k, hk⟩ := exists_toQuantityUnits hdecimals
  have hround := roundToDouble_numeric hvalue
  rw [numeric_of_toQuantityUnits hk, numericOfUnits, cast_quantityScale, Int.cast_natCast] at hround
  exact ⟨⟨k, hround⟩, hpos, hmax⟩

/-- **What is shown of an amount is read as the amount.** -/
theorem IsAmount.parsePositiveNumber_format {x : ℚ} (h : IsAmount x) :
    ∃ p, parsePositiveNumber (String.ofList (FixedPoint.format 2 8 x)) maxThresholdDecimals
      maxAlertThreshold = some p ∧ p.value = x := by
  obtain ⟨⟨k, hk⟩, hpos, hmax⟩ := h
  have hback := FixedPoint.roundToDouble_units (by decide) hk
  have hnonneg : 0 ≤ FixedPoint.units 8 x := by
    rw [FixedPoint.units, round_eq, Int.floor_nonneg]
    positivity
  have hcast : (((FixedPoint.units 8 x).toNat : ℕ) : ℚ) = FixedPoint.units 8 x := by
    exact_mod_cast Int.toNat_of_nonneg hnonneg
  have hvalue : Binary64.ofRat (FixedPoint.numeral 2 8 (FixedPoint.units 8 x).toNat).value =
      .finite x := by
    rw [FixedPoint.value_numeral (by decide), hcast, Binary64.ofRat, hback, if_pos]
    calc x ≤ 10 ^ 12 := hmax
      _ < 2 ^ 40 := by norm_num
      _ ≤ 2 ^ 1024 := pow_le_pow_right₀ (by norm_num) (by norm_num)
  exact parsePositiveNumber_groupedText (Decimal.noLeadingZero_ofNat _)
    (FixedPoint.length_fraction_le (by decide)) hvalue hpos hmax

/-- What a number is written with. -/
theorem mem_format {minimum places : ℕ} {x : ℚ} {c : Char}
    (h : c ∈ FixedPoint.format minimum places x) : c.isDigit = true ∨ c = ',' ∨ c = '.' := by
  rw [FixedPoint.format, groupedText] at h
  generalize FixedPoint.numeral minimum places (FixedPoint.units places x).toNat = n at h
  have hgrouped : ∀ c ∈ grouped n.whole, c.isDigit = true ∨ c = ',' := fun c hc =>
    (FixedPoint.mem_grouped hc).imp_left (n.isDigit_whole c)
  split_ifs at h
  · exact (hgrouped c h).imp_right Or.inl
  · rcases List.mem_append.mp h with h | h
    · exact (hgrouped c h).imp_right Or.inl
    · rcases List.mem_cons.mp h with rfl | h
      · exact Or.inr (Or.inr rfl)
      · exact Or.inl (n.isDigit_fraction c h)

end Numbers

/-! ### Words that are shown -/

section ShownWords

variable {data : CasedData} {symbol : String} {x : ℚ}

theorem isPlain_of_isDigit {c : Char} (h : c.isDigit = true) : isPlain c = true := by
  have hrange := Decimal.toNat_of_isDigit h
  have hascii : isAscii c = true := decide_eq_true (by omega)
  have hsame : lowerChar c = c := if_neg (by omega)
  simp [isPlain, hascii, hsame]

theorem not_isTrimmed_of_isDigit {c : Char} (h : c.isDigit = true) : isTrimmed c = false := by
  have hrange := Decimal.toNat_of_isDigit h
  have hascii : isAscii c = true := decide_eq_true (by omega)
  have hall : c.isDigit = true → isTrimmed c = false := of_isAscii (by decide) hascii
  exact hall h

theorem isAscii_of_symbolPattern (h : symbolPattern symbol = true) :
    ∀ c ∈ symbol.toList, isAscii c = true := by
  intro c hc
  rcases (all_of_symbolPattern h).2 c hc with hlower | hdigit
  · exact isAscii_of_isAlpha (Bool.or_eq_true_iff.mpr (Or.inr hlower))
  · have hrange := Decimal.toNat_of_isDigit hdigit
    exact decide_eq_true (by omega)

/-- The upper case of a letter or a digit. -/
theorem upperChar_spec {c : Char} (h : c.isLower = true ∨ c.isDigit = true)
    (hascii : isAscii c = true) : lowerChar (upperChar c) = c ∧ isAscii (upperChar c) = true ∧
      isTrimmed (upperChar c) = false ∧ upperChar c ≠ '$' ∧ upperChar c ≠ '#' := by
  have hall : c.isLower = true ∨ c.isDigit = true → lowerChar (upperChar c) = c ∧
      isAscii (upperChar c) = true ∧ isTrimmed (upperChar c) = false ∧ upperChar c ≠ '$' ∧
        upperChar c ≠ '#' := of_isAscii (by decide) hascii
  exact hall h

theorem toList_toUpperCase (h : symbolPattern symbol = true) :
    (data.tables.toUpperCase symbol).toList = symbol.toList.map upperChar :=
  data.upper_ascii symbol (isAscii_of_symbolPattern h)

/-- A character of a symbol in capitals. -/
theorem of_mem_toUpperCase (h : symbolPattern symbol = true) {c : Char}
    (hc : c ∈ (data.tables.toUpperCase symbol).toList) :
    isAscii c = true ∧ isTrimmed c = false ∧ c ≠ '$' ∧ c ≠ '#' := by
  rw [toList_toUpperCase h, List.mem_map] at hc
  obtain ⟨d, hd, rfl⟩ := hc
  exact (upperChar_spec ((all_of_symbolPattern h).2 d hd) (isAscii_of_symbolPattern h d hd)).2

theorem isWord_toUpperCase (h : symbolPattern symbol = true) :
    IsWord (data.tables.toUpperCase symbol) := by
  refine ⟨?_, fun c hc => (of_mem_toUpperCase h hc).2.1⟩
  rw [Ne, ← String.toList_eq_nil_iff, toList_toUpperCase h, List.map_eq_nil_iff,
    String.toList_eq_nil_iff]
  exact (all_of_symbolPattern h).1

/-- **A symbol in capitals is read as the symbol.** -/
theorem fold_toUpperCase (h : symbolPattern symbol = true) :
    fold data.tables (data.tables.toUpperCase symbol) = symbol := by
  have htyped : ∀ c ∈ (data.tables.toUpperCase symbol).toList, isTyped c = true := fun c hc =>
    isTyped_iff.mpr (Or.inl (of_mem_toUpperCase h hc).1)
  refine String.toList_inj.mp ?_
  rw [toList_fold_of_typed htyped, toList_toUpperCase h, List.flatMap_map]
  refine Unicode.flatMap_eq_self fun c hc => ?_
  have hspec := upperChar_spec ((all_of_symbolPattern h).2 c hc) (isAscii_of_symbolPattern h c hc)
  rw [foldChar_of_isAscii hspec.2.1, hspec.1]

theorem withoutSigns_toUpperCase (h : symbolPattern symbol = true) :
    withoutSigns (data.tables.toUpperCase symbol) = data.tables.toUpperCase symbol := by
  rw [withoutSigns, List.filter_eq_self.mpr, String.ofList_toList]
  intro c hc
  exact decide_eq_true (of_mem_toUpperCase h hc).2.2

/-- What is shown of an amount, without the dollar sign. -/
theorem withoutSigns_alertThresholdFormatter :
    withoutSigns (alertThresholdFormatter x) = String.ofList (FixedPoint.format 2 8 x) := by
  rw [withoutSigns, alertThresholdFormatter, formatCurrency, String.toList_ofList,
    List.filter_cons_of_neg (by decide), List.filter_eq_self.mpr]
  intro c hc
  refine decide_eq_true ?_
  rcases mem_format hc with hdigit | rfl | rfl
  · constructor
    · rintro rfl
      exact absurd hdigit (by decide)
    · rintro rfl
      exact absurd hdigit (by decide)
  · decide
  · decide

theorem isWord_format : IsWord (String.ofList (FixedPoint.format 2 8 x)) := by
  refine ⟨String.ofList_eq_empty_iff.not.mpr (FixedPoint.groupedText_ne_nil _), fun c hc => ?_⟩
  rw [String.toList_ofList] at hc
  rcases mem_format hc with hdigit | rfl | rfl
  · exact not_isTrimmed_of_isDigit hdigit
  · decide
  · decide

theorem isWord_alertThresholdFormatter : IsWord (alertThresholdFormatter x) := by
  refine ⟨String.ofList_eq_empty_iff.not.mpr (List.cons_ne_nil _ _), ?_⟩
  rw [alertThresholdFormatter, formatCurrency, String.toList_ofList]
  have hword := (isWord_format (x := x)).2
  rw [String.toList_ofList] at hword
  exact List.forall_mem_cons.mpr ⟨by decide, hword⟩

theorem fold_format : fold data.tables (String.ofList (FixedPoint.format 2 8 x)) =
    String.ofList (FixedPoint.format 2 8 x) := by
  refine fold_eq_self fun c hc => ?_
  rw [String.toList_ofList] at hc
  rcases mem_format hc with hdigit | rfl | rfl
  · exact isPlain_of_isDigit hdigit
  · decide
  · decide

end ShownWords

/-! ### Alerts -/

section Alerts

variable {data : CasedData} {tables : UnicodeTables} {rawText symbol : String}
  {direction : AlertDirection} {threshold : ℚ}

theorem exists_of_typed {command : String} {args : List String} (hcommand : IsWord command)
    (hargs : ∀ w ∈ args, IsWord w) :
    ∃ text, (Prices.trim (typed (command :: args))).toList = '/' :: text ∧
      words (String.ofList text) = command :: args :=
  exists_of_commandWords (commandWords_typed (List.forall_mem_cons.mpr ⟨hcommand, hargs⟩))

/-- **What is typed** after `/canhbao`. -/
theorem parse_typed_canhbao {args : List String} (hargs : ∀ w ∈ args, IsWord w) :
    parse data.tables (typed ("canhbao" :: args)) = parseAlert data.tables args := by
  have hcommand : IsWord "canhbao" := by decide
  obtain ⟨text, htext, hwords⟩ := exists_of_typed hcommand hargs
  have hfold : fold data.tables "canhbao" = "canhbao" := fold_eq_self (by decide)
  simp only [parse, htext, hwords, hfold]
  rfl

/-- **What is typed** after `/danhmuc`. -/
theorem parse_typed_danhmuc {args : List String} (hargs : ∀ w ∈ args, IsWord w) :
    parse data.tables (typed ("danhmuc" :: args)) = parsePortfolio data.tables args := by
  have hcommand : IsWord "danhmuc" := by decide
  obtain ⟨text, htext, hwords⟩ := exists_of_typed hcommand hargs
  have hfold : fold data.tables "danhmuc" = "danhmuc" := fold_eq_self (by decide)
  simp only [parse, htext, hwords, hfold]
  rfl

/-- What an alert was read from. -/
theorem parseAlert_eq_create {rawArgs : List String}
    (h : parseAlert tables rawArgs = .alertCreate symbol direction threshold) :
    symbolPattern symbol = true ∧ utf16Length symbol ≤ maxAlertSymbolLength ∧
      IsAmount threshold := by
  rw [parseAlert] at h
  split at h
  · cases h
  · split_ifs at h
    · split at h
      · dsimp only at h
        split_ifs at h
      · cases h
    · split at h
      · cases h
      · next hmatch =>
        split at h
        · cases h
        · next p hp =>
          split_ifs at h with hlong
          injection h with hsymbol hdirection hthreshold
          subst hsymbol hthreshold
          exact ⟨symbolPattern_of_alertCreateMatch hmatch, not_lt.mp hlong,
            isAmount_of_parsePositiveNumber hp⟩

theorem elim_ne_create {n : Option ℕ} {f : ℕ → ParsedCommand}
    (hf : ∀ k, f k ≠ .alertCreate symbol direction threshold) :
    n.elim .portfolioInvalid f ≠ .alertCreate symbol direction threshold := by
  cases n with
  | none => intro h; cases h
  | some k => exact hf k

theorem parseTrade_ne_create {side : TradeSide} {args : List String} :
    parseTrade side args ≠ .alertCreate symbol direction threshold := by
  intro h
  rw [parseTrade.eq_def] at h
  split at h
  · dsimp only at h
    split at h
    · split_ifs at h
    · cases h
  · cases h

theorem parsePortfolio_ne_create {rawArgs : List String} :
    parsePortfolio tables rawArgs ≠ .alertCreate symbol direction threshold := by
  intro h
  rw [parsePortfolio] at h
  split at h
  · cases h
  · split at h
    · cases h
    split at h
    · exact parseTrade_ne_create h
    split_ifs at h
    · split at h
      · cases h
      · exact elim_ne_create (fun k hk => by cases hk) h
      · cases h
    · split at h
      · exact elim_ne_create (fun k hk => by cases hk) h
      · cases h
    · repeat' split at h
      all_goals cases h

theorem parseSignal_ne_create {rawArgs : List String} :
    parseSignal tables rawArgs ≠ .alertCreate symbol direction threshold := by
  intro h
  rw [parseSignal] at h
  repeat' split at h
  all_goals cases h

/-- **An alert that was asked for** has a symbol of letters and digits and a threshold that was
typed. -/
theorem parse_eq_create (h : parse data.tables rawText = .alertCreate symbol direction threshold) :
    symbolPattern symbol = true ∧ utf16Length symbol ≤ maxAlertSymbolLength ∧
      IsAmount threshold := by
  cases hwords : commandWords rawText with
  | nil =>
    rw [parse_of_nil hwords] at h
    cases h
  | cons rawCommand rawSymbols =>
    by_cases hlists : ListsCoins data.tables rawCommand
    · rcases parse_of_listsCoins hwords hlists with hp | hp | hp | ⟨hp, -⟩
      all_goals
        rw [hp] at h
        cases h
    · rcases parse_of_not_listsCoins hwords hlists with hp | hp | hp | hp
      · exact parseAlert_eq_create (hp.symm.trans h)
      · exact absurd (hp.symm.trans h) parsePortfolio_ne_create
      · exact absurd (hp.symm.trans h) parseSignal_ne_create
      · rw [h] at hp
        simp at hp

/-- `>` or `<`. -/
def operatorOf (direction : AlertDirection) : String := if direction = .above then ">" else "<"

theorem operatorOf_spec (direction : AlertDirection) : IsWord (operatorOf direction) ∧
    withoutSigns (operatorOf direction) = operatorOf direction ∧
      ∀ c ∈ (operatorOf direction).toList, isPlain c = true := by
  cases direction
  · decide
  · decide

/-- **The words of a condition** are taken apart as they were put together. -/
theorem alertCreateMatch_words {amount : String} (hsymbol : symbolPattern symbol = true)
    (hamount : IsWord amount) :
    alertCreateMatch (" ".intercalate [symbol, operatorOf direction, amount]) =
      some (symbol, direction, amount) := by
  obtain ⟨hne, hall⟩ := all_of_symbolPattern hsymbol
  have hletters : ∀ c ∈ symbol.toList, (c.isLower || c.isDigit) = true := fun c hc =>
    Bool.or_eq_true_iff.mpr (hall c hc)
  have htext : (" ".intercalate [symbol, operatorOf direction, amount]).toList =
      symbol.toList ++ ' ' :: ((operatorOf direction).toList ++ ' ' :: amount.toList) := by
    rw [String.toList_intercalate]
    simp
  have hspace : isTrimmed ' ' = true := by decide
  have hskip : (' ' :: amount.toList).dropWhile isTrimmed = amount.toList := by
    obtain ⟨c, cs, hcs⟩ := List.exists_cons_of_ne_nil (String.toList_eq_nil_iff.not.mpr hamount.1)
    have hc : ¬isTrimmed c = true := by simp [hamount.2 c (hcs ▸ List.mem_cons_self)]
    rw [List.dropWhile_cons_of_pos hspace, hcs, List.dropWhile_cons_of_neg hc]
  have hsymbol' : symbol.toList.isEmpty = false := by simpa using hne
  have hamount' : amount.toList.isEmpty = false := by simpa using hamount.1
  have hnot : amount.toList.any isTrimmed = false := by
    rw [List.any_eq_false]
    intro d hd
    simp [hamount.2 d hd]
  rw [alertCreateMatch, htext]
  simp only [List.takeWhile_append_of_pos hletters, List.dropWhile_append_of_pos hletters]
  rw [List.takeWhile_cons_of_neg (by decide), List.dropWhile_cons_of_neg (by decide),
    List.dropWhile_cons_of_pos hspace, List.append_nil]
  cases direction
  · have habove : (operatorOf .above).toList = ['>'] := by decide
    rw [habove, List.singleton_append, List.dropWhile_cons_of_neg (by decide)]
    simp only [hskip, hsymbol', hamount', hnot, String.ofList_toList]
    rfl
  · have hbelow : (operatorOf .below).toList = ['<'] := by decide
    rw [hbelow, List.singleton_append, List.dropWhile_cons_of_neg (by decide)]
    simp only [hskip, hsymbol', hamount', hnot, String.ofList_toList]
    rfl

/-- **What is shown of an alert, typed back.** A coin with the name of a keyword is taken for
the keyword. -/
theorem parseAlert_shown (hsymbol : symbolPattern symbol = true)
    (hlength : utf16Length symbol ≤ maxAlertSymbolLength) (hamount : IsAmount threshold) :
    parseAlert data.tables [data.tables.toUpperCase symbol, operatorOf direction,
        String.ofList (FixedPoint.format 2 8 threshold)] =
      if symbol ∈ alertDeleteKeywords then .alertInvalid
      else .alertCreate symbol direction threshold := by
  obtain ⟨p, hp, hvalue⟩ := hamount.parsePositiveNumber_format
  rw [parseAlert, List.map_cons, List.map_cons, List.map_cons, List.map_nil,
    fold_toUpperCase hsymbol, fold_eq_self (operatorOf_spec direction).2.2, fold_format]
  dsimp only
  rw [alertCreateMatch_words hsymbol isWord_format]
  dsimp only
  rw [hp]
  dsimp only
  rw [if_neg (not_lt.mpr hlength), hvalue]

/-! ### Lines of a list -/

theorem isWord_number (n : ℕ) : IsWord (String.ofList (Decimal.ofNat n)) := by
  refine ⟨String.ofList_eq_empty_iff.not.mpr (Decimal.ofNat_ne_nil n), fun c hc => ?_⟩
  rw [String.toList_ofList] at hc
  exact not_isTrimmed_of_isDigit (Decimal.isDigit_of_mem_ofNat hc)

/-- **The words of a condition.** -/
theorem words_formatAlertCondition (hsymbol : symbolPattern symbol = true) :
    words (formatAlertCondition data.tables symbol direction threshold) =
      [data.tables.toUpperCase symbol, operatorOf direction,
        alertThresholdFormatter threshold] := by
  have htext : formatAlertCondition data.tables symbol direction threshold = " ".intercalate
      [data.tables.toUpperCase symbol, operatorOf direction,
        alertThresholdFormatter threshold] := by
    refine String.toList_inj.mp ?_
    simp [formatAlertCondition, operatorOf]
  rw [htext]
  refine words_intercalate ?_
  simp only [List.forall_mem_cons]
  exact ⟨isWord_toUpperCase hsymbol, (operatorOf_spec direction).1,
    isWord_alertThresholdFormatter, List.forall_mem_nil _⟩

/-- The words for the state of an alert. -/
def stateWords (state : AlertState) : List String :=
  if state = .armed then ["đang", "canh"] else ["đã", "báo,", "chờ", "giá", "quay", "lại"]

/-- **The words of a line**: the number, the condition, and the state. -/
theorem words_alertLine (i : ℕ) {alert : PriceAlert} (hsymbol : symbolPattern alert.symbol = true) :
    words (alertLine data.tables i alert) =
      (String.ofList (Decimal.ofNat (i + 1) ++ ['.'])) :: data.tables.toUpperCase alert.symbol ::
        operatorOf alert.direction :: alertThresholdFormatter alert.threshold :: "—" ::
          stateWords alert.state := by
  have htext : alertLine data.tables i alert = " ".intercalate
      ((String.ofList (Decimal.ofNat (i + 1) ++ ['.'])) :: data.tables.toUpperCase alert.symbol ::
        operatorOf alert.direction :: alertThresholdFormatter alert.threshold :: "—" ::
          stateWords alert.state) := by
    refine String.toList_inj.mp ?_
    rw [alertLine, formatAlertCondition, stateWords, operatorOf]
    split_ifs <;> simp
  have hnumber : IsWord (String.ofList (Decimal.ofNat (i + 1) ++ ['.'])) := by
    refine ⟨String.ofList_eq_empty_iff.not.mpr (by simp), fun c hc => ?_⟩
    rw [String.toList_ofList] at hc
    rcases List.mem_append.mp hc with hc | hc
    · exact not_isTrimmed_of_isDigit (Decimal.isDigit_of_mem_ofNat hc)
    · rw [List.mem_singleton.mp hc]
      decide
  have hstate : ∀ w ∈ stateWords alert.state, IsWord w := by
    rw [stateWords]
    split_ifs
    · decide
    · decide
  rw [htext]
  refine words_intercalate ?_
  simp only [List.forall_mem_cons]
  exact ⟨hnumber, isWord_toUpperCase hsymbol, (operatorOf_spec _).1,
    isWord_alertThresholdFormatter, by decide, hstate⟩

/-- **The condition of a line, typed back.** -/
theorem parse_typedAlert (i : ℕ) {alert : PriceAlert} (hsymbol : symbolPattern alert.symbol = true)
    (hlength : utf16Length alert.symbol ≤ maxAlertSymbolLength)
    (hamount : IsAmount alert.threshold) :
    parse data.tables (typedAlert (alertLine data.tables i alert)) =
      if alert.symbol ∈ alertDeleteKeywords then .alertInvalid
      else .alertCreate alert.symbol alert.direction alert.threshold := by
  have htyped : typedAlert (alertLine data.tables i alert) = typed ["canhbao",
      data.tables.toUpperCase alert.symbol, operatorOf alert.direction,
      String.ofList (FixedPoint.format 2 8 alert.threshold)] := by
    rw [typedAlert, words_alertLine i hsymbol, List.drop_succ_cons, List.drop_zero,
      List.take_succ_cons, List.take_succ_cons, List.take_succ_cons, List.take_zero, List.map_cons,
      List.map_cons, List.map_cons, List.map_nil, withoutSigns_toUpperCase hsymbol,
      (operatorOf_spec _).2.1, withoutSigns_alertThresholdFormatter]
  rw [htyped, parse_typed_canhbao, parseAlert_shown hsymbol hlength hamount]
  simp only [List.forall_mem_cons]
  exact ⟨isWord_toUpperCase hsymbol, (operatorOf_spec _).1, isWord_format, List.forall_mem_nil _⟩

theorem length_ofNat_le_iff {n k : ℕ} (hk : 0 < k) :
    (Decimal.ofNat n).length ≤ k ↔ n < 10 ^ k := by
  refine ⟨fun h => ?_, Decimal.length_ofNat_le hk⟩
  have hlt := Decimal.value_lt fun c hc => Decimal.isDigit_of_mem_ofNat (n := n) hc
  rw [Decimal.value_ofNat] at hlt
  exact hlt.trans_le (Nat.pow_le_pow_right (by decide) h)

theorem fold_number (n : ℕ) : fold data.tables (String.ofList (Decimal.ofNat n)) =
    String.ofList (Decimal.ofNat n) := by
  refine fold_eq_self fun c hc => ?_
  rw [String.toList_ofList] at hc
  exact isPlain_of_isDigit (Decimal.isDigit_of_mem_ofNat hc)

theorem isDigits_ofNat (n : ℕ) : isDigits (Decimal.ofNat n) = true :=
  isDigits_iff.mpr ⟨Decimal.ofNat_ne_nil n, fun _ hc => Decimal.isDigit_of_mem_ofNat hc⟩

/-- **The number of a line, typed back.** -/
theorem parse_typedAlertDelete (i : ℕ) {alert : PriceAlert}
    (hsymbol : symbolPattern alert.symbol = true) :
    parse data.tables (typedAlertDelete (alertLine data.tables i alert)) =
      if i < 999 then .alertDelete (i + 1) else .alertInvalid := by
  have hpoint : (Decimal.ofNat (i + 1) ++ ['.']).filter (· ≠ '.') = Decimal.ofNat (i + 1) := by
    rw [List.filter_append, List.filter_eq_self.mpr fun c hc =>
      Numeral.ne_point_of_isDigit (Decimal.isDigit_of_mem_ofNat hc)]
    simp
  have htyped : typedAlertDelete (alertLine data.tables i alert) =
      typed ["canhbao", "xoa", String.ofList (Decimal.ofNat (i + 1))] := by
    rw [typedAlertDelete, words_alertLine i hsymbol, List.headD_cons, String.toList_ofList, hpoint]
  have hwords : ∀ w ∈ ["xoa", String.ofList (Decimal.ofNat (i + 1))], IsWord w := by
    simp only [List.forall_mem_cons]
    exact ⟨by decide, isWord_number _, List.forall_mem_nil _⟩
  have hkeyword : fold data.tables "xoa" = "xoa" := fold_eq_self (by decide)
  have hmem : "xoa" ∈ alertDeleteKeywords := by decide
  have hlength : (Decimal.ofNat (i + 1)).length ≤ 3 ↔ i < 999 := by
    rw [length_ofNat_le_iff (by decide)]
    omega
  rw [htyped, parse_typed_canhbao hwords, parseAlert, List.map_cons, List.map_cons, List.map_nil,
    hkeyword, fold_number]
  dsimp only
  rw [if_pos hmem, String.toList_ofList, Decimal.value_ofNat]
  refine if_congr ?_ rfl rfl
  rw [hlength, isDigits_ofNat]
  simp

theorem fromMessage_spec {alert : PriceAlert} (h : FromMessage data.tables alert) :
    symbolPattern alert.symbol = true ∧ utf16Length alert.symbol ≤ maxAlertSymbolLength ∧
      IsAmount alert.threshold := by
  obtain ⟨rawText, hparse⟩ := h
  exact parse_eq_create hparse

/-- **Alerts that are shown alike are alike.** -/
theorem alert_eq_of_shown {a b : PriceAlert} (ha : FromMessage data.tables a)
    (hb : FromMessage data.tables b)
    (h : formatAlertCondition data.tables a.symbol a.direction a.threshold =
      formatAlertCondition data.tables b.symbol b.direction b.threshold) :
    a.symbol = b.symbol ∧ a.direction = b.direction ∧ a.threshold = b.threshold := by
  obtain ⟨hasymbol, -, haamount⟩ := fromMessage_spec ha
  obtain ⟨hbsymbol, -, hbamount⟩ := fromMessage_spec hb
  have hwords := congrArg words h
  rw [words_formatAlertCondition hasymbol, words_formatAlertCondition hbsymbol] at hwords
  obtain ⟨hsymbol, hrest⟩ := List.cons_eq_cons.mp hwords
  obtain ⟨hdirection, hrest⟩ := List.cons_eq_cons.mp hrest
  obtain ⟨hthreshold, -⟩ := List.cons_eq_cons.mp hrest
  refine ⟨?_, ?_, ?_⟩
  · calc a.symbol = fold data.tables (data.tables.toUpperCase a.symbol) :=
          (fold_toUpperCase hasymbol).symm
      _ = fold data.tables (data.tables.toUpperCase b.symbol) := by rw [hsymbol]
      _ = b.symbol := fold_toUpperCase hbsymbol
  · revert hdirection
    cases a.direction <;> cases b.direction <;> decide
  · obtain ⟨p, hp, hpvalue⟩ := haamount.parsePositiveNumber_format
    obtain ⟨q, hq, hqvalue⟩ := hbamount.parsePositiveNumber_format
    have htext := congrArg withoutSigns hthreshold
    rw [withoutSigns_alertThresholdFormatter, withoutSigns_alertThresholdFormatter] at htext
    rw [htext, hq] at hp
    rw [← hpvalue, ← hqvalue, Option.some.inj hp]

end Alerts

/-- The tables for texts of Vietnamese, with capitals. -/
def vietnameseCased : CasedData where
  toUnicodeData :=
    { vietnamese with toUpperCase := fun s => String.ofList (s.toList.map upperChar) }
  upper_ascii _ _ := String.toList_ofList

def bitcoinAlert : PriceAlert where
  id := 1
  chatId := "a"
  symbol := "btc"
  direction := .above
  threshold := 100000
  state := .armed
  lastFiredAt := none
  lastFailedAt := none
  consecutiveFailures := none
  createdAt := 0

end Commands

end CryptoZaloBot
