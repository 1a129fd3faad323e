import CryptoZaloBot.Commands.Letters
import CryptoZaloBot.Commands.Trades
import CryptoZaloBot.Commands.Vietnamese
import CryptoZaloBot.Portfolio.Units

/-!
# Which quantities are accepted

A quantity is meant to lie in `(0, 10 ^ 12]` and to have at most eight decimals. The decimals
are counted in the text, but the bounds are compared with a *double*. Next to `10 ^ 12` doubles
are `2⁻¹³` apart, so that what is at most `2⁻¹⁴` above the limit is rounded down to it and
accepted (`CryptoZaloBot.Commands.accepts_iff`): `1000000000000.00001` is bought and stored.

Everywhere else the rounding does no harm, however long the text is: a number of eight decimals
that is positive is one unit at least, and its double is positive too. A quantity is read
without its accents like every argument, so that marks on its digits do not count.
-/

namespace CryptoZaloBot

namespace Commands

open Decimal (Numeral)
open Portfolio

/-! ### The limit, as a double -/

theorem isDouble_limit : Binary64.IsDouble (10 ^ 12) :=
  ⟨10 ^ 12, 0, by norm_num, by norm_num, by norm_num⟩

/-- **What is rounded down to the limit.** -/
theorem roundToDouble_le_limit_iff {x : ℚ} (hx : 0 ≤ x) :
    Binary64.roundToDouble x ≤ 10 ^ 12 ↔ x ≤ 10 ^ 12 + 1 / 2 ^ 14 := by
  rcases lt_or_ge x (2 ^ 39) with hsmall | hmiddle
  · have hle : x ≤ 10 ^ 12 := hsmall.le.trans (by norm_num)
    exact iff_of_true (Binary64.roundToDouble_le hx isDouble_limit hle) (by linarith)
  rcases lt_or_ge x (2 ^ 40) with hmiddle' | hlarge
  · -- Here the last bit of a double is worth `2⁻¹³`.
    have hexponent : Binary64.exponentOf x = -13 :=
      Binary64.exponentOf_eq (by norm_num) (by norm_num; linarith) (by norm_num; linarith)
    have hle := Binary64.roundToDouble_le_iff (n := 10 ^ 12 * 2 ^ 13) (by norm_num) hexponent
    norm_num at hle ⊢
    exact hle
  · have hdouble : Binary64.IsDouble (2 ^ 40) := ⟨1, 40, by norm_num, by norm_num, by norm_num⟩
    have hround := Binary64.le_roundToDouble hx hdouble hlarge
    exact iff_of_false (by linarith) (by linarith)

/-- A number of at most eight decimals that is positive is not rounded to zero. -/
theorem roundToDouble_pos_iff {n : Numeral} (h : n.significant.length ≤ maxQuantityDecimals) :
    0 < Binary64.roundToDouble n.value ↔ 0 < n.value := by
  constructor
  · intro hround
    refine lt_of_le_of_ne n.value_nonneg fun hzero => ?_
    rw [← hzero, Binary64.roundToDouble_zero] at hround
    exact absurd hround (lt_irrefl _)
  · intro hpos
    have hunits := n.value_mul_pow h
    generalize Decimal.value n.whole * 10 ^ maxQuantityDecimals +
      Decimal.value (n.significant.rightpad maxQuantityDecimals '0') = units at hunits
    have hscale : (10 : ℚ) ^ maxQuantityDecimals = 10 ^ 8 := rfl
    have hone : (1 : ℚ) ≤ units := by
      have hcast : (0 : ℚ) < units := hunits ▸ mul_pos hpos (by positivity)
      exact_mod_cast hcast
    rw [hscale] at hunits
    have hleast : 5 / 2 ^ 29 ≤ n.value := by linarith
    exact lt_of_lt_of_le (by norm_num)
      (Binary64.le_roundToDouble n.value_nonneg isDouble_least hleast)

/-! ### The number of a quantity -/

section Number

variable {raw : String} {n : Numeral}

theorem isDigits_iff {cs : List Char} :
    isDigits cs = true ↔ cs ≠ [] ∧ ∀ c ∈ cs, c.isDigit = true := by
  rw [isDigits, Bool.and_eq_true, List.all_eq_true]
  simp

/-- A plain number is one of the numbers that may have commas. -/
theorem positiveNumberPattern_text (n : Numeral) : positiveNumberPattern n.text = true := by
  have hwhole : isDigits n.whole = true := isDigits_iff.mpr ⟨n.whole_ne_nil, n.isDigit_whole⟩
  obtain ⟨htake, hdrop⟩ := n.parts_text
  rw [positiveNumberPattern, htake, hwhole]
  cases hrest : n.text.dropWhile (· ≠ '.') with
  | nil => rfl
  | cons c fraction =>
    rw [hrest, List.drop_succ_cons, List.drop_zero] at hdrop
    have hne : n.fraction ≠ [] := by
      intro hnil
      have htext : n.text = n.whole := if_pos hnil
      rw [htext, List.dropWhile_eq_nil_iff.mpr fun c hc =>
        Numeral.ne_point_of_isDigit (n.isDigit_whole c hc)] at hrest
      cases hrest
    exact isDigits_iff.mpr ⟨hdrop ▸ hne, hdrop ▸ n.isDigit_fraction⟩

/-- **A plain number is read** if its text has few enough decimals and its double is within the
bounds. -/
theorem isSome_parsePositiveNumber_iff (h : raw.toList = n.text) (maxDecimals : ℕ) (max : ℚ) :
    (parsePositiveNumber raw maxDecimals max).isSome = true ↔
      n.fraction.length ≤ maxDecimals ∧
        ∃ value, Binary64.ofRat n.value = .finite value ∧ 0 < value ∧ value ≤ max := by
  have hpattern : positiveNumberPattern raw.toList = true := h ▸ positiveNumberPattern_text n
  have hplain : decimalPattern raw.toList = true := h ▸ decimalPattern_text n
  have htext : (⟨_, decimalPattern_filter hpattern⟩ : DecimalText) = ⟨raw, hplain⟩ := by
    simp only [filter_comma_of_decimalPattern hplain, String.ofList_toList]
  have hdecimals : decimals ⟨raw, hplain⟩ = n.fraction.length := by
    rw [decimals, h, n.parts_text.2]
  have hnumber : number ⟨raw, hplain⟩ = Binary64.ofRat n.value :=
    congrArg Binary64.ofRat (DecimalText.numeric_eq_value h)
  rw [parsePositiveNumber, dif_pos hpattern]
  simp only [htext, hdecimals, hnumber]
  cases hvalue : Binary64.ofRat n.value with
  | finite value =>
    simp only [JsNumber.finite.injEq, exists_eq_left']
    by_cases hout : maxDecimals < n.fraction.length ∨ value ≤ 0 ∨ max < value
    · rw [if_pos hout]
      simp only [Option.isSome_none, Bool.false_eq_true, false_iff, not_and, not_le]
      intro hshort hpos
      rcases hout with hout | hout | hout
      · exact absurd hout (not_lt.mpr hshort)
      · exact absurd hpos (not_lt.mpr hout)
      · exact hout
    · rw [if_neg hout]
      simp only [not_or, not_lt, not_le] at hout
      exact iff_of_true rfl hout
  | posInfinity => simp
  | negInfinity => simp
  | nan => simp

/-- **Digits, and optionally a point and at most eight more**, of a value within the bounds. -/
def Between (low high : ℚ) (q : String) : Prop :=
  ∃ n : Numeral, q.toList = n.text ∧ n.fraction.length ≤ 8 ∧ low < n.value ∧ n.value ≤ high

/-- What a quantity is meant to be. -/
def IsQuantity (q : String) : Prop := Between 0 (10 ^ 12) q

/-- What is above the limit, and so little that its double is not. -/
def JustAbove (q : String) : Prop := Between (10 ^ 12) (10 ^ 12 + 1 / 2 ^ 14) q

theorem between_split {low middle high : ℚ} (hlow : low ≤ middle) (hhigh : middle ≤ high)
    (q : String) : Between low high q ↔ Between low middle q ∨ Between middle high q := by
  constructor
  · rintro ⟨n, hn, hshort, hgt, hle⟩
    rcases le_or_gt n.value middle with hmiddle | hmiddle
    · exact Or.inl ⟨n, hn, hshort, hgt, hmiddle⟩
    · exact Or.inr ⟨n, hn, hshort, hmiddle, hle⟩
  · rintro (⟨n, hn, hshort, hgt, hle⟩ | ⟨n, hn, hshort, hgt, hle⟩)
    · exact ⟨n, hn, hshort, hgt, hle.trans hhigh⟩
    · exact ⟨n, hn, hshort, hlow.trans_lt hgt, hle⟩

theorem significant_length_le {k : ℕ} (h : n.fraction.length ≤ k) : n.significant.length ≤ k :=
  (List.rdropWhile_prefix _ (l := n.fraction)).length_le.trans h

/-- **The quantities the parser reads.** -/
theorem isSome_quantity_iff (raw : String) :
    (decimalPattern raw.toList = true ∧
        (parsePositiveNumber raw maxQuantityDecimals maxQuantity).isSome = true) ↔
      IsQuantity raw ∨ JustAbove raw := by
  rw [IsQuantity, JustAbove, ← between_split (by norm_num) (by norm_num)]
  constructor
  · rintro ⟨hpattern, hsome⟩
    obtain ⟨n, hn⟩ := decimalPattern_iff.mp hpattern
    obtain ⟨hshort, value, hvalue, hpos, hmax⟩ :=
      (isSome_parsePositiveNumber_iff hn maxQuantityDecimals maxQuantity).mp hsome
    rw [← Binary64.ofRat_eq_finite hvalue] at hpos hmax
    exact ⟨n, hn, hshort, (roundToDouble_pos_iff (significant_length_le hshort)).mp hpos,
      (roundToDouble_le_limit_iff n.value_nonneg).mp hmax⟩
  · rintro ⟨n, hn, hshort, hpos, hmax⟩
    have hround := (roundToDouble_le_limit_iff n.value_nonneg).mpr hmax
    have hlimit : (10 ^ 12 : ℚ) < 2 ^ 1024 :=
      lt_of_lt_of_le (b := 2 ^ 40) (by norm_num) (pow_le_pow_right₀ (by norm_num) (by norm_num))
    have hfinite : Binary64.ofRat n.value = .finite (Binary64.roundToDouble n.value) :=
      if_pos (hround.trans_lt hlimit)
    exact ⟨decimalPattern_iff.mpr ⟨n, hn⟩,
      (isSome_parsePositiveNumber_iff hn maxQuantityDecimals maxQuantity).mpr ⟨hshort, _, hfinite,
        (roundToDouble_pos_iff (significant_length_le hshort)).mpr hpos, hround⟩⟩

end Number

/-! ### Accepted or not -/

variable {data : UnicodeData} {keyword symbol quantity price : String}

/-- The other arguments of a trade are as they should be. -/
structure OthersValid (tables : UnicodeTables) (keyword symbol price : String) : Prop where
  keyword : fold tables keyword ∈ portfolioBuyKeywords ∨
    fold tables keyword ∈ portfolioSellKeywords
  symbol : symbolPattern (fold tables symbol) = true ∧
    utf16Length (fold tables symbol) ≤ maxPortfolioSymbolLength
  price : (parsePositiveNumber (fold tables price) maxThresholdDecimals
    maxAlertThreshold).isSome = true

/-- **The quantity is accepted**: the arguments are a trade. -/
def Accepts (tables : UnicodeTables) (keyword symbol quantity price : String) : Prop :=
  ∃ side text priceUsd, parsePortfolio tables [keyword, symbol, quantity, price] =
    .portfolioTrade (fold tables symbol) side text priceUsd

theorem parsePortfolio_of_othersValid {tables : UnicodeTables}
    (h : OthersValid tables keyword symbol price) (quantity : String) :
    ∃ side, parsePortfolio tables [keyword, symbol, quantity, price] =
      parseTrade side [fold tables symbol, fold tables quantity, fold tables price] := by
  have hne : fold tables keyword ≠ "" := by
    intro hempty
    have hkeyword := h.keyword
    rw [hempty] at hkeyword
    exact absurd hkeyword (by decide)
  refine ⟨if fold tables keyword ∈ portfolioBuyKeywords then .buy else .sell, ?_⟩
  rw [parsePortfolio]
  simp only [List.map_cons, List.map_nil, if_neg hne, if_pos h.keyword]

/-- **What is accepted**, besides what should be: what is rounded down to the limit. -/
theorem accepts_iff {tables : UnicodeTables} (h : OthersValid tables keyword symbol price)
    (quantity : String) :
    Accepts tables keyword symbol quantity price ↔
      IsQuantity (fold tables quantity) ∨ JustAbove (fold tables quantity) := by
  obtain ⟨side, hparse⟩ := parsePortfolio_of_othersValid h quantity
  obtain ⟨p, hp⟩ := Option.isSome_iff_exists.mp h.price
  rw [← isSome_quantity_iff, Accepts, hparse, parseTrade]
  by_cases hpattern : decimalPattern (fold tables quantity).toList = true
  · rw [if_pos hpattern, hp]
    cases hq : parsePositiveNumber (fold tables quantity) maxQuantityDecimals maxQuantity with
    | none => simp
    | some q => simp [hpattern, h.symbol.1, not_lt.mpr h.symbol.2]
  · simp [hpattern]

/-- A number typed plainly has nothing to fold. -/
theorem fold_of_between {low high : ℚ} (h : Between low high quantity) :
    fold data.tables quantity = quantity := by
  obtain ⟨n, hn, -⟩ := h
  have hdigit : ∀ c : Char, c.isDigit = true → isPlain c = true := by
    intro c hc
    have hrange := Decimal.toNat_of_isDigit hc
    have hascii : isAscii c = true := decide_eq_true (by omega)
    have hsame : Prices.lowerChar c = c := if_neg (by omega)
    simp [isPlain, hascii, hsame]
  refine fold_eq_self fun c hc => ?_
  rw [hn, Numeral.text] at hc
  split_ifs at hc
  · exact hdigit c (n.isDigit_whole c hc)
  · rcases List.mem_append.mp hc with hc | hc
    · exact hdigit c (n.isDigit_whole c hc)
    · rcases List.mem_cons.mp hc with rfl | hc
      · decide
      · exact hdigit c (n.isDigit_fraction c hc)

theorem not_isQuantity_of_justAbove (h : JustAbove quantity) : ¬IsQuantity quantity := by
  rintro ⟨m, hm, -, -, hle⟩
  obtain ⟨n, hn, -, hgt, -⟩ := h
  obtain rfl := Numeral.text_injective (hm.symm.trans hn)
  exact absurd hle (not_le.mpr hgt)

/-- **When exactly the quantities are accepted that should be.** Whatever token stands for the
quantity: it is accepted if and only if it is digits, optionally with a point and at most eight
more, of a value in `(0, 10 ^ 12]` – unless, as the parser reads it, it is a number above the
limit by no more than half the distance of doubles, or a quantity that was typed with accents. -/
theorem quantity_accepted_iff (data : UnicodeData) (keyword symbol quantity price : String)
    (h : OthersValid data.tables keyword symbol price) :
    (Accepts data.tables keyword symbol quantity price ↔ IsQuantity quantity) ↔
      ¬JustAbove (fold data.tables quantity) ∧
        (IsQuantity (fold data.tables quantity) → fold data.tables quantity = quantity) := by
  rw [accepts_iff h]
  constructor
  · intro hmeant
    refine ⟨fun habove => ?_, fun hquantity => ?_⟩
    · have hquantity := hmeant.mp (Or.inr habove)
      rw [fold_of_between hquantity] at habove
      exact not_isQuantity_of_justAbove habove hquantity
    · exact fold_of_between (hmeant.mp (Or.inl hquantity))
  · rintro ⟨hnot, hplain⟩
    constructor
    · rintro (hquantity | habove)
      · exact hplain hquantity ▸ hquantity
      · exact absurd habove hnot
    · intro hquantity
      rw [fold_of_between hquantity]
      exact Or.inl hquantity

/-- `10 ^ 12` and a hundred-thousandth. -/
def justAbove : Numeral where
  whole := ['1', '0', '0', '0', '0', '0', '0', '0', '0', '0', '0', '0', '0']
  fraction := ['0', '0', '0', '0', '1']
  whole_ne_nil := by decide
  isDigit_whole := by decide
  isDigit_fraction := by decide

theorem justAbove_value : justAbove.value = 10 ^ 12 + 1 / 10 ^ 5 := by decide +kernel

theorem quantity_above_limit_accepted :
    ¬(Accepts vietnamese.tables "mua" "btc" "1000000000000.00001" "1" ↔
      IsQuantity "1000000000000.00001") := by
  intro hmeant
  have haccepts : Accepts vietnamese.tables "mua" "btc" "1000000000000.00001" "1" :=
    ⟨.buy, ⟨"1000000000000.00001", by decide⟩, 1, by decide +kernel⟩
  obtain ⟨n, hn, -, -, hle⟩ := hmeant.mp haccepts
  obtain rfl : n = justAbove := Numeral.text_injective (hn.symm.trans (by decide))
  rw [justAbove_value] at hle
  exact absurd hle (by norm_num)

theorem quantity_accepted_iff_half :
    (Accepts vietnamese.tables "mua" "btc" "0.5" "60,000" ↔ IsQuantity "0.5") ↔
      ¬JustAbove (fold vietnamese.tables "0.5") ∧
        (IsQuantity (fold vietnamese.tables "0.5") → fold vietnamese.tables "0.5" = "0.5") :=
  quantity_accepted_iff vietnamese "mua" "btc" "0.5" "60,000"
    ⟨by decide +kernel, by decide +kernel, by decide +kernel⟩

end Commands

end CryptoZaloBot
