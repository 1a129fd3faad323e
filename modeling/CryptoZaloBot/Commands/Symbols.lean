import CryptoZaloBot.Commands.Messages
import CryptoZaloBot.Commands.Trades
import CryptoZaloBot.Commands.Vietnamese

/-!
# Symbols of a command

Whatever a message is, the symbols the parser takes from it are meant to be clean: not empty,
without separators, capitals of ASCII and accents, none of them twice, and where a command is
about one coin, a symbol that can be stored (`CryptoZaloBot.Commands.SymbolsWellFormed`).

The commands about one coin check their symbol after it was folded. The others list coins, and
there the empty pieces are left out *before* the accents are taken off: a piece of nothing but
accents becomes an empty symbol. This is the only way to get a symbol that is not clean
(`CryptoZaloBot.Commands.symbolsWellFormed_iff`).
-/

namespace CryptoZaloBot

namespace Commands

open Portfolio (utf16Length)
open Prices (isTrimmed)

/-- **A clean symbol.** -/
structure IsSymbol (s : String) : Prop where
  ne_empty : s ≠ ""
  char : ∀ c ∈ s.toList, isTrimmed c = false ∧ c ≠ ',' ∧ c.isUpper = false ∧
    isCombiningMark c = false

/-- A command about one coin. -/
def ParsedCommand.AboutOneCoin : ParsedCommand → Prop
  | alertCreate _ _ _ | portfolioTrade _ _ _ _ | signalBacktest _ | signalView (some _) => True
  | _ => False

/-- **What the symbols of a command should be.** -/
structure SymbolsWellFormed (command : ParsedCommand) : Prop where
  symbol : ∀ s ∈ command.symbols, IsSymbol s
  nodup : command.symbols.Nodup
  one : command.AboutOneCoin → ∃ s, command.symbols = [s] ∧ (1 ≤ s.length ∧ s.length ≤ 20) ∧
    ∀ c ∈ s.toList, c.isLower = true ∨ c.isDigit = true

/-- One of the coins a command lists is written with nothing but accents. -/
def HasStrayMarks (tables : UnicodeTables) (rawText : String) : Prop :=
  ∃ rawCommand rawSymbols, commandWords rawText = rawCommand :: rawSymbols ∧
    ListsCoins tables rawCommand ∧ ∃ s ∈ pieces rawSymbols, ∀ c ∈ s.toList, isCombiningMark c = true

/-! ### One coin, or none -/

theorem all_of_symbolPattern {s : String} (h : symbolPattern s = true) :
    s ≠ "" ∧ ∀ c ∈ s.toList, c.isLower = true ∨ c.isDigit = true := by
  rw [symbolPattern, Bool.and_eq_true, decide_eq_true_eq, List.all_eq_true] at h
  exact ⟨h.1, fun c hc => Bool.or_eq_true_iff.mp (h.2 c hc)⟩

theorem isSymbol_of_symbolPattern {s : String} (h : symbolPattern s = true) : IsSymbol s := by
  obtain ⟨hne, hall⟩ := all_of_symbolPattern h
  refine ⟨hne, fun c hc => ?_⟩
  have hascii : isAscii c = true := by
    rcases hall c hc with hlower | hdigit
    · exact isAscii_of_isAlpha (Bool.or_eq_true_iff.mpr (Or.inr hlower))
    · have hle : c.val ≤ '9'.val := of_decide_eq_true (Bool.and_eq_true_iff.mp hdigit).2
      exact decide_eq_true (lt_of_le_of_lt (UInt32.le_iff_toNat_le.mp hle) (by decide))
  have hchar : c.isLower = true ∨ c.isDigit = true → isTrimmed c = false ∧ c ≠ ',' ∧
      c.isUpper = false ∧ isCombiningMark c = false := of_isAscii (by decide) hascii
  exact hchar (hall c hc)

theorem ParsedCommand.AboutOneCoin.exists_symbol {command : ParsedCommand}
    (h : command.AboutOneCoin) : ∃ s, command.symbols = [s] := by
  match command, h with
  | .alertCreate symbol _ _, _ => exact ⟨symbol, rfl⟩
  | .portfolioTrade symbol _ _ _, _ => exact ⟨symbol, rfl⟩
  | .signalBacktest symbol, _ => exact ⟨symbol, rfl⟩
  | .signalView (some symbol), _ => exact ⟨symbol, rfl⟩

namespace SymbolsWellFormed

variable {command : ParsedCommand} {s : String}

/-- Without symbols there is nothing to check. -/
theorem of_nil (h : command.symbols = []) : SymbolsWellFormed command := by
  refine ⟨?_, ?_, fun hone => ?_⟩
  · rw [h]
    exact nofun
  · rw [h]
    exact List.nodup_nil
  · obtain ⟨s, hs⟩ := hone.exists_symbol
    rw [h] at hs
    cases hs

/-- A symbol that was checked. -/
theorem of_one (h : command.symbols = [s]) (hpattern : symbolPattern s = true)
    (hlength : utf16Length s ≤ 20) : SymbolsWellFormed command := by
  obtain ⟨hutf16, hpos⟩ := utf16Length_of_symbolPattern hpattern
  refine ⟨?_, ?_, fun _ => ⟨s, h, ⟨hpos, hutf16 ▸ hlength⟩, (all_of_symbolPattern hpattern).2⟩⟩
  · rw [h, List.forall_mem_singleton]
    exact isSymbol_of_symbolPattern hpattern
  · rw [h]
    exact List.nodup_singleton s

end SymbolsWellFormed

section Arguments

variable {tables : UnicodeTables} {rawArgs : List String}

theorem symbolPattern_of_alertCreateMatch {text symbol rawThreshold : String}
    {direction : PriceAlerts.AlertDirection}
    (h : alertCreateMatch text = some (symbol, direction, rawThreshold)) :
    symbolPattern symbol = true := by
  have hsymbol : ∀ cs : List Char, (cs.takeWhile fun c => c.isLower || c.isDigit) ≠ [] →
      symbolPattern (String.ofList (cs.takeWhile fun c => c.isLower || c.isDigit)) = true := by
    intro cs hne
    rw [symbolPattern, Bool.and_eq_true, decide_eq_true_eq, String.toList_ofList, List.all_eq_true]
    exact ⟨String.ofList_eq_empty_iff.not.mpr hne, fun c hc => (List.mem_takeWhile_imp hc :)⟩
  rw [alertCreateMatch] at h
  dsimp only at h
  split at h
  · cases h
  · split_ifs at h with hempty habove hbelow
    · rw [Bool.or_eq_true, Bool.or_eq_true, not_or, not_or, List.isEmpty_iff] at hempty
      obtain ⟨rfl, -⟩ := Prod.mk.inj (Option.some.inj h)
      exact hsymbol _ hempty.1.1
    · rw [Bool.or_eq_true, Bool.or_eq_true, not_or, not_or, List.isEmpty_iff] at hempty
      obtain ⟨rfl, -⟩ := Prod.mk.inj (Option.some.inj h)
      exact hsymbol _ hempty.1.1

theorem symbolsWellFormed_parseAlert (tables : UnicodeTables) (rawArgs : List String) :
    SymbolsWellFormed (parseAlert tables rawArgs) := by
  rw [parseAlert]
  split
  · exact .of_nil rfl
  · split_ifs with hdelete
    · split
      · dsimp only
        split_ifs
        · exact .of_nil rfl
        · exact .of_nil rfl
      · exact .of_nil rfl
    · split
      · exact .of_nil rfl
      · next hmatch =>
        split
        · exact .of_nil rfl
        · split_ifs with hlong
          · exact .of_nil rfl
          · exact .of_one rfl (symbolPattern_of_alertCreateMatch hmatch) (not_lt.mp hlong)

theorem symbolsWellFormed_parseSignal (tables : UnicodeTables) (rawArgs : List String) :
    SymbolsWellFormed (parseSignal tables rawArgs) := by
  have hvalid : ∀ {s : String}, validSymbol s = true →
      symbolPattern s = true ∧ utf16Length s ≤ 20 := by
    intro s hs
    rw [validSymbol, Bool.and_eq_true, decide_eq_true_eq] at hs
    exact hs
  rw [parseSignal]
  split
  · exact .of_nil rfl
  · split_ifs with hempty hstats hrest hswitch hrest hbacktest hview
    · exact .of_nil rfl
    · exact .of_nil rfl
    · exact .of_nil rfl
    · exact .of_nil rfl
    · exact .of_nil rfl
    · split
      · split_ifs with hsymbol
        · exact .of_one rfl (hvalid hsymbol).1 (hvalid hsymbol).2
        · exact .of_nil rfl
      · exact .of_nil rfl
    · exact .of_one rfl (hvalid hview.2.1).1 (hvalid hview.2.1).2
    · exact .of_nil rfl

theorem symbols_elim {n : Option ℕ} {f : ℕ → ParsedCommand} (hf : ∀ k, (f k).symbols = []) :
    (n.elim .portfolioInvalid f).symbols = [] := by
  cases n with
  | none => rfl
  | some k => exact hf k

theorem symbolsWellFormed_parseTrade (side : Portfolio.TradeSide) (args : List String) :
    SymbolsWellFormed (parseTrade side args) := by
  rw [parseTrade.eq_def]
  split
  · dsimp only
    split
    · split_ifs with hsymbol
      · exact .of_nil rfl
      · rw [Bool.or_eq_true, not_or] at hsymbol
        refine .of_one rfl (by simpa using hsymbol.1) (not_lt.mp fun hlong => ?_)
        exact hsymbol.2 (decide_eq_true hlong)
    · exact .of_nil rfl
  · exact .of_nil rfl

theorem symbolsWellFormed_parsePortfolio (tables : UnicodeTables) (rawArgs : List String) :
    SymbolsWellFormed (parsePortfolio tables rawArgs) := by
  rw [parsePortfolio]
  split
  · exact .of_nil rfl
  · split
    · exact .of_nil rfl
    split
    · exact symbolsWellFormed_parseTrade _ _
    split_ifs
    -- The history, a trade that is deleted, and all of them.
    · split
      · exact .of_nil rfl
      · exact .of_nil (symbols_elim fun _ => rfl)
      · exact .of_nil rfl
    · split
      · exact .of_nil (symbols_elim fun _ => rfl)
      · exact .of_nil rfl
    · split
      · exact .of_nil rfl
      · split_ifs
        · exact .of_nil rfl
        · exact .of_nil rfl
      · exact .of_nil rfl
    · exact .of_nil rfl

end Arguments

/-! ### Many coins -/

variable {data : UnicodeData} {rawSymbols : List String}

/-- **The coins that are listed** are clean, if something is left of each. -/
theorem isSymbol_parseSymbols_iff
    (h : ∀ token ∈ rawSymbols, ∀ c ∈ token.toList, isTrimmed c = false) :
    (∀ s ∈ parseSymbols data.tables rawSymbols, IsSymbol s) ↔
      ∀ s ∈ pieces rawSymbols, ¬∀ c ∈ s.toList, isCombiningMark c = true := by
  simp only [parseSymbols_eq data.tables h, mem_unique, List.forall_mem_map]
  refine forall_congr' fun s => forall_congr' fun hs => ?_
  have hempty : fold data.tables s = "" ↔ ∀ c ∈ s.toList, isCombiningMark c = true :=
    fold_eq_empty_iff
  rw [← hempty]
  constructor
  · intro hsymbol
    exact hsymbol.ne_empty
  · intro hne
    refine ⟨hne, fun d hd => ?_⟩
    obtain ⟨hmark, hupper, c, hc, hwhite, hcomma⟩ := mem_fold hd
    obtain ⟨-, token, htoken, hall⟩ := mem_pieces hs
    obtain ⟨hnot, hmem⟩ := hall c hc
    exact ⟨hwhite (h token htoken c hmem), fun heq => hnot (hcomma heq), hupper, hmark⟩

/-- A list of coins is as clean as its symbols. -/
theorem symbolsWellFormed_of_list {command : ParsedCommand}
    (h : command.symbols = parseSymbols data.tables rawSymbols) (hone : ¬command.AboutOneCoin) :
    SymbolsWellFormed command ↔ ∀ s ∈ parseSymbols data.tables rawSymbols, IsSymbol s := by
  rw [← h]
  exact ⟨fun hwell => hwell.symbol,
    fun hall => ⟨hall, h ▸ nodup_unique _, fun habout => absurd habout hone⟩⟩

/-- **When the symbols are what they should be.** For every message: they are, unless a command
that lists coins has one that is written with nothing but accents. -/
theorem symbolsWellFormed_iff (data : UnicodeData) (rawText : String) :
    SymbolsWellFormed (parse data.tables rawText) ↔ ¬HasStrayMarks data.tables rawText := by
  cases hwords : commandWords rawText with
  | nil =>
    rw [parse_of_nil hwords]
    refine iff_of_true (.of_nil rfl) ?_
    rintro ⟨rawCommand, rawSymbols, hcons, -⟩
    rw [hwords] at hcons
    cases hcons
  | cons rawCommand rawSymbols =>
    have htokens : ∀ token ∈ rawSymbols, ∀ c ∈ token.toList, isTrimmed c = false :=
      fun token htoken => (mem_commandWords (hwords ▸ List.mem_cons_of_mem _ htoken)).2
    have hstray : HasStrayMarks data.tables rawText ↔ ListsCoins data.tables rawCommand ∧
        ∃ s ∈ pieces rawSymbols, ∀ c ∈ s.toList, isCombiningMark c = true := by
      constructor
      · rintro ⟨rawCommand', rawSymbols', hcons, hstray⟩
        rw [hwords] at hcons
        cases hcons
        exact hstray
      · exact fun hstray => ⟨rawCommand, rawSymbols, hwords, hstray⟩
    by_cases hlists : ListsCoins data.tables rawCommand
    · have hlist : SymbolsWellFormed (parse data.tables rawText) ↔
          ∀ s ∈ parseSymbols data.tables rawSymbols, IsSymbol s := by
        rcases parse_of_listsCoins hwords hlists with heq | heq | heq | ⟨heq, rfl⟩
        · exact heq ▸ symbolsWellFormed_of_list rfl id
        · exact heq ▸ symbolsWellFormed_of_list rfl id
        · exact heq ▸ symbolsWellFormed_of_list rfl id
        · exact heq ▸ symbolsWellFormed_of_list rfl id
      rw [hlist, isSymbol_parseSymbols_iff htokens, hstray, and_iff_right hlists]
      push Not
      rfl
    · refine iff_of_true ?_ fun h => hlists (hstray.mp h).1
      rcases parse_of_not_listsCoins hwords hlists with heq | heq | heq | hmem
      · exact heq ▸ symbolsWellFormed_parseAlert _ _
      · exact heq ▸ symbolsWellFormed_parsePortfolio _ _
      · exact heq ▸ symbolsWellFormed_parseSignal _ _
      · simp only [List.mem_cons, List.not_mem_nil, or_false] at hmem
        rcases hmem with heq | heq | heq <;> exact heq ▸ .of_nil rfl

/-- An accent without a letter. -/
theorem symbols_not_wellFormed :
    ¬SymbolsWellFormed (parse vietnamese.tables "/gia \u0301") := by
  have hparse : parse vietnamese.tables "/gia \u0301" = .price [""] := by decide +kernel
  rw [hparse]
  intro hwell
  exact (hwell.symbol "" (List.mem_singleton_self "")).ne_empty rfl

end Commands

end CryptoZaloBot
