import CryptoZaloBot.Base.Words
import CryptoZaloBot.Commands.Letters

/-!
# The words of a message

What the parser makes of a message depends on its words only: the command is the first one
without its slash, and the others are the arguments (`CryptoZaloBot.Commands.commandWords`).

A command that lists coins (`CryptoZaloBot.Commands.ListsCoins`) has the symbols of its arguments
(`CryptoZaloBot.Commands.parse_of_listsCoins`), which are their pieces between commas, folded
(`CryptoZaloBot.Commands.parseSymbols_eq`). All others have at most one, or none
(`CryptoZaloBot.Commands.parse_of_not_listsCoins`). The name of the command counts without its
accents, up to one place: `/price` is looked up as it was typed
(`CryptoZaloBot.Commands.parse_congr`).
-/

namespace CryptoZaloBot

namespace Commands

open Prices (isTrimmed trimChars)
open Words (splitWords)

/-! ### Words -/

/-- The words of a command, without its slash. -/
def commandWords (rawText : String) : List String :=
  match (Prices.trim rawText).toList with
  | '/' :: text => words (String.ofList text)
  | _ => []

theorem trim_eq_self {s : String} (h : ∀ c ∈ s.toList, isTrimmed c = false) :
    Prices.trim s = s := by
  have htrim : trimChars s.toList = s.toList := UnicodeData.trimChars_eq_self_iff.mpr
    ⟨fun c hc => h c (List.mem_of_mem_head? hc), fun c hc => h c (List.mem_of_getLast? hc)⟩
  rw [Prices.trim, htrim, String.ofList_toList]

/-- The pieces of a text are trimmed already. -/
theorem filter_trim_splitOnP {p : Char → Bool} {cs : List Char}
    (h : ∀ w ∈ cs.splitOnP p, ∀ c ∈ w, isTrimmed c = false) :
    (((cs.splitOnP p).map String.ofList).map Prices.trim).filter (· ≠ "") =
      (splitWords p cs).map String.ofList := by
  have htrim : ((cs.splitOnP p).map String.ofList).map Prices.trim =
      (cs.splitOnP p).map String.ofList := by
    rw [List.map_map]
    refine List.map_congr_left fun w hw => trim_eq_self ?_
    rw [String.toList_ofList]
    exact h w hw
  rw [htrim, List.filter_map, splitWords]
  refine congrArg (List.map String.ofList) (List.filter_congr fun w _ => ?_)
  cases w with
  | nil => rfl
  | cons c w => exact decide_eq_true (String.ofList_eq_empty_iff.not.mpr (List.cons_ne_nil c w))

theorem words_eq (text : String) :
    words text = (splitWords isTrimmed text.toList).map String.ofList :=
  filter_trim_splitOnP fun _ hw c hc => (Words.mem_splitOnP hw c hc).1

/-- **A word** is not empty and has no white space in it. -/
theorem mem_words {text s : String} (h : s ∈ words text) :
    s ≠ "" ∧ ∀ c ∈ s.toList, isTrimmed c = false ∧ c ∈ text.toList := by
  rw [words_eq] at h
  obtain ⟨w, hw, rfl⟩ := List.mem_map.mp h
  obtain ⟨hne, hall⟩ := Words.mem_splitWords hw
  rw [String.toList_ofList]
  exact ⟨String.ofList_eq_empty_iff.not.mpr hne, hall⟩

theorem exists_of_commandWords {rawText : String} {rawCommand : String} {rawSymbols : List String}
    (h : commandWords rawText = rawCommand :: rawSymbols) :
    ∃ text, (Prices.trim rawText).toList = '/' :: text ∧
      words (String.ofList text) = rawCommand :: rawSymbols := by
  rw [commandWords] at h
  split at h
  · next text htext => exact ⟨text, htext, h⟩
  · cases h

theorem mem_commandWords {rawText s : String} (h : s ∈ commandWords rawText) :
    s ≠ "" ∧ ∀ c ∈ s.toList, isTrimmed c = false := by
  rw [commandWords] at h
  split at h
  · exact ⟨(mem_words h).1, fun c hc => ((mem_words h).2 c hc).1⟩
  · cases h

theorem splitWords_trimChars (cs : List Char) :
    splitWords isTrimmed (trimChars cs) = splitWords isTrimmed cs := by
  rw [trimChars, Words.splitWords_rdropWhile, Words.splitWords_dropWhile]

/-- **The words of a command are the words of the message**, the first without its slash. -/
theorem commandWords_of_slash {rawText : String} {w : List Char} {ws : List (List Char)}
    (h : splitWords isTrimmed rawText.toList = ('/' :: w) :: ws) :
    commandWords rawText = ((w :: ws).filter fun w => !w.isEmpty).map String.ofList := by
  have htoList : (Prices.trim rawText).toList = trimChars rawText.toList := String.toList_ofList
  rw [← splitWords_trimChars] at h
  cases htrim : trimChars rawText.toList with
  | nil =>
    rw [htrim, Words.splitWords_nil] at h
    cases h
  | cons c cs =>
    have hhead := (UnicodeData.trimChars_eq_self_iff.mp
      (Prices.trimChars_trimChars rawText.toList)).1
    rw [htrim] at hhead h
    have hc : isTrimmed c = false := hhead c rfl
    obtain ⟨v, vs, hcs⟩ := Words.exists_splitOnP isTrimmed cs
    obtain rfl : c = '/' := by
      rw [Words.splitWords_cons_of_neg hc hcs] at h
      exact (List.cons_eq_cons.mp (List.cons_eq_cons.mp h).1).1
    rw [commandWords, htoList, htrim]
    change words (String.ofList cs) = _
    rw [words_eq, String.toList_ofList, Words.splitWords_of_cons hc h]

/-- Without a slash there is no command. -/
theorem commandWords_of_ne {rawText : String}
    (h : ∀ w ws, splitWords isTrimmed rawText.toList ≠ ('/' :: w) :: ws) :
    commandWords rawText = [] := by
  have htoList : (Prices.trim rawText).toList = trimChars rawText.toList := String.toList_ofList
  rw [commandWords, htoList]
  split
  · next text htext =>
    obtain ⟨v, vs, htext'⟩ := Words.exists_splitOnP isTrimmed text
    refine absurd ?_ (h v (vs.filter fun w => !w.isEmpty))
    rw [← splitWords_trimChars, htext, Words.splitWords_cons_of_neg (by decide) htext']
  · rfl

/-! ### Symbols -/

/-- The pieces of the arguments between commas. -/
def pieces (rawSymbols : List String) : List String :=
  rawSymbols.flatMap fun token => (splitWords (· == ',') token.toList).map String.ofList

theorem mem_pieces {rawSymbols : List String} {s : String} (h : s ∈ pieces rawSymbols) :
    s ≠ "" ∧ ∃ token ∈ rawSymbols, ∀ c ∈ s.toList, c ≠ ',' ∧ c ∈ token.toList := by
  obtain ⟨token, htoken, hs⟩ := List.mem_flatMap.mp h
  obtain ⟨w, hw, rfl⟩ := List.mem_map.mp hs
  obtain ⟨hne, hall⟩ := Words.mem_splitWords hw
  refine ⟨String.ofList_eq_empty_iff.not.mpr hne, token, htoken, fun c hc => ?_⟩
  rw [String.toList_ofList] at hc
  exact ⟨by simpa using (hall c hc).1, (hall c hc).2⟩

/-- **The symbols are the pieces, folded**, each once. -/
theorem parseSymbols_eq (tables : UnicodeTables) {rawSymbols : List String}
    (h : ∀ token ∈ rawSymbols, ∀ c ∈ token.toList, isTrimmed c = false) :
    parseSymbols tables rawSymbols = unique ((pieces rawSymbols).map (fold tables)) := by
  rw [parseSymbols, pieces]
  congr 2
  rw [List.map_flatMap, List.filter_flatMap]
  refine List.flatMap_congr fun token htoken => ?_
  rw [List.splitOn_eq_splitOnP]
  exact filter_trim_splitOnP fun w hw c hc =>
    h token htoken c (Words.mem_splitOnP hw c hc).2

/-! ### Commands -/

variable {tables : UnicodeTables} {rawText rawText' rawCommand rawCommand' : String}
  {rawSymbols rawSymbols' : List String}

/-- The command lists coins: `/dangky`, `/watchlist` or `/gia`, by any of their names. -/
def ListsCoins (tables : UnicodeTables) (rawCommand : String) : Prop :=
  fold tables rawCommand ∈ subscribeCommandAliases ∨
    fold tables rawCommand ∈ watchlistCommandAliases ∨
    tables.toLowerCase rawCommand ∈ priceCommandAliases ∨ fold tables rawCommand = "gia"

theorem parse_of_nil (h : commandWords rawText = []) : parse tables rawText = .unknown := by
  rw [commandWords] at h
  rw [parse]
  split
  · next text htext =>
    rw [htext] at h
    change words (String.ofList text) = [] at h
    rw [h]
  · rfl

/-- **What the parser looks at**: the name of the command without its accents, the arguments
folded, the symbols, and whether the name is one of `/gia` as it was typed. -/
theorem parse_congr (h : commandWords rawText = rawCommand :: rawSymbols)
    (h' : commandWords rawText' = rawCommand' :: rawSymbols')
    (hcommand : fold tables rawCommand' = fold tables rawCommand)
    (hargs : rawSymbols'.map (fold tables) = rawSymbols.map (fold tables))
    (hsymbols : parseSymbols tables rawSymbols' = parseSymbols tables rawSymbols)
    (hprice : tables.toLowerCase rawCommand' ∈ priceCommandAliases ∨
        fold tables rawCommand = "gia" ↔
      tables.toLowerCase rawCommand ∈ priceCommandAliases ∨ fold tables rawCommand = "gia") :
    parse tables rawText' = parse tables rawText := by
  obtain ⟨text, htext, hwords⟩ := exists_of_commandWords h
  obtain ⟨text', htext', hwords'⟩ := exists_of_commandWords h'
  have hnil : rawSymbols' = [] ↔ rawSymbols = [] := by
    rw [← List.map_eq_nil_iff (f := fold tables), hargs, List.map_eq_nil_iff]
  simp only [parse, htext, htext', hwords, hwords', hcommand, hsymbols, parseAlert, parsePortfolio,
    parseSignal, hargs, hnil, ← not_or, hprice]

/-! ### Commands that list coins -/

variable (data : UnicodeData)

theorem fold_toLowerCase (s : String) :
    fold data.tables (data.tables.toLowerCase s) = fold data.tables s := by
  have hlower : data.tables.toLowerCase (data.tables.toLowerCase s) =
      data.tables.toLowerCase s := by
    simp only [UnicodeData.tables, String.toList_ofList, UnicodeData.toLowerCase_toLowerCase]
  rw [fold, hlower, fold]

theorem foldChar_acute :
    foldChar data '\u00ed' = ['i'] ∧ foldChar data '\u00e1' = ['a'] := by
  have hi : (⟨'\u00ed', '\u00cd', ['i', '\u0301']⟩ : VietnameseLetter) ∈ vietnameseLetters := by
    simp [vietnameseLetters]
  have ha : (⟨'\u00e1', '\u00c1', ['a', '\u0301']⟩ : VietnameseLetter) ∈ vietnameseLetters := by
    simp [vietnameseLetters]
  exact ⟨(foldChar_of_mem hi (Or.inl rfl)).trans (by decide),
    (foldChar_of_mem ha (Or.inl rfl)).trans (by decide)⟩

/-- The names of `/gia` without their accents. -/
theorem fold_of_priceAlias {s : String} (h : data.tables.toLowerCase s ∈ priceCommandAliases) :
    fold data.tables s = "gia" ∨
      data.tables.toLowerCase s = "price" ∧ fold data.tables s = "price" := by
  obtain ⟨hi, ha⟩ := foldChar_acute data
  have hg : foldChar data 'g' = ['g'] := foldChar_of_isPlain (by decide)
  have hi' : foldChar data 'i' = ['i'] := foldChar_of_isPlain (by decide)
  have ha' : foldChar data 'a' = ['a'] := foldChar_of_isPlain (by decide)
  rw [← fold_toLowerCase]
  simp only [priceCommandAliases, List.mem_cons, List.not_mem_nil, or_false] at h
  rcases h with h | h | h | h
  · rw [h]
    exact Or.inl (fold_eq_self (by decide))
  · refine Or.inl (String.toList_inj.mp ?_)
    rw [h, toList_fold_of_typed (by decide)]
    change ['g', '\u00ed', 'a'].flatMap (foldChar data) = ['g', 'i', 'a']
    simp [hg, hi, ha']
  · refine Or.inl (String.toList_inj.mp ?_)
    rw [h, toList_fold_of_typed (by decide)]
    change ['g', 'i', '\u00e1'].flatMap (foldChar data) = ['g', 'i', 'a']
    simp [hg, hi', ha]
  · refine Or.inr ⟨h, ?_⟩
    rw [h]
    exact fold_eq_self (by decide)

variable {data}

/-- **A command that lists coins** has the symbols of its arguments. -/
theorem parse_of_listsCoins (h : commandWords rawText = rawCommand :: rawSymbols)
    (hlists : ListsCoins data.tables rawCommand) :
    parse data.tables rawText = .subscribe (parseSymbols data.tables rawSymbols) ∨
      parse data.tables rawText = .watchlist (parseSymbols data.tables rawSymbols) ∨
      parse data.tables rawText = .price (parseSymbols data.tables rawSymbols) ∨
      parse data.tables rawText = .topMarkets ∧ rawSymbols = [] := by
  obtain ⟨text, htext, hwords⟩ := exists_of_commandWords h
  -- No name of such a command is one of a command that is looked for before.
  have hsubscribe : ∀ s ∈ subscribeCommandAliases,
      s ∉ helpCommandAliases ∧ s ∉ unsubscribeCommandAliases := by decide
  have hwatchlist : ∀ s ∈ watchlistCommandAliases, s ∉ helpCommandAliases ∧
      s ∉ unsubscribeCommandAliases ∧ s ∉ subscribeCommandAliases := by decide
  have hprice : ∀ s ∈ ["gia", "price"], s ∉ helpCommandAliases ∧ s ∉ unsubscribeCommandAliases ∧
      s ∉ subscribeCommandAliases ∧ s ∉ watchlistCommandAliases ∧ s ∉ alertCommandAliases ∧
      s ∉ portfolioCommandAliases ∧ s ∉ signalCommandAliases := by decide
  simp only [parse, htext, hwords]
  rcases hlists with hmem | hmem | hmem
  · obtain ⟨hhelp, hunsubscribe⟩ := hsubscribe _ hmem
    rw [if_neg hhelp, if_neg hunsubscribe, if_pos hmem]
    exact Or.inl rfl
  · obtain ⟨hhelp, hunsubscribe, hnot⟩ := hwatchlist _ hmem
    rw [if_neg hhelp, if_neg hunsubscribe, if_neg hnot, if_pos hmem]
    exact Or.inr (Or.inl rfl)
  · have hname : fold data.tables rawCommand ∈ ["gia", "price"] := by
      rw [List.mem_pair]
      exact hmem.elim (fun halias => (fold_of_priceAlias data halias).imp_right And.right) Or.inl
    obtain ⟨hhelp, hunsubscribe, h₁, h₂, h₃, h₄, h₅⟩ := hprice _ hname
    have hfound : ¬(data.tables.toLowerCase rawCommand ∉ priceCommandAliases ∧
        fold data.tables rawCommand ≠ "gia") := fun hnot => hmem.elim hnot.1 hnot.2
    rw [if_neg hhelp, if_neg hunsubscribe, if_neg h₁, if_neg h₂, if_neg h₃, if_neg h₄, if_neg h₅,
      if_neg hfound]
    split_ifs with hnil
    · exact Or.inr (Or.inr (Or.inr ⟨rfl, hnil⟩))
    · exact Or.inr (Or.inr (Or.inl rfl))

/-- **Any other command** has arguments of its own, or none. -/
theorem parse_of_not_listsCoins (h : commandWords rawText = rawCommand :: rawSymbols)
    (hlists : ¬ListsCoins tables rawCommand) :
    parse tables rawText = parseAlert tables rawSymbols ∨
      parse tables rawText = parsePortfolio tables rawSymbols ∨
      parse tables rawText = parseSignal tables rawSymbols ∨
      parse tables rawText ∈ [.help, .unsubscribe, .unknown] := by
  obtain ⟨text, htext, hwords⟩ := exists_of_commandWords h
  rw [ListsCoins, not_or, not_or, not_or] at hlists
  obtain ⟨hsubscribe, hwatchlist, hprice, hgia⟩ := hlists
  simp only [parse, htext, hwords, if_neg hsubscribe, if_neg hwatchlist,
    if_pos (And.intro hprice hgia)]
  split_ifs
  · simp
  · simp
  · exact Or.inl rfl
  · exact Or.inr (Or.inl rfl)
  · exact Or.inr (Or.inr (Or.inl rfl))
  · simp

end Commands

end CryptoZaloBot
