import CryptoZaloBot.Commands.Messages
import CryptoZaloBot.Commands.Vietnamese

/-!
# Accents, case and spaces

A message of Vietnamese or ASCII (`CryptoZaloBot.Commands.VietnameseText`) is meant to be the
same command when it is lowercased, its accents are taken off and its runs of white space become
single spaces (`CryptoZaloBot.Commands.normalizeText`). The words of the new text are those of
the old one, folded (`CryptoZaloBot.Commands.commandWords_normalizeText`), and everything the
parser does with them folds them first, up to one comparison: the names of `/gia` are compared
with the first word as it was typed. For `gia` that makes no difference, as the word without its
accents is compared too, but it does for `price`: `/prìce` is not known
(`CryptoZaloBot.Commands.parse_normalizeText_iff`).
-/

namespace CryptoZaloBot

namespace Commands

open Prices (isTrimmed)
open Words (splitWords)

/-- An accent belongs to the letter before it, or to one with accents already. -/
def MarksLetter (b c : Char) : Prop :=
  isCombiningMark c = true → isLetter b = true ∨ isCombiningMark b = true

instance : DecidableRel MarksLetter := fun b c =>
  inferInstanceAs (Decidable (isCombiningMark c = true → isLetter b = true ∨
    isCombiningMark b = true))

/-- **A text of Vietnamese or ASCII.** -/
structure VietnameseText (cs : List Char) : Prop where
  typed : ∀ c ∈ cs, isTyped c = true
  marks : (' ' :: cs).IsChain MarksLetter

/-- Runs of white space become one space. -/
def collapseSpaces (s : String) : String :=
  String.ofList (Words.collapse isTrimmed ' ' s.toList)

/-- **The text in lower case, without accents and with single spaces.** -/
def normalizeText (tables : UnicodeTables) (text : String) : String :=
  collapseSpaces (fold tables text)

/-- The command is `price`, but with accents. -/
def AccentedPrice (tables : UnicodeTables) (text : String) : Prop :=
  ∃ rawCommand rawSymbols, commandWords text = rawCommand :: rawSymbols ∧
    fold tables rawCommand = "price" ∧ tables.toLowerCase rawCommand ≠ "price"

/-! ### Texts of Vietnamese -/

theorem not_isTrimmed_of_isLetter {c : Char} (h : isLetter c = true) : isTrimmed c = false := by
  rw [isLetter, Bool.or_eq_true, List.any_eq_true] at h
  rcases h with halpha | ⟨letter, hmem, hc⟩
  · have hc : c.isAlpha = true → isTrimmed c = false :=
      of_isAscii (by decide) (isAscii_of_isAlpha halpha)
    exact hc halpha
  · rw [Bool.or_eq_true, beq_iff_eq, beq_iff_eq] at hc
    exact (letter_apart hmem (hc.imp Eq.symm Eq.symm)).2.2.1

namespace VietnameseText

variable {cs : List Char}

/-- Behind what is neither a letter nor an accent stands no accent. -/
theorem of_cons {b : Char} (htyped : ∀ c ∈ cs, isTyped c = true) (hletter : isLetter b = false)
    (hmark : isCombiningMark b = false) (h : (b :: cs).IsChain MarksLetter) :
    VietnameseText cs := by
  refine ⟨htyped, ?_⟩
  cases cs with
  | nil => exact List.isChain_singleton ' '
  | cons c cs =>
    obtain ⟨hbc, hrest⟩ := List.isChain_cons_cons.mp h
    refine List.isChain_cons_cons.mpr ⟨fun hc => ?_, hrest⟩
    rcases hbc hc with hb | hb
    · exact absurd (hb.symm.trans hletter) nofun
    · exact absurd (hb.symm.trans hmark) nofun

theorem head_not_mark {c : Char} (h : VietnameseText (c :: cs)) : isCombiningMark c = false := by
  rw [← Bool.not_eq_true]
  intro hc
  rcases (List.isChain_cons_cons.mp h.marks).1 hc with hspace | hspace
  · exact absurd hspace (by decide)
  · exact absurd hspace (by decide)

/-- What is between two separators is a text of Vietnamese again. -/
theorem of_mem_splitWords {p : Char → Bool} (h : VietnameseText cs)
    (hp : ∀ s, p s = true → isLetter s = false ∧ isCombiningMark s = false) {w : List Char}
    (hw : w ∈ splitWords p cs) : VietnameseText w := by
  have hmem : w ∈ cs.splitOnP p := (List.mem_filter.mp hw).1
  have htyped : ∀ c ∈ w, isTyped c = true := fun c hc =>
    h.typed c (Words.mem_splitOnP hmem c hc).2
  obtain ⟨v, vs, hcs⟩ := Words.exists_splitOnP p cs
  obtain ⟨hv, hvs⟩ := Words.isChain_splitOnP h.marks hcs
  rw [hcs] at hmem
  rcases List.mem_cons.mp hmem with rfl | hmem
  · exact ⟨htyped, hv⟩
  · obtain ⟨s, hs, hchain⟩ := hvs w hmem
    exact of_cons htyped (hp s hs).1 (hp s hs).2 hchain

end VietnameseText

variable {data : UnicodeData}

/-- Something is left of a text that is folded. -/
theorem flatMap_foldChar_ne_nil (data : UnicodeData) {cs : List Char} (h : VietnameseText cs)
    (hne : cs ≠ []) : cs.flatMap (foldChar data) ≠ [] := by
  cases cs with
  | nil => exact absurd rfl hne
  | cons c cs =>
    have hc : ∃ d, foldChar data c = [d] := by
      cases hwhite : isTrimmed c with
      | true =>
        obtain ⟨d, hd, -⟩ := foldChar_of_isTrimmed hwhite
        exact ⟨d, hd⟩
      | false =>
        obtain ⟨d, hd, -⟩ := foldChar_of_typed data (h.typed c List.mem_cons_self) hwhite
          h.head_not_mark
        exact ⟨d, hd⟩
    obtain ⟨d, hd⟩ := hc
    rw [List.flatMap_cons, hd]
    exact List.cons_ne_nil d _

/-- White space stays white space, and nothing else becomes white space. -/
theorem keepsSeparators_white {cs : List Char} (h : ∀ c ∈ cs, isTyped c = true) :
    Words.KeepsSeparators isTrimmed isTrimmed (foldChar data) cs where
  separator c _ hwhite := foldChar_of_isTrimmed hwhite
  other c hc hwhite d hd := by
    cases hmark : isCombiningMark c with
    | true =>
      rw [foldChar_of_isCombiningMark hmark] at hd
      cases hd
    | false =>
      obtain ⟨e, he, -, hnot, -⟩ := foldChar_of_typed data (h c hc) hwhite hmark
      rw [he, List.mem_singleton] at hd
      exact hd ▸ hnot

theorem keepsSeparators_comma {cs : List Char} (h : ∀ c ∈ cs, isTyped c = true) :
    Words.KeepsSeparators (· == ',') (· == ',') (foldChar data) cs where
  separator c _ hcomma := by
    obtain rfl : c = ',' := eq_of_beq hcomma
    exact ⟨',', foldChar_of_isPlain (by decide), rfl⟩
  other c hc hcomma d hd := by
    cases hmark : isCombiningMark c with
    | true =>
      rw [foldChar_of_isCombiningMark hmark] at hd
      cases hd
    | false =>
      cases hwhite : isTrimmed c with
      | true =>
        obtain ⟨e, he, hnot⟩ := foldChar_of_isTrimmed hwhite
        rw [he, List.mem_singleton] at hd
        subst hd
        rw [beq_eq_false_iff_ne]
        rintro rfl
        exact absurd hnot (by decide)
      | false =>
        obtain ⟨e, he, -, -, hiff, -⟩ := foldChar_of_typed data (h c hc) hwhite hmark
        rw [he, List.mem_singleton] at hd
        subst hd
        rw [beq_eq_false_iff_ne] at hcomma ⊢
        exact fun heq => hcomma (hiff.mp heq)

/-! ### Their words -/

theorem fold_ofList {w : List Char} (h : VietnameseText w) :
    fold data.tables (String.ofList w) = String.ofList (w.flatMap (foldChar data)) := by
  rw [← String.toList_inj, toList_fold_of_typed, String.toList_ofList, String.toList_ofList]
  rw [String.toList_ofList]
  exact h.typed

theorem white_apart {s : Char} (h : isTrimmed s = true) :
    isLetter s = false ∧ isCombiningMark s = false := by
  refine ⟨?_, not_isCombiningMark_of_isTrimmed h⟩
  rw [← Bool.not_eq_true]
  intro hletter
  rw [not_isTrimmed_of_isLetter hletter] at h
  cases h

theorem comma_apart {s : Char} (h : (s == ',') = true) :
    isLetter s = false ∧ isCombiningMark s = false := by
  obtain rfl : s = ',' := eq_of_beq h
  decide

/-- The words of the new text. -/
theorem splitWords_normalizeText (data : UnicodeData) {text : String}
    (h : VietnameseText text.toList) :
    splitWords isTrimmed (normalizeText data.tables text).toList =
      (splitWords isTrimmed text.toList).map fun w => w.flatMap (foldChar data) := by
  rw [normalizeText, collapseSpaces, String.toList_ofList, Words.splitWords_collapse (by decide),
    toList_fold_of_typed h.typed, Words.splitWords_flatMap (keepsSeparators_white h.typed)]
  intro w hw
  exact flatMap_foldChar_ne_nil data (h.of_mem_splitWords (fun _ => white_apart) hw)
    (Words.mem_splitWords hw).1

/-- What is behind the slash. -/
theorem vietnameseText_of_slash {w : List Char} (h : VietnameseText ('/' :: w)) :
    VietnameseText w :=
  .of_cons (fun c hc => h.typed c (List.mem_cons_of_mem _ hc)) (by decide) (by decide)
    (List.isChain_cons_cons.mp h.marks).2

/-- The words of a command are such texts themselves. -/
theorem vietnameseText_of_mem_commandWords {text s : String} (h : VietnameseText text.toList)
    (hs : s ∈ commandWords text) : VietnameseText s.toList := by
  have hword : ∀ w ∈ splitWords isTrimmed text.toList, VietnameseText w := fun w hw =>
    h.of_mem_splitWords (fun _ => white_apart) hw
  by_cases hslash : ∃ w ws, splitWords isTrimmed text.toList = ('/' :: w) :: ws
  · obtain ⟨w, ws, hwords⟩ := hslash
    rw [commandWords_of_slash hwords] at hs
    obtain ⟨v, hv, rfl⟩ := List.mem_map.mp hs
    rw [String.toList_ofList]
    rw [hwords] at hword
    rcases List.mem_cons.mp (List.mem_filter.mp hv).1 with rfl | hv
    · exact vietnameseText_of_slash (hword _ List.mem_cons_self)
    · exact hword v (List.mem_cons_of_mem _ hv)
  · rw [commandWords_of_ne fun w ws hwords => hslash ⟨w, ws, hwords⟩] at hs
    cases hs

/-- Of a word that is folded the slash stays, and there is none that was not there. -/
theorem flatMap_foldChar_eq_slash {w v : List Char} (h : VietnameseText w)
    (hwhite : ∀ c ∈ w, isTrimmed c = false) (heq : w.flatMap (foldChar data) = '/' :: v) :
    ∃ w', w = '/' :: w' := by
  cases w with
  | nil => cases heq
  | cons c w =>
    obtain ⟨d, hd, -, -, -, hslash⟩ := foldChar_of_typed data (h.typed c List.mem_cons_self)
      (hwhite c List.mem_cons_self) h.head_not_mark
    rw [List.flatMap_cons, hd] at heq
    exact ⟨w, by rw [hslash.mp (List.cons_eq_cons.mp heq).1]⟩

/-- A word is empty after it is folded if it was so before. -/
theorem filter_flatMap_foldChar (data : UnicodeData) {ws : List (List Char)}
    (h : ∀ w ∈ ws, VietnameseText w) :
    ws.filter ((fun w => !w.isEmpty) ∘ fun w => w.flatMap (foldChar data)) =
      ws.filter fun w => !w.isEmpty := by
  refine List.filter_congr fun w hw => ?_
  cases w with
  | nil => rfl
  | cons c w =>
    have hne := flatMap_foldChar_ne_nil data (h _ hw) (List.cons_ne_nil c w)
    simpa using hne

/-- **The words of the command are folded**, and that is all. -/
theorem commandWords_normalizeText (data : UnicodeData) {text : String}
    (h : VietnameseText text.toList) :
    commandWords (normalizeText data.tables text) =
      (commandWords text).map (fold data.tables) := by
  have hnew := splitWords_normalizeText data h
  have hword : ∀ w ∈ splitWords isTrimmed text.toList, VietnameseText w := fun w hw =>
    h.of_mem_splitWords (fun _ => white_apart) hw
  by_cases hslash : ∃ w ws, splitWords isTrimmed text.toList = ('/' :: w) :: ws
  · obtain ⟨w, ws, hwords⟩ := hslash
    rw [hwords] at hword
    have hall : ∀ v ∈ w :: ws, VietnameseText v := List.forall_mem_cons.mpr
      ⟨vietnameseText_of_slash (hword _ List.mem_cons_self),
        fun v hv => hword v (List.mem_cons_of_mem _ hv)⟩
    have hfirst : foldChar data '/' = ['/'] := foldChar_of_isPlain (by decide)
    rw [hwords, List.map_cons, List.flatMap_cons, hfirst, List.singleton_append] at hnew
    rw [commandWords_of_slash hwords, commandWords_of_slash hnew, ← List.map_cons,
      List.filter_map, List.map_map, List.map_map]
    rw [filter_flatMap_foldChar data hall]
    refine List.map_congr_left fun v hv => ?_
    exact (fold_ofList (hall v (List.mem_filter.mp hv).1)).symm
  · rw [commandWords_of_ne fun w ws hwords => hslash ⟨w, ws, hwords⟩, commandWords_of_ne]
    · rfl
    · intro v vs heq
      rw [hnew] at heq
      cases hwords : splitWords isTrimmed text.toList with
      | nil =>
        rw [hwords] at heq
        cases heq
      | cons w ws =>
        have hmem : w ∈ splitWords isTrimmed text.toList := hwords ▸ List.mem_cons_self
        rw [hwords, List.map_cons] at heq
        obtain ⟨w', rfl⟩ := flatMap_foldChar_eq_slash (hword w hmem)
          (fun c hc => ((Words.mem_splitWords hmem).2 c hc).1) (List.cons_eq_cons.mp heq).1
        exact hslash ⟨w', ws, hwords⟩

/-! ### Commands -/

section Words

variable {rawSymbols : List String}

/-- What is folded is not folded once more. -/
theorem map_fold_map_fold (h : ∀ s ∈ rawSymbols, VietnameseText s.toList ∧
    ∀ c ∈ s.toList, isTrimmed c = false) :
    (rawSymbols.map (fold data.tables)).map (fold data.tables) =
      rawSymbols.map (fold data.tables) := by
  rw [List.map_map]
  exact List.map_congr_left fun s hs =>
    fold_fold fun c hc => ⟨(h s hs).1.typed c hc, (h s hs).2 c hc⟩

/-- The pieces between commas are folded, too. -/
theorem pieces_map_fold (h : ∀ s ∈ rawSymbols, VietnameseText s.toList) :
    pieces (rawSymbols.map (fold data.tables)) = (pieces rawSymbols).map (fold data.tables) := by
  rw [pieces, pieces, List.flatMap_map, List.map_flatMap]
  refine List.flatMap_congr fun s hs => ?_
  have hs' := h s hs
  rw [toList_fold_of_typed hs'.typed, Words.splitWords_flatMap (keepsSeparators_comma hs'.typed),
    List.map_map, List.map_map]
  · exact List.map_congr_left fun w hw =>
      (fold_ofList (hs'.of_mem_splitWords (fun _ => comma_apart) hw)).symm
  · intro w hw
    exact flatMap_foldChar_ne_nil data (hs'.of_mem_splitWords (fun _ => comma_apart) hw)
      (Words.mem_splitWords hw).1

theorem parseSymbols_map_fold (h : ∀ s ∈ rawSymbols, VietnameseText s.toList ∧
    ∀ c ∈ s.toList, isTrimmed c = false) :
    parseSymbols data.tables (rawSymbols.map (fold data.tables)) =
      parseSymbols data.tables rawSymbols := by
  have hfolded : ∀ token ∈ rawSymbols.map (fold data.tables), ∀ c ∈ token.toList,
      isTrimmed c = false := by
    intro token htoken d hd
    obtain ⟨s, hs, rfl⟩ := List.mem_map.mp htoken
    obtain ⟨-, -, c, hc, hwhite, -⟩ := mem_fold hd
    exact hwhite ((h s hs).2 c hc)
  rw [parseSymbols_eq _ hfolded, parseSymbols_eq _ fun s hs => (h s hs).2,
    pieces_map_fold fun s hs => (h s hs).1, map_fold_map_fold]
  intro s hs
  obtain ⟨token, htoken, hs⟩ := List.mem_flatMap.mp hs
  obtain ⟨w, hw, rfl⟩ := List.mem_map.mp hs
  obtain ⟨htext, hwhite⟩ := h token htoken
  rw [String.toList_ofList]
  exact ⟨htext.of_mem_splitWords (fun _ => comma_apart) hw,
    fun c hc => hwhite c ((Words.mem_splitWords hw).2 c hc).2⟩

end Words

theorem lower_of_isPlain {c : Char} (h : isPlain c = true) : data.lower c = [c] := by
  rw [isPlain, Bool.or_eq_true, Bool.and_eq_true, beq_iff_eq] at h
  rcases h with ⟨hascii, hsame⟩ | h
  · rw [(data.ascii c hascii).1, hsame]
  · exact (data.punctuation c h).1

/-- What is folded is in lower case. -/
theorem toLowerCase_fold {s : String}
    (h : ∀ c ∈ s.toList, isTyped c = true ∧ isTrimmed c = false) :
    data.tables.toLowerCase (fold data.tables s) = fold data.tables s := by
  have hlower : ∀ c ∈ (fold data.tables s).toList, data.lower c = [c] := fun c hc =>
    lower_of_isPlain (isPlain_of_mem_fold data h c hc)
  rw [← String.toList_inj]
  simp only [UnicodeData.tables, String.toList_ofList]
  exact Unicode.toLowerCase_eq_self fun c hc =>
    ⟨UnicodeData.ne_capitalSigma_of_lower (hlower c hc), hlower c hc⟩

/-- **The names of `/gia`** that a word has once it is folded. -/
theorem mem_priceCommandAliases_fold (data : UnicodeData) {s : String}
    (h : ∀ c ∈ s.toList, isTyped c = true ∧ isTrimmed c = false) :
    data.tables.toLowerCase (fold data.tables s) ∈ priceCommandAliases ↔
      fold data.tables s = "gia" ∨ fold data.tables s = "price" := by
  rw [toLowerCase_fold h]
  constructor
  · intro hmem
    have hplain := isPlain_of_mem_fold data h
    simp only [priceCommandAliases, List.mem_cons, List.not_mem_nil, or_false] at hmem
    rcases hmem with heq | heq | heq | heq
    · exact Or.inl heq
    · exact absurd (hplain '\u00ed' (heq ▸ by decide)) (by decide)
    · exact absurd (hplain '\u00e1' (heq ▸ by decide)) (by decide)
    · exact Or.inr heq
  · rintro (heq | heq)
    · rw [heq]
      decide
    · rw [heq]
      decide

/-- A price command that is written with accents is not known. -/
theorem parse_of_accentedPrice {text rawCommand : String} {rawSymbols : List String}
    (h : commandWords text = rawCommand :: rawSymbols)
    (hfold : fold data.tables rawCommand = "price")
    (hlower : data.tables.toLowerCase rawCommand ≠ "price") :
    parse data.tables text = .unknown := by
  obtain ⟨text', htext, hwords⟩ := exists_of_commandWords h
  have hnot : data.tables.toLowerCase rawCommand ∉ priceCommandAliases := by
    intro hmem
    rcases fold_of_priceAlias data hmem with hgia | ⟨hprice, -⟩
    · exact absurd (hfold.symm.trans hgia) (by decide)
    · exact hlower hprice
  simp only [parse, htext, hwords, hfold]
  rw [if_neg (by decide), if_neg (by decide), if_neg (by decide), if_neg (by decide),
    if_neg (by decide), if_neg (by decide), if_neg (by decide), if_pos ⟨hnot, by decide⟩]

/-- Without accents it is, so that the two texts are different commands. -/
theorem parse_ne_of_accentedPrice {text text' rawCommand : String} {rawSymbols : List String}
    (hfold : fold data.tables rawCommand = "price")
    (hlower : data.tables.toLowerCase rawCommand ≠ "price")
    (htext : ∀ c ∈ rawCommand.toList, isTyped c = true ∧ isTrimmed c = false)
    (h : commandWords text = rawCommand :: rawSymbols)
    (h' : commandWords text' = (rawCommand :: rawSymbols).map (fold data.tables)) :
    parse data.tables text' ≠ parse data.tables text := by
  have hlists : ListsCoins data.tables (fold data.tables rawCommand) :=
    Or.inr (Or.inr (Or.inl ((mem_priceCommandAliases_fold data htext).mpr (Or.inr hfold))))
  rw [parse_of_accentedPrice h hfold hlower]
  rcases parse_of_listsCoins h' hlists with heq | heq | heq | ⟨heq, -⟩ <;> exact heq ▸ nofun

/-- Any other name is one of `/gia` without its accents if it is so with them. -/
theorem isPrice_fold_iff {s : String}
    (h : ∀ c ∈ s.toList, isTyped c = true ∧ isTrimmed c = false)
    (haccented : ¬(fold data.tables s = "price" ∧ data.tables.toLowerCase s ≠ "price")) :
    data.tables.toLowerCase (fold data.tables s) ∈ priceCommandAliases ∨
        fold data.tables s = "gia" ↔
      data.tables.toLowerCase s ∈ priceCommandAliases ∨ fold data.tables s = "gia" := by
  rw [mem_priceCommandAliases_fold data h]
  constructor
  · rintro ((hgia | hprice) | hgia)
    · exact Or.inr hgia
    · left
      rw [not_not.mp fun hlower => haccented ⟨hprice, hlower⟩]
      decide
    · exact Or.inr hgia
  · rintro (hmem | hgia)
    · exact Or.inl ((fold_of_priceAlias data hmem).imp_right And.right)
    · exact Or.inr hgia

/-- **When accents, case and spaces make no difference.** For every text of Vietnamese or ASCII:
without them it is parsed to the same command, with the same arguments, unless its command is
`price` with accents. -/
theorem parse_normalizeText_iff (data : UnicodeData) (text : String)
    (h : VietnameseText text.toList) :
    parse data.tables (normalizeText data.tables text) = parse data.tables text ↔
      ¬AccentedPrice data.tables text := by
  have hnew := commandWords_normalizeText data h
  cases hwords : commandWords text with
  | nil =>
    rw [hwords, List.map_nil] at hnew
    rw [parse_of_nil hnew, parse_of_nil hwords]
    refine iff_of_true rfl ?_
    rintro ⟨rawCommand, rawSymbols, hcons, -⟩
    rw [hwords] at hcons
    cases hcons
  | cons rawCommand rawSymbols =>
    rw [hwords] at hnew
    have hall : ∀ s ∈ rawCommand :: rawSymbols, VietnameseText s.toList ∧
        ∀ c ∈ s.toList, isTrimmed c = false := fun s hs =>
      ⟨vietnameseText_of_mem_commandWords h (hwords ▸ hs), (mem_commandWords (hwords ▸ hs)).2⟩
    obtain ⟨⟨htext, hwhite⟩, hargs⟩ := List.forall_mem_cons.mp hall
    have hcommand : ∀ c ∈ rawCommand.toList, isTyped c = true ∧ isTrimmed c = false := fun c hc =>
      ⟨htext.typed c hc, hwhite c hc⟩
    by_cases haccented : fold data.tables rawCommand = "price" ∧
        data.tables.toLowerCase rawCommand ≠ "price"
    · obtain ⟨hfold, hlower⟩ := haccented
      exact iff_of_false (parse_ne_of_accentedPrice hfold hlower hcommand hwords hnew)
        (not_not.mpr ⟨_, _, hwords, hfold, hlower⟩)
    · refine iff_of_true (parse_congr hwords hnew (fold_fold hcommand) (map_fold_map_fold hargs)
        (parseSymbols_map_fold hargs) (isPrice_fold_iff hcommand haccented)) ?_
      rintro ⟨rawCommand', rawSymbols', hcons, hfold⟩
      rw [hwords] at hcons
      cases hcons
      exact haccented hfold

/-- `/prìce btc`. -/
theorem parse_normalizeText_ne : VietnameseText "/pr\u00ecce btc".toList ∧
    parse vietnamese.tables (normalizeText vietnamese.tables "/pr\u00ecce btc") ≠
      parse vietnamese.tables "/pr\u00ecce btc" := by
  have hnew : parse vietnamese.tables (normalizeText vietnamese.tables "/pr\u00ecce btc") =
      .price ["btc"] := by decide +kernel
  have hold : parse vietnamese.tables "/pr\u00ecce btc" = .unknown := by decide +kernel
  refine ⟨⟨by decide +kernel, by decide +kernel⟩, ?_⟩
  rw [hnew, hold]
  exact nofun

theorem parse_normalizeText_iff_gia :
    parse vietnamese.tables (normalizeText vietnamese.tables "  /GI\u00c1   Btc,\u0111ot ") =
      parse vietnamese.tables "  /GI\u00c1   Btc,\u0111ot " ↔
      ¬AccentedPrice vietnamese.tables "  /GI\u00c1   Btc,\u0111ot " :=
  parse_normalizeText_iff vietnamese "  /GI\u00c1   Btc,\u0111ot "
    ⟨by decide +kernel, by decide +kernel⟩

end Commands

end CryptoZaloBot
