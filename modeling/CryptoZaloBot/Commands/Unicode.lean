import CryptoZaloBot.Base.Unicode
import CryptoZaloBot.Commands.Parser

/-!
# Texts of Unicode

The parser lowercases its arguments and takes off their accents. What it relies on of Unicode
for that is written down here, as facts about the tables of characters
(`CryptoZaloBot.Commands.UnicodeData`): a lower case has no other lower case, also when it is
decomposed; white space and commas come out of nothing else; the marks that are taken off
decompose into such marks, and nothing else into these alone; texts of ASCII do not decompose;
and the letters of Vietnamese decompose as listed.

A folded text then has no capital of ASCII, no mark and no separator that was not there
(`CryptoZaloBot.Commands.mem_fold`), and it is empty only if there were only marks
(`CryptoZaloBot.Commands.fold_eq_empty_iff`).
-/

namespace CryptoZaloBot

namespace Commands

open Prices (isTrimmed lowerChar trimChars)
open Unicode (CharacterData capitalSigma finalSigma)

/-! ### Characters -/

/-- A letter of Vietnamese beyond ASCII, and what it decomposes into. -/
structure VietnameseLetter where
  lower : Char
  upper : Char
  parts : List Char

def vietnameseLetters : List VietnameseLetter :=
  [⟨'\u00e0', '\u00c0', ['a', '\u0300']⟩, ⟨'\u00e1', '\u00c1', ['a', '\u0301']⟩,
    ⟨'\u00e2', '\u00c2', ['a', '\u0302']⟩, ⟨'\u00e3', '\u00c3', ['a', '\u0303']⟩,
    ⟨'\u0103', '\u0102', ['a', '\u0306']⟩, ⟨'\u1ea1', '\u1ea0', ['a', '\u0323']⟩,
    ⟨'\u1ea3', '\u1ea2', ['a', '\u0309']⟩, ⟨'\u1ea5', '\u1ea4', ['a', '\u0302', '\u0301']⟩,
    ⟨'\u1ea7', '\u1ea6', ['a', '\u0302', '\u0300']⟩,
    ⟨'\u1ea9', '\u1ea8', ['a', '\u0302', '\u0309']⟩,
    ⟨'\u1eab', '\u1eaa', ['a', '\u0302', '\u0303']⟩,
    ⟨'\u1ead', '\u1eac', ['a', '\u0323', '\u0302']⟩,
    ⟨'\u1eaf', '\u1eae', ['a', '\u0306', '\u0301']⟩,
    ⟨'\u1eb1', '\u1eb0', ['a', '\u0306', '\u0300']⟩,
    ⟨'\u1eb3', '\u1eb2', ['a', '\u0306', '\u0309']⟩,
    ⟨'\u1eb5', '\u1eb4', ['a', '\u0306', '\u0303']⟩,
    ⟨'\u1eb7', '\u1eb6', ['a', '\u0323', '\u0306']⟩, ⟨'\u00e8', '\u00c8', ['e', '\u0300']⟩,
    ⟨'\u00e9', '\u00c9', ['e', '\u0301']⟩, ⟨'\u00ea', '\u00ca', ['e', '\u0302']⟩,
    ⟨'\u1eb9', '\u1eb8', ['e', '\u0323']⟩, ⟨'\u1ebb', '\u1eba', ['e', '\u0309']⟩,
    ⟨'\u1ebd', '\u1ebc', ['e', '\u0303']⟩, ⟨'\u1ebf', '\u1ebe', ['e', '\u0302', '\u0301']⟩,
    ⟨'\u1ec1', '\u1ec0', ['e', '\u0302', '\u0300']⟩,
    ⟨'\u1ec3', '\u1ec2', ['e', '\u0302', '\u0309']⟩,
    ⟨'\u1ec5', '\u1ec4', ['e', '\u0302', '\u0303']⟩,
    ⟨'\u1ec7', '\u1ec6', ['e', '\u0323', '\u0302']⟩, ⟨'\u00ec', '\u00cc', ['i', '\u0300']⟩,
    ⟨'\u00ed', '\u00cd', ['i', '\u0301']⟩, ⟨'\u0129', '\u0128', ['i', '\u0303']⟩,
    ⟨'\u1ec9', '\u1ec8', ['i', '\u0309']⟩, ⟨'\u1ecb', '\u1eca', ['i', '\u0323']⟩,
    ⟨'\u00f2', '\u00d2', ['o', '\u0300']⟩, ⟨'\u00f3', '\u00d3', ['o', '\u0301']⟩,
    ⟨'\u00f4', '\u00d4', ['o', '\u0302']⟩, ⟨'\u00f5', '\u00d5', ['o', '\u0303']⟩,
    ⟨'\u01a1', '\u01a0', ['o', '\u031b']⟩, ⟨'\u1ecd', '\u1ecc', ['o', '\u0323']⟩,
    ⟨'\u1ecf', '\u1ece', ['o', '\u0309']⟩, ⟨'\u1ed1', '\u1ed0', ['o', '\u0302', '\u0301']⟩,
    ⟨'\u1ed3', '\u1ed2', ['o', '\u0302', '\u0300']⟩,
    ⟨'\u1ed5', '\u1ed4', ['o', '\u0302', '\u0309']⟩,
    ⟨'\u1ed7', '\u1ed6', ['o', '\u0302', '\u0303']⟩,
    ⟨'\u1ed9', '\u1ed8', ['o', '\u0323', '\u0302']⟩,
    ⟨'\u1edb', '\u1eda', ['o', '\u031b', '\u0301']⟩,
    ⟨'\u1edd', '\u1edc', ['o', '\u031b', '\u0300']⟩,
    ⟨'\u1edf', '\u1ede', ['o', '\u031b', '\u0309']⟩,
    ⟨'\u1ee1', '\u1ee0', ['o', '\u031b', '\u0303']⟩,
    ⟨'\u1ee3', '\u1ee2', ['o', '\u031b', '\u0323']⟩, ⟨'\u00f9', '\u00d9', ['u', '\u0300']⟩,
    ⟨'\u00fa', '\u00da', ['u', '\u0301']⟩, ⟨'\u0169', '\u0168', ['u', '\u0303']⟩,
    ⟨'\u01b0', '\u01af', ['u', '\u031b']⟩, ⟨'\u1ee5', '\u1ee4', ['u', '\u0323']⟩,
    ⟨'\u1ee7', '\u1ee6', ['u', '\u0309']⟩, ⟨'\u1ee9', '\u1ee8', ['u', '\u031b', '\u0301']⟩,
    ⟨'\u1eeb', '\u1eea', ['u', '\u031b', '\u0300']⟩,
    ⟨'\u1eed', '\u1eec', ['u', '\u031b', '\u0309']⟩,
    ⟨'\u1eef', '\u1eee', ['u', '\u031b', '\u0303']⟩,
    ⟨'\u1ef1', '\u1ef0', ['u', '\u031b', '\u0323']⟩, ⟨'\u00fd', '\u00dd', ['y', '\u0301']⟩,
    ⟨'\u1ef3', '\u1ef2', ['y', '\u0300']⟩, ⟨'\u1ef5', '\u1ef4', ['y', '\u0323']⟩,
    ⟨'\u1ef7', '\u1ef6', ['y', '\u0309']⟩, ⟨'\u1ef9', '\u1ef8', ['y', '\u0303']⟩,
    ⟨'\u0111', '\u0110', ['\u0111']⟩]

def isAscii (c : Char) : Bool := c.toNat < 128

/-- What holds of the first 128 characters holds of ASCII. -/
@[elab_as_elim]
theorem of_isAscii {p : Char → Prop} (h : ∀ n, n < 128 → p (Char.ofNat n)) {c : Char}
    (hc : isAscii c = true) : p c := by
  simpa only [Char.ofNat_toNat] using h c.toNat (of_decide_eq_true hc)

/-- Punctuation beyond ASCII: of Latin-1, and dashes, quotes and dots of all kinds. -/
def isPunctuation (c : Char) : Bool :=
  (0xa1 ≤ c.toNat && c.toNat ≤ 0xbf) || (0x2010 ≤ c.toNat && c.toNat ≤ 0x2027) ||
    (0x2030 ≤ c.toNat && c.toNat ≤ 0x205e)

/-- **The tables of Unicode**, and what the parser relies on of them. -/
structure UnicodeData extends CharacterData where
  /-- `s.toUpperCase()`. -/
  toUpperCase : String → String
  lower_lower : ∀ c, ∀ d ∈ lower c, lower d = [d]
  lower_decomposition : ∀ c, lower c = [c] → ∀ d ∈ decomposition c, lower d = [d]
  lower_sigma : lower capitalSigma = ['\u03c3'] ∧ lower finalSigma = [finalSigma]
  ascii : ∀ c, isAscii c = true →
    lower c = [lowerChar c] ∧ decomposition c = [c] ∧ combiningClass c = 0
  white : ∀ c, isTrimmed c = true →
    lower c = [c] ∧ combiningClass c = 0 ∧ ∃ d, decomposition c = [d] ∧ isTrimmed d = true
  not_white : ∀ c, isTrimmed c = false →
    (lower c ≠ [] ∧ ∀ d ∈ lower c, isTrimmed d = false) ∧
      ∀ d ∈ decomposition c, isTrimmed d = false
  not_comma : ∀ c, c ≠ ',' → ',' ∉ lower c ∧ ',' ∉ decomposition c
  mark : ∀ c, isCombiningMark c = true →
    lower c = [c] ∧ ∀ d ∈ decomposition c, isCombiningMark d = true
  not_mark : ∀ c, isCombiningMark c = false →
    (∃ d ∈ lower c, isCombiningMark d = false) ∧ ∃ d ∈ decomposition c, isCombiningMark d = false
  punctuation : ∀ c, isPunctuation c = true →
    lower c = [c] ∧ decomposition c = [c] ∧ combiningClass c = 0
  vietnamese : ∀ letter ∈ vietnameseLetters, lower letter.upper = [letter.lower] ∧
    lower letter.lower = [letter.lower] ∧ decomposition letter.lower = letter.parts
  /-- The letter `đ` and its capital. -/
  dj : lower '\u0110' = ['\u0111'] ∧ combiningClass '\u0111' = 0

namespace UnicodeData

variable {data : UnicodeData}

/-! ### Lower case -/

/-- A character of a lowercased text. -/
theorem lower_of_mem_toLowerCase {cs : List Char} {d : Char}
    (h : d ∈ Unicode.toLowerCase data.toCharacterData cs) : data.lower d = [d] := by
  obtain ⟨c, -, hd | ⟨-, rfl⟩⟩ := Unicode.mem_toLowerCase h
  · exact data.lower_lower c d hd
  · exact data.lower_sigma.2

theorem ne_capitalSigma_of_lower {d : Char} (h : data.lower d = [d]) : d ≠ capitalSigma := by
  rintro rfl
  exact absurd (data.lower_sigma.1.symm.trans h) (by decide)

theorem toLowerCase_toLowerCase (cs : List Char) :
    Unicode.toLowerCase data.toCharacterData (Unicode.toLowerCase data.toCharacterData cs) =
      Unicode.toLowerCase data.toCharacterData cs := by
  refine Unicode.toLowerCase_eq_self fun d hd => ?_
  have hlower := lower_of_mem_toLowerCase hd
  exact ⟨ne_capitalSigma_of_lower hlower, hlower⟩

theorem isTrimmed_lowerBetween (data : UnicodeData) (before after : List Char) {c : Char}
    (h : isTrimmed c = false) :
    Unicode.lowerBetween data.toCharacterData before c after ≠ [] ∧
      ∀ d ∈ Unicode.lowerBetween data.toCharacterData before c after, isTrimmed d = false := by
  rcases Unicode.lowerBetween_eq data.toCharacterData before c after with heq | ⟨-, heq⟩
  · exact heq ▸ (data.not_white c h).1
  · rw [heq]
    exact ⟨List.cons_ne_nil _ _, List.forall_mem_singleton.mpr (by decide)⟩

theorem head?_toLowerCase {cs : List Char} (h : ∀ c ∈ cs.head?, isTrimmed c = false) :
    ∀ d ∈ (Unicode.toLowerCase data.toCharacterData cs).head?, isTrimmed d = false := by
  cases cs with
  | nil => exact nofun
  | cons c cs =>
    obtain ⟨hne, hall⟩ := data.isTrimmed_lowerBetween [] cs (h c rfl)
    intro d hd
    rw [Unicode.toLowerCase, Unicode.lowerFrom, List.head?_append_of_ne_nil _ hne] at hd
    exact hall d (List.mem_of_mem_head? hd)

theorem getLast?_toLowerCase {cs : List Char} (h : ∀ c ∈ cs.getLast?, isTrimmed c = false) :
    ∀ d ∈ (Unicode.toLowerCase data.toCharacterData cs).getLast?, isTrimmed d = false := by
  induction cs using List.reverseRecOn with
  | nil => exact nofun
  | append_singleton cs c _ =>
    obtain ⟨ds, hds⟩ := Unicode.lowerFrom_concat data.toCharacterData [] cs c
    obtain ⟨hne, hall⟩ := data.isTrimmed_lowerBetween (cs.reverse ++ []) [] (h c (by simp))
    intro d hd
    rw [Unicode.toLowerCase, hds, List.getLast?_append_of_ne_nil _ hne] at hd
    exact hall d (List.mem_of_getLast? hd)

/-- A text is trimmed if it neither begins nor ends with white space. -/
theorem trimChars_eq_self_iff {cs : List Char} :
    trimChars cs = cs ↔
      (∀ c ∈ cs.head?, isTrimmed c = false) ∧ ∀ c ∈ cs.getLast?, isTrimmed c = false := by
  constructor
  · intro h
    have hprefix : trimChars cs <+: cs.dropWhile isTrimmed := List.rdropWhile_prefix _ _
    have hle : cs.length ≤ (cs.dropWhile isTrimmed).length := by
      simpa only [h] using hprefix.length_le
    have hdrop : cs.dropWhile isTrimmed = cs :=
      (List.dropWhile_suffix isTrimmed).eq_of_length_le hle
    rw [trimChars, hdrop] at h
    constructor
    · intro c hc
      have hhead := List.head?_dropWhile_not isTrimmed cs
      rw [hdrop, Option.mem_def.mp hc] at hhead
      simpa using hhead
    · intro c hc
      obtain ⟨hne, rfl⟩ := List.mem_getLast?_eq_getLast hc
      simpa using List.rdropWhile_eq_self_iff.mp h hne
  · rintro ⟨hhead, hlast⟩
    have hdrop : cs.dropWhile isTrimmed = cs := by
      cases cs with
      | nil => rfl
      | cons c cs => exact List.dropWhile_cons_of_neg (by simp [hhead c rfl])
    rw [trimChars, hdrop, List.rdropWhile_eq_self_iff]
    intro hne
    simp [hlast _ (List.getLast_mem_getLast? hne)]

/-- **Trimmed, a lowercased text stays trimmed.** -/
theorem trimChars_toLowerCase (data : UnicodeData) {cs : List Char} (h : trimChars cs = cs) :
    trimChars (Unicode.toLowerCase data.toCharacterData cs) =
      Unicode.toLowerCase data.toCharacterData cs := by
  obtain ⟨hhead, hlast⟩ := trimChars_eq_self_iff.mp h
  exact trimChars_eq_self_iff.mpr ⟨head?_toLowerCase hhead, getLast?_toLowerCase hlast⟩

/-- **The mappings of texts** that these tables give. -/
def tables (data : UnicodeData) : UnicodeTables where
  toLowerCase s := String.ofList (Unicode.toLowerCase data.toCharacterData s.toList)
  toUpperCase := data.toUpperCase
  stable s := by
    have htrim : (Prices.trim s).toList = trimChars s.toList := String.toList_ofList
    have hstay := data.trimChars_toLowerCase (Prices.trimChars_trimChars s.toList)
    simp only [Prices.trim, String.toList_ofList, hstay, toLowerCase_toLowerCase]
  nfd s := String.ofList (Unicode.nfd data.toCharacterData s.toList)

theorem isUpper_of_lower (data : UnicodeData) {c : Char} (h : data.lower c = [c]) :
    c.isUpper = false := by
  rw [← Bool.not_eq_true]
  intro hupper
  obtain ⟨hge, hle⟩ := of_decide_eq_true hupper
  have hlow : 65 ≤ c.toNat := UInt32.le_iff_toNat_le.mp hge
  have hhigh : c.toNat ≤ 90 := UInt32.le_iff_toNat_le.mp hle
  have hascii : isAscii c = true := decide_eq_true (by omega)
  have hsame : lowerChar c = c := by simpa [(data.ascii c hascii).1] using h
  have hchanged : 65 ≤ c.toNat ∧ c.toNat ≤ 90 → lowerChar c ≠ c := of_isAscii (by decide) hascii
  exact hchanged ⟨hlow, hhigh⟩ hsame

end UnicodeData

/-! ### Folded texts -/

section Folded

variable (data : UnicodeData)

theorem toList_fold (s : String) :
    (fold data.tables s).toList = ((Unicode.nfd data.toCharacterData
      (Unicode.toLowerCase data.toCharacterData s.toList)).filter fun c =>
        !isCombiningMark c).map replaceDj := by
  rw [fold, stripDiacritics, String.toList_ofList]
  simp only [UnicodeData.tables, String.toList_ofList]

variable {data}

/-- **What is in a folded text**: no mark and no capital, and nothing that separates words but
what did before. -/
theorem mem_fold {s : String} {d : Char} (h : d ∈ (fold data.tables s).toList) :
    isCombiningMark d = false ∧ d.isUpper = false ∧
      ∃ c ∈ s.toList, (isTrimmed c = false → isTrimmed d = false) ∧ (d = ',' → c = ',') := by
  rw [toList_fold] at h
  obtain ⟨e, he, rfl⟩ := List.mem_map.mp h
  obtain ⟨hmem, hmark⟩ := List.mem_filter.mp he
  obtain ⟨l, hl, hel⟩ := Unicode.mem_nfd.mp hmem
  have hlower : data.lower e = [e] :=
    data.lower_decomposition l (UnicodeData.lower_of_mem_toLowerCase hl) e hel
  obtain ⟨c, hc, horigin⟩ := Unicode.mem_toLowerCase hl
  have hmark' : isCombiningMark e = false := by simpa using hmark
  have hwhite : isTrimmed c = false → isTrimmed e = false := by
    intro hnot
    refine (data.not_white l ?_).2 e hel
    rcases horigin with hlc | ⟨-, rfl⟩
    · exact (data.not_white c hnot).1.2 l hlc
    · decide
  have hcomma : e = ',' → c = ',' := by
    rintro rfl
    by_contra hne
    have hl' : l = ',' := not_not.mp fun hne' => (data.not_comma l hne').2 hel
    subst hl'
    rcases horigin with hlc | ⟨-, hsigma⟩
    · exact (data.not_comma c hne).1 hlc
    · exact absurd hsigma (by decide)
  have hdj : e ≠ '\u0110' := by
    rintro rfl
    exact absurd (data.dj.1.symm.trans hlower) (by decide)
  by_cases hd : e = '\u0111'
  · subst hd
    exact ⟨rfl, rfl, c, hc, fun _ => rfl, nofun⟩
  · rw [replaceDj, if_neg hd, if_neg hdj]
    exact ⟨hmark', data.isUpper_of_lower hlower, c, hc, hwhite, hcomma⟩

/-- **A text of marks alone is folded to nothing**, and no other is. -/
theorem fold_eq_empty_iff {s : String} :
    fold data.tables s = "" ↔ ∀ c ∈ s.toList, isCombiningMark c = true := by
  rw [← String.toList_eq_nil_iff, toList_fold, List.map_eq_nil_iff, List.filter_eq_nil_iff]
  constructor
  · intro h c hc
    by_contra hmark
    rw [Bool.not_eq_true] at hmark
    obtain ⟨before, after, hsub⟩ := Unicode.exists_lowerBetween_subset hc []
    -- Something of the character is left in lower case, and of that when it is decomposed.
    obtain ⟨l, hl, hlmark⟩ : ∃ l ∈ Unicode.lowerBetween data.toCharacterData before c after,
        isCombiningMark l = false := by
      rcases Unicode.lowerBetween_eq data.toCharacterData before c after with heq | ⟨-, heq⟩
      · exact heq ▸ (data.not_mark c hmark).1
      · exact ⟨finalSigma, heq ▸ List.mem_singleton_self _, by decide⟩
    obtain ⟨e, he, hemark⟩ := (data.not_mark l hlmark).2
    have hleft := h e (Unicode.mem_nfd.mpr ⟨l, hsub l hl, he⟩)
    simp [hemark] at hleft
  · intro h e he
    obtain ⟨l, hl, hel⟩ := Unicode.mem_nfd.mp he
    have hmark : isCombiningMark l = true := by
      obtain ⟨c, hc, hlc | ⟨rfl, -⟩⟩ := Unicode.mem_toLowerCase hl
      · rw [(data.mark c (h c hc)).1, List.mem_singleton] at hlc
        exact hlc ▸ h c hc
      · exact absurd (h _ hc) (by decide)
    simp [(data.mark l hmark).2 e hel]

/-- Nothing but `đ` and its capital is replaced. -/
theorem replaceDj_of_apart {p : Char → Bool} (hp : p '\u0111' = false ∧ p '\u0110' = false)
    {c : Char} (h : p c = true) : replaceDj c = c := by
  rw [replaceDj, if_neg, if_neg]
  · rintro rfl
    exact absurd (h.symm.trans hp.2) nofun
  · rintro rfl
    exact absurd (h.symm.trans hp.1) nofun

theorem not_isCombiningMark_of_isAscii {c : Char} (h : isAscii c = true) :
    isCombiningMark c = false := by
  have hlt : c.toNat < 128 := of_decide_eq_true h
  rw [isCombiningMark, Bool.and_eq_false_iff, decide_eq_false_iff_not, decide_eq_false_iff_not]
  omega

theorem not_isCombiningMark_of_isTrimmed {c : Char} (h : isTrimmed c = true) :
    isCombiningMark c = false := by
  simp only [isTrimmed, isCombiningMark, List.mem_cons, List.not_mem_nil, or_false,
    Bool.or_eq_true, Bool.and_eq_true, decide_eq_true_eq, Bool.and_eq_false_iff,
    decide_eq_false_iff_not] at h ⊢
  omega

theorem not_isCombiningMark_of_isPunctuation {c : Char} (h : isPunctuation c = true) :
    isCombiningMark c = false := by
  simp only [isPunctuation, isCombiningMark, Bool.or_eq_true, Bool.and_eq_true, decide_eq_true_eq,
    Bool.and_eq_false_iff, decide_eq_false_iff_not] at h ⊢
  omega

end Folded

end Commands

end CryptoZaloBot
