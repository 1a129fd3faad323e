import CryptoZaloBot.Commands.Unicode

/-!
# Characters that are typed

What a message of Vietnamese is made of: letters, with or without accents, digits, punctuation
and white space (`CryptoZaloBot.Commands.isTyped`). Such a text is folded character by character
(`CryptoZaloBot.Commands.toList_fold_of_typed`): white space stays white space, a mark
disappears, and everything else becomes one plain character
(`CryptoZaloBot.Commands.foldChar_of_typed`).

Plain characters are folded to themselves, so that folding a word twice does no more than
folding it once (`CryptoZaloBot.Commands.fold_fold`).
-/

namespace CryptoZaloBot

namespace Commands

open Prices (isTrimmed lowerChar)
open Unicode (capitalSigma)

/-- A letter of ASCII or Vietnamese. -/
def isLetter (c : Char) : Bool :=
  c.isAlpha || vietnameseLetters.any fun letter => letter.lower == c || letter.upper == c

/-- **What is typed**: ASCII, the letters of Vietnamese, white space and punctuation. An accent
may also be a character of its own. -/
def isTyped (c : Char) : Bool :=
  isAscii c || isLetter c || isTrimmed c || isPunctuation c || isCombiningMark c

/-- Punctuation, and what is in lower case without an accent. -/
def isPlain (c : Char) : Bool := (isAscii c && lowerChar c == c) || isPunctuation c

/-- **What a character is folded to.** -/
def foldChar (data : UnicodeData) (c : Char) : List Char :=
  (((data.lower c).flatMap data.decomposition).filter fun d => !isCombiningMark d).map replaceDj

/-! ### Kinds of characters -/

theorem isAscii_of_isAlpha {c : Char} (h : c.isAlpha = true) : isAscii c = true := by
  rcases Bool.or_eq_true_iff.mp h with hupper | hlower
  · have hle : c.val ≤ 'Z'.val := (of_decide_eq_true hupper).2
    exact decide_eq_true (lt_of_le_of_lt (UInt32.le_iff_toNat_le.mp hle) (by decide))
  · have hle : c.val ≤ 'z'.val := of_decide_eq_true (Bool.and_eq_true_iff.mp hlower).2
    exact decide_eq_true (lt_of_le_of_lt (UInt32.le_iff_toNat_le.mp hle) (by decide))

theorem isTyped_iff {c : Char} :
    isTyped c = true ↔ isAscii c = true ∨ (∃ letter ∈ vietnameseLetters,
      c = letter.lower ∨ c = letter.upper) ∨ isTrimmed c = true ∨ isPunctuation c = true ∨
        isCombiningMark c = true := by
  simp only [isTyped, isLetter, Bool.or_eq_true, List.any_eq_true, beq_iff_eq]
  constructor
  · rintro ((((h | h | ⟨letter, hmem, h⟩) | h) | h) | h)
    · exact Or.inl h
    · exact Or.inl (isAscii_of_isAlpha h)
    · exact Or.inr (Or.inl ⟨letter, hmem, h.imp Eq.symm Eq.symm⟩)
    · exact Or.inr (Or.inr (Or.inl h))
    · exact Or.inr (Or.inr (Or.inr (Or.inl h)))
    · exact Or.inr (Or.inr (Or.inr (Or.inr h)))
  · rintro (h | ⟨letter, hmem, h⟩ | h | h | h)
    · exact Or.inl (Or.inl (Or.inl (Or.inl h)))
    · exact Or.inl (Or.inl (Or.inl (Or.inr (Or.inr ⟨letter, hmem, h.imp Eq.symm Eq.symm⟩))))
    · exact Or.inl (Or.inl (Or.inr h))
    · exact Or.inl (Or.inr h)
    · exact Or.inr h

/-- **What is listed**: letters, which decompose into a plain one and marks, or `đ`. -/
theorem of_mem_vietnameseLetters : ∀ letter ∈ vietnameseLetters,
    (∀ c ∈ [letter.lower, letter.upper], c ≠ capitalSigma ∧ isAscii c = false ∧
      isTrimmed c = false ∧ isCombiningMark c = false ∧ isPunctuation c = false) ∧
    (∀ d ∈ letter.parts, isAscii d = true ∨ isCombiningMark d = true ∨ d = '\u0111') ∧
    (letter.parts.filter fun d => !isCombiningMark d).map replaceDj ∈
      [['a'], ['d'], ['e'], ['i'], ['o'], ['u'], ['y']] := by
  decide +kernel

theorem letter_apart {letter : VietnameseLetter} (hmem : letter ∈ vietnameseLetters) {c : Char}
    (hc : c = letter.lower ∨ c = letter.upper) : c ≠ capitalSigma ∧ isAscii c = false ∧
      isTrimmed c = false ∧ isCombiningMark c = false ∧ isPunctuation c = false :=
  (of_mem_vietnameseLetters letter hmem).1 c (List.mem_pair.mpr hc)

theorem ne_capitalSigma_of_typed {c : Char} (h : isTyped c = true) : c ≠ capitalSigma := by
  rcases isTyped_iff.mp h with h | ⟨letter, hmem, hc⟩ | h
  · rintro rfl
    exact absurd h (by decide)
  · exact (letter_apart hmem hc).1
  · rintro rfl
    exact absurd h (by decide)

/-! ### What they are folded to -/

variable {data : UnicodeData}

theorem isAscii_lowerChar {c : Char} (h : isAscii c = true) : isAscii (lowerChar c) = true :=
  of_isAscii (by decide) h

theorem foldChar_of_isAscii {c : Char} (h : isAscii c = true) :
    foldChar data c = [lowerChar c] := by
  have hascii := isAscii_lowerChar h
  rw [foldChar, (data.ascii c h).1, List.flatMap_singleton, (data.ascii _ hascii).2.1,
    List.filter_cons_of_pos (by simp [not_isCombiningMark_of_isAscii hascii]), List.filter_nil,
    List.map_singleton, replaceDj_of_apart (by decide) hascii]

theorem foldChar_of_isTrimmed {c : Char} (h : isTrimmed c = true) :
    ∃ d, foldChar data c = [d] ∧ isTrimmed d = true := by
  obtain ⟨hlower, -, d, hd, hwhite⟩ := data.white c h
  refine ⟨d, ?_, hwhite⟩
  rw [foldChar, hlower, List.flatMap_singleton, hd,
    List.filter_cons_of_pos (by simp [not_isCombiningMark_of_isTrimmed hwhite]), List.filter_nil,
    List.map_singleton, replaceDj_of_apart (by decide) hwhite]

theorem foldChar_of_isPunctuation {c : Char} (h : isPunctuation c = true) :
    foldChar data c = [c] := by
  obtain ⟨hlower, hdecomposition, -⟩ := data.punctuation c h
  rw [foldChar, hlower, List.flatMap_singleton, hdecomposition,
    List.filter_cons_of_pos (by simp [not_isCombiningMark_of_isPunctuation h]), List.filter_nil,
    List.map_singleton, replaceDj_of_apart (by decide) h]

theorem foldChar_of_isCombiningMark {c : Char} (h : isCombiningMark c = true) :
    foldChar data c = [] := by
  obtain ⟨hlower, hmarks⟩ := data.mark c h
  rw [foldChar, hlower, List.flatMap_singleton, List.map_eq_nil_iff, List.filter_eq_nil_iff]
  intro d hd
  simp [hmarks d hd]

theorem foldChar_of_mem {letter : VietnameseLetter} (hmem : letter ∈ vietnameseLetters) {c : Char}
    (hc : c = letter.lower ∨ c = letter.upper) :
    foldChar data c = (letter.parts.filter fun d => !isCombiningMark d).map replaceDj := by
  obtain ⟨hupper, hlower, hparts⟩ := data.vietnamese letter hmem
  have hlow : data.lower c = [letter.lower] := by
    rcases hc with rfl | rfl
    · exact hlower
    · exact hupper
  rw [foldChar, hlow, List.flatMap_singleton, hparts]

theorem foldChar_of_isPlain {c : Char} (h : isPlain c = true) : foldChar data c = [c] := by
  rw [isPlain, Bool.or_eq_true, Bool.and_eq_true, beq_iff_eq] at h
  rcases h with ⟨hascii, hsame⟩ | h
  · rw [foldChar_of_isAscii hascii, hsame]
  · exact foldChar_of_isPunctuation h

/-- **One plain character**, unless it was a mark or white space. A comma and a slash are what
they were, and nothing becomes one. -/
theorem foldChar_of_typed (data : UnicodeData) {c : Char} (h : isTyped c = true)
    (hwhite : isTrimmed c = false) (hmark : isCombiningMark c = false) :
    ∃ d, foldChar data c = [d] ∧ isPlain d = true ∧ isTrimmed d = false ∧
      (d = ',' ↔ c = ',') ∧ (d = '/' ↔ c = '/') := by
  rcases isTyped_iff.mp h with h | ⟨letter, hmem, hc⟩ | h | h | h
  · have hc : isPlain (lowerChar c) = true ∧ (lowerChar c = ',' ↔ c = ',') ∧
        (lowerChar c = '/' ↔ c = '/') := of_isAscii (by decide) h
    exact ⟨lowerChar c, foldChar_of_isAscii h, hc.1, (Prices.lowerChar_spec c).2.trans hwhite,
      hc.2⟩
  · have hascii : isAscii c = false := (letter_apart hmem hc).2.1
    have hcomma : c ≠ ',' := by
      rintro rfl
      exact absurd hascii (by decide)
    have hslash : c ≠ '/' := by
      rintro rfl
      exact absurd hascii (by decide)
    have hbase : ∀ base ∈ [['a'], ['d'], ['e'], ['i'], ['o'], ['u'], ['y']],
        ∃ d, base = [d] ∧ isPlain d = true ∧ isTrimmed d = false ∧ d ≠ ',' ∧ d ≠ '/' := by
      simp only [List.forall_mem_cons]
      refine ⟨?_, ?_, ?_, ?_, ?_, ?_, ?_, nofun⟩ <;> exact ⟨_, rfl, by decide⟩
    obtain ⟨d, hd, hplain, hnot, hdcomma, hdslash⟩ :=
      hbase _ (of_mem_vietnameseLetters letter hmem).2.2
    exact ⟨d, (foldChar_of_mem hmem hc).trans hd, hplain, hnot, iff_of_false hdcomma hcomma,
      iff_of_false hdslash hslash⟩
  · exact absurd (h.symm.trans hwhite) nofun
  · exact ⟨c, foldChar_of_isPunctuation h, by simp [isPlain, h], hwhite, Iff.rfl, Iff.rfl⟩
  · exact absurd (h.symm.trans hmark) nofun

/-! ### Texts -/

theorem exists_lower_of_typed (data : UnicodeData) {c : Char} (h : isTyped c = true) :
    ∃ l, data.lower c = [l] ∧
      ∀ d ∈ data.decomposition l, 0 < data.combiningClass d → isCombiningMark d = true := by
  rcases isTyped_iff.mp h with h | ⟨letter, hmem, hc⟩ | h | h | h
  · have hascii := isAscii_lowerChar h
    refine ⟨lowerChar c, (data.ascii c h).1, ?_⟩
    rw [(data.ascii _ hascii).2.1, List.forall_mem_singleton, (data.ascii _ hascii).2.2]
    exact nofun
  · obtain ⟨hupper, hlower, hparts⟩ := data.vietnamese letter hmem
    have hlow : data.lower c = [letter.lower] := by
      rcases hc with rfl | rfl
      · exact hlower
      · exact hupper
    refine ⟨letter.lower, hlow, fun d hd hpos => ?_⟩
    rw [hparts] at hd
    rcases (of_mem_vietnameseLetters letter hmem).2.1 d hd with hd | hd | rfl
    · exact absurd (data.ascii d hd).2.2 hpos.ne'
    · exact hd
    · exact absurd data.dj.2 hpos.ne'
  · obtain ⟨hlower, -, d, hd, hwhite⟩ := data.white c h
    refine ⟨c, hlower, ?_⟩
    rw [hd, List.forall_mem_singleton, (data.white d hwhite).2.1]
    exact nofun
  · obtain ⟨hlower, hdecomposition, hclass⟩ := data.punctuation c h
    refine ⟨c, hlower, ?_⟩
    rw [hdecomposition, List.forall_mem_singleton, hclass]
    exact nofun
  · exact ⟨c, (data.mark c h).1, fun d hd _ => (data.mark c h).2 d hd⟩

/-- **A text that is typed** is folded character by character. -/
theorem toList_fold_of_typed {s : String} (h : ∀ c ∈ s.toList, isTyped c = true) :
    (fold data.tables s).toList = s.toList.flatMap (foldChar data) := by
  rw [toList_fold, Unicode.toLowerCase_eq_flatMap fun c hc => ne_capitalSigma_of_typed (h c hc),
    Unicode.filter_nfd, List.flatMap_assoc, List.map_flatMap]
  · refine congrArg (fun f => s.toList.flatMap f) (funext fun c => ?_)
    rw [foldChar, List.filter_flatMap]
  · intro l hl d hd hpos
    obtain ⟨c, hc, hlc⟩ := List.mem_flatMap.mp hl
    obtain ⟨l', hlower, hmarks⟩ := exists_lower_of_typed data (h c hc)
    rw [hlower, List.mem_singleton] at hlc
    subst hlc
    simp [hmarks d hd hpos]

/-- **What is typed plainly is folded to itself.** -/
theorem fold_eq_self {s : String} (h : ∀ c ∈ s.toList, isPlain c = true) :
    fold data.tables s = s := by
  have htyped : ∀ c ∈ s.toList, isTyped c = true := by
    intro c hc
    have hplain := h c hc
    rw [isPlain, Bool.or_eq_true, Bool.and_eq_true] at hplain
    rcases hplain with ⟨hascii, -⟩ | hpunctuation
    · exact isTyped_iff.mpr (Or.inl hascii)
    · exact isTyped_iff.mpr (Or.inr (Or.inr (Or.inr (Or.inl hpunctuation))))
  rw [← String.toList_inj, toList_fold_of_typed htyped,
    Unicode.flatMap_eq_self fun c hc => foldChar_of_isPlain (h c hc)]

/-- What a word is folded to is plain. -/
theorem isPlain_of_mem_fold (data : UnicodeData) {s : String}
    (h : ∀ c ∈ s.toList, isTyped c = true ∧ isTrimmed c = false) :
    ∀ d ∈ (fold data.tables s).toList, isPlain d = true := by
  intro d hd
  rw [toList_fold_of_typed fun c hc => (h c hc).1] at hd
  obtain ⟨c, hc, hdc⟩ := List.mem_flatMap.mp hd
  obtain ⟨htyped, hwhite⟩ := h c hc
  cases hmark : isCombiningMark c with
  | true =>
    rw [foldChar_of_isCombiningMark hmark] at hdc
    cases hdc
  | false =>
    obtain ⟨d', hd', hplain, -⟩ := foldChar_of_typed data htyped hwhite hmark
    rw [hd', List.mem_singleton] at hdc
    exact hdc ▸ hplain

/-- **Folding a word again** changes nothing. -/
theorem fold_fold {s : String} (h : ∀ c ∈ s.toList, isTyped c = true ∧ isTrimmed c = false) :
    fold data.tables (fold data.tables s) = fold data.tables s :=
  fold_eq_self (isPlain_of_mem_fold data h)

end Commands

end CryptoZaloBot
