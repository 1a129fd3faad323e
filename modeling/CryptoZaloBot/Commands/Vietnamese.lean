import CryptoZaloBot.Commands.Letters

/-!
# Texts of Vietnamese

The tables of characters for texts of ASCII and Vietnamese, where all other characters stay as
they are. Everything that is said of the tables of Unicode holds of these
(`CryptoZaloBot.Commands.vietnamese`), so that a message of such a text can be followed through
the parser.

There are three kinds of characters (`CryptoZaloBot.Commands.Vietnamese.char_cases`): the
capital sigma, the letters of the list, and those that change as in ASCII. What is listed is
checked letter by letter.
-/

namespace CryptoZaloBot

namespace Commands

open Prices (isTrimmed lowerChar)
open Unicode (capitalSigma)

namespace Vietnamese

def lowerOf (c : Char) : Char :=
  if c = capitalSigma then '\u03c3'
  else
    match vietnameseLetters.find? fun letter => letter.upper.toNat == c.toNat with
    | some letter => letter.lower
    | none => lowerChar c

/-- The capital of what a letter decomposes into. -/
def upperPart (c : Char) : Char :=
  if c = '\u0111' then '\u0110'
  else if 97 ≤ c.toNat ∧ c.toNat ≤ 122 then Char.ofNat (c.toNat - 32)
  else c

def decompositionOf (c : Char) : List Char :=
  match vietnameseLetters.find? fun letter => letter.lower.toNat == c.toNat with
  | some letter => letter.parts
  | none =>
    match vietnameseLetters.find? fun letter => letter.upper.toNat == c.toNat with
    | some letter => letter.parts.map upperPart
    | none => [c]

/-- The horn, the dot below, and the marks above. -/
def combiningClassOf (c : Char) : ℕ :=
  if isCombiningMark c then if c = '\u031b' then 216 else if c = '\u0323' then 220 else 230 else 0

/-- What is listed of a letter is what the tables give. What it decomposes into, in lower case or
not, is neither white space nor a comma, and not marks alone. -/
theorem of_mem_letters : ∀ letter ∈ vietnameseLetters,
    (lowerOf letter.lower = letter.lower ∧ lowerOf letter.upper = letter.lower ∧
      letter.upper ≠ letter.lower ∧ ∀ d ∈ letter.parts, lowerOf d = d) ∧
    (decompositionOf letter.lower = letter.parts ∧
      decompositionOf letter.upper = letter.parts.map upperPart) ∧
    ∀ parts ∈ [letter.parts, letter.parts.map upperPart],
      (∀ d ∈ parts, isTrimmed d = false ∧ d ≠ ',') ∧ ∃ d ∈ parts, isCombiningMark d = false := by
  decide +kernel

/-- The capital sigma is the only letter beyond the list that has a lower case. -/
theorem of_sigma : lowerOf capitalSigma = '\u03c3' ∧ lowerOf '\u03c3' = '\u03c3' ∧
    decompositionOf capitalSigma = [capitalSigma] ∧
    lowerOf Unicode.finalSigma = Unicode.finalSigma := by
  decide +kernel

/-- **A letter of the list, a sigma, or a character that changes as in ASCII.** -/
theorem char_cases (c : Char) :
    c = capitalSigma ∨ (∃ letter ∈ vietnameseLetters, c ∈ [letter.lower, letter.upper]) ∨
      lowerOf c = lowerChar c ∧ decompositionOf c = [c] := by
  by_cases hsigma : c = capitalSigma
  · exact Or.inl hsigma
  refine Or.inr (or_iff_not_imp_left.mpr fun h => ?_)
  push Not at h
  have hlower : (vietnameseLetters.find? fun letter => letter.lower.toNat == c.toNat) = none :=
    List.find?_eq_none.mpr fun letter hmem heq =>
      h letter hmem (by simp [Char.toNat_inj.mp (eq_of_beq heq)])
  have hupper : (vietnameseLetters.find? fun letter => letter.upper.toNat == c.toNat) = none :=
    List.find?_eq_none.mpr fun letter hmem heq =>
      h letter hmem (by simp [Char.toNat_inj.mp (eq_of_beq heq)])
  rw [lowerOf, if_neg hsigma, hupper, decompositionOf, hlower, hupper]
  exact ⟨rfl, rfl⟩

theorem lowerOf_of_mem {letter : VietnameseLetter} (hmem : letter ∈ vietnameseLetters) {c : Char}
    (hc : c ∈ [letter.lower, letter.upper]) : lowerOf c = letter.lower := by
  obtain ⟨⟨hlower, hupper, -⟩, -⟩ := of_mem_letters letter hmem
  rcases List.mem_pair.mp hc with rfl | rfl
  · exact hlower
  · exact hupper

theorem letter_apart_of_mem {letter : VietnameseLetter} (hmem : letter ∈ vietnameseLetters)
    {c : Char} (hc : c ∈ [letter.lower, letter.upper]) : c ≠ capitalSigma ∧ isAscii c = false ∧
      isTrimmed c = false ∧ isCombiningMark c = false ∧ isPunctuation c = false :=
  letter_apart hmem (List.mem_pair.mp hc)

theorem decompositionOf_of_mem {letter : VietnameseLetter} (hmem : letter ∈ vietnameseLetters)
    {c : Char} (hc : c ∈ [letter.lower, letter.upper]) :
    decompositionOf c ∈ [letter.parts, letter.parts.map upperPart] := by
  obtain ⟨-, ⟨hlower, hupper⟩, -⟩ := of_mem_letters letter hmem
  rcases List.mem_pair.mp hc with rfl | rfl
  · exact List.mem_pair.mpr (Or.inl hlower)
  · exact List.mem_pair.mpr (Or.inr hupper)

theorem ascii {c : Char} (h : isAscii c = true) :
    lowerOf c = lowerChar c ∧ decompositionOf c = [c] := by
  rcases char_cases c with rfl | ⟨letter, hmem, hc⟩ | hplain
  · exact absurd h (by decide)
  · exact absurd (h.symm.trans (letter_apart_of_mem hmem hc).2.1) nofun
  · exact hplain

/-- The capitals of ASCII. -/
theorem lowerChar_cases (c : Char) :
    lowerChar c = c ∨ (isTrimmed c = false ∧ isCombiningMark c = false ∧ isPunctuation c = false) ∧
      isCombiningMark (lowerChar c) = false ∧ lowerChar c ≠ ',' ∧
        lowerOf (lowerChar c) = lowerChar c := by
  by_cases h : 65 ≤ c.toNat ∧ c.toNat ≤ 90
  · have hascii : isAscii c = true := decide_eq_true (by omega)
    have hc : 65 ≤ c.toNat ∧ c.toNat ≤ 90 → (isTrimmed c = false ∧ isCombiningMark c = false ∧
        isPunctuation c = false) ∧ isCombiningMark (lowerChar c) = false ∧ lowerChar c ≠ ',' :=
      of_isAscii (by decide) hascii
    obtain ⟨hapart, hmark, hcomma⟩ := hc h
    exact Or.inr ⟨hapart, hmark, hcomma,
      (ascii (isAscii_lowerChar hascii)).1.trans (Prices.lowerChar_spec c).1⟩
  · exact Or.inl (if_neg h)

/-- White space, marks and punctuation do not change. -/
theorem unchanged {c : Char}
    (h : isTrimmed c = true ∨ isCombiningMark c = true ∨ isPunctuation c = true) :
    lowerOf c = c ∧ decompositionOf c = [c] := by
  rcases char_cases c with rfl | ⟨letter, hmem, hc⟩ | ⟨hlower, hdecomposition⟩
  · exact absurd h (by decide)
  · obtain ⟨-, -, hwhite, hmark, hpunctuation⟩ := letter_apart_of_mem hmem hc
    simp [hwhite, hmark, hpunctuation] at h
  · rcases lowerChar_cases c with hsame | ⟨⟨hwhite, hmark, hpunctuation⟩, -⟩
    · exact ⟨hlower.trans hsame, hdecomposition⟩
    · simp [hwhite, hmark, hpunctuation] at h

theorem lowerOf_lowerOf (c : Char) : lowerOf (lowerOf c) = lowerOf c := by
  rcases char_cases c with rfl | ⟨letter, hmem, hc⟩ | ⟨hlower, -⟩
  · rw [of_sigma.1, of_sigma.2.1]
  · rw [lowerOf_of_mem hmem hc, (of_mem_letters letter hmem).1.1]
  · rcases lowerChar_cases c with hsame | ⟨-, -, -, hstay⟩
    · rw [hlower.trans hsame, hlower.trans hsame]
    · rw [hlower, hstay]

theorem lowerOf_decompositionOf {c : Char} (h : lowerOf c = c) :
    ∀ d ∈ decompositionOf c, lowerOf d = d := by
  rcases char_cases c with rfl | ⟨letter, hmem, hc⟩ | ⟨-, hdecomposition⟩
  · exact absurd (of_sigma.1.symm.trans h) (by decide)
  · obtain ⟨⟨-, hupper, hne, hlower⟩, ⟨hparts, -⟩, -⟩ := of_mem_letters letter hmem
    rcases List.mem_pair.mp hc with rfl | rfl
    · rw [hparts]
      exact hlower
    · exact absurd (h.symm.trans hupper) hne
  · rw [hdecomposition]
    exact List.forall_mem_singleton.mpr h

theorem isTrimmed_lowerOf {c : Char} (h : isTrimmed c = false) : isTrimmed (lowerOf c) = false := by
  rcases char_cases c with rfl | ⟨letter, hmem, hc⟩ | ⟨hlower, -⟩
  · rw [of_sigma.1]
    decide
  · rw [lowerOf_of_mem hmem hc]
    exact (letter_apart hmem (Or.inl rfl)).2.2.1
  · rwa [hlower, (Prices.lowerChar_spec c).2]

theorem isCombiningMark_lowerOf {c : Char} (h : isCombiningMark c = false) :
    isCombiningMark (lowerOf c) = false := by
  rcases char_cases c with rfl | ⟨letter, hmem, hc⟩ | ⟨hlower, -⟩
  · rw [of_sigma.1]
    decide
  · rw [lowerOf_of_mem hmem hc]
    exact (letter_apart hmem (Or.inl rfl)).2.2.2.1
  · rcases lowerChar_cases c with hsame | ⟨-, hmark, -⟩
    · rwa [hlower, hsame]
    · rwa [hlower]

theorem lowerOf_ne_comma {c : Char} (h : c ≠ ',') : lowerOf c ≠ ',' := by
  rcases char_cases c with rfl | ⟨letter, hmem, hc⟩ | ⟨hlower, -⟩
  · rw [of_sigma.1]
    decide
  · rw [lowerOf_of_mem hmem hc]
    intro hcomma
    have hascii := (letter_apart hmem (Or.inl rfl)).2.1
    rw [hcomma] at hascii
    exact absurd hascii (by decide)
  · rcases lowerChar_cases c with hsame | ⟨-, -, hcomma, -⟩
    · rwa [hlower, hsame]
    · rwa [hlower]

/-- What a character decomposes into is like the character. -/
theorem decompositionOf_apart (c : Char) :
    (isTrimmed c = false → ∀ d ∈ decompositionOf c, isTrimmed d = false) ∧
      (c ≠ ',' → ',' ∉ decompositionOf c) ∧
      (isCombiningMark c = false → ∃ d ∈ decompositionOf c, isCombiningMark d = false) := by
  have hself : decompositionOf c = [c] →
      (isTrimmed c = false → ∀ d ∈ decompositionOf c, isTrimmed d = false) ∧
        (c ≠ ',' → ',' ∉ decompositionOf c) ∧
        (isCombiningMark c = false → ∃ d ∈ decompositionOf c, isCombiningMark d = false) := by
    intro hdecomposition
    rw [hdecomposition]
    exact ⟨fun h => List.forall_mem_singleton.mpr h, fun h hd => h (List.mem_singleton.mp hd).symm,
      fun h => ⟨c, List.mem_singleton_self c, h⟩⟩
  rcases char_cases c with rfl | ⟨letter, hmem, hc⟩ | ⟨-, hdecomposition⟩
  · exact hself of_sigma.2.2.1
  · obtain ⟨hall, hmark⟩ :=
      (of_mem_letters letter hmem).2.2 _ (decompositionOf_of_mem hmem hc)
    exact ⟨fun _ d hd => (hall d hd).1, fun _ hd => (hall _ hd).2 rfl, fun _ => hmark⟩
  · exact hself hdecomposition

theorem combiningClassOf_eq_zero {c : Char} (h : isCombiningMark c = false) :
    combiningClassOf c = 0 :=
  if_neg (by simp [h])

end Vietnamese

/-- **The tables for texts of Vietnamese.** -/
def vietnamese : UnicodeData where
  lower c := [Vietnamese.lowerOf c]
  cased c := c.isAlpha || vietnameseLetters.any fun letter => letter.lower = c || letter.upper = c
  caseIgnorable c := isCombiningMark c || c = '.' || c = ':'
  decomposition := Vietnamese.decompositionOf
  combiningClass := Vietnamese.combiningClassOf
  toUpperCase := String.toUpper
  lower_lower c d hd := by rw [List.mem_singleton.mp hd, Vietnamese.lowerOf_lowerOf]
  lower_decomposition c hc d hd :=
    congrArg (fun c => [c]) (Vietnamese.lowerOf_decompositionOf (List.singleton_inj.mp hc) d hd)
  lower_sigma := ⟨congrArg (fun c => [c]) Vietnamese.of_sigma.1,
    congrArg (fun c => [c]) Vietnamese.of_sigma.2.2.2⟩
  ascii c hc := by
    rw [(Vietnamese.ascii hc).1, (Vietnamese.ascii hc).2]
    exact ⟨rfl, rfl, Vietnamese.combiningClassOf_eq_zero (not_isCombiningMark_of_isAscii hc)⟩
  white c hc := by
    obtain ⟨hlower, hdecomposition⟩ := Vietnamese.unchanged (Or.inl hc)
    rw [hlower, hdecomposition]
    exact ⟨rfl, Vietnamese.combiningClassOf_eq_zero (not_isCombiningMark_of_isTrimmed hc), c, rfl,
      hc⟩
  not_white c hc := ⟨⟨List.cons_ne_nil _ _,
    List.forall_mem_singleton.mpr (Vietnamese.isTrimmed_lowerOf hc)⟩,
    (Vietnamese.decompositionOf_apart c).1 hc⟩
  not_comma c hc := ⟨fun hmem => Vietnamese.lowerOf_ne_comma hc (List.mem_singleton.mp hmem).symm,
    (Vietnamese.decompositionOf_apart c).2.1 hc⟩
  mark c hc := by
    obtain ⟨hlower, hdecomposition⟩ := Vietnamese.unchanged (Or.inr (Or.inl hc))
    rw [hlower, hdecomposition]
    exact ⟨rfl, List.forall_mem_singleton.mpr hc⟩
  not_mark c hc := ⟨⟨_, List.mem_singleton_self _, Vietnamese.isCombiningMark_lowerOf hc⟩,
    (Vietnamese.decompositionOf_apart c).2.2 hc⟩
  punctuation c hc := by
    obtain ⟨hlower, hdecomposition⟩ := Vietnamese.unchanged (Or.inr (Or.inr hc))
    rw [hlower, hdecomposition]
    exact ⟨rfl, rfl, Vietnamese.combiningClassOf_eq_zero (not_isCombiningMark_of_isPunctuation hc)⟩
  vietnamese letter hmem := by
    obtain ⟨⟨hlower, hupper, -⟩, ⟨hparts, -⟩, -⟩ := Vietnamese.of_mem_letters letter hmem
    rw [hlower, hupper]
    exact ⟨rfl, rfl, hparts⟩
  dj := by
    have hmem : (⟨'\u0111', '\u0110', ['\u0111']⟩ : VietnameseLetter) ∈ vietnameseLetters := by
      simp [vietnameseLetters]
    exact ⟨congrArg (fun c => [c]) (Vietnamese.of_mem_letters _ hmem).1.2.1,
      Vietnamese.combiningClassOf_eq_zero (by decide)⟩

end Commands

end CryptoZaloBot
