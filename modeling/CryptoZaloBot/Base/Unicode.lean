import Mathlib.Data.List.Induction
import Mathlib.Data.List.Flatten

/-!
# Lower case and canonical decomposition

The two mappings of texts a program folds accents and case with. Both are given by tables of
the Unicode Character Database (`CryptoZaloBot.Unicode.CharacterData`), character by character,
up to two things that look at the neighbours: a capital sigma at the end of a word has a lower
case of its own, and marks on one letter are brought into an order.

Neither makes anything out of nothing. What is in a lowercased text is the lower case of one of
its characters (`CryptoZaloBot.Unicode.mem_toLowerCase`), and what is in a decomposed text is in
the decomposition of one (`CryptoZaloBot.Unicode.mem_nfd`). A text without a sigma is lowercased
character by character (`CryptoZaloBot.Unicode.toLowerCase_eq_flatMap`), and of the order of the
marks nothing is left once the marks are taken off (`CryptoZaloBot.Unicode.filter_nfd`).
-/

namespace CryptoZaloBot

namespace Unicode

/-- **The tables**, by character. -/
structure CharacterData where
  /-- The lower case, as it is without a context. -/
  lower : Char → List Char
  cased : Char → Bool
  caseIgnorable : Char → Bool
  /-- The full canonical decomposition. -/
  decomposition : Char → List Char
  /-- Zero for a character that starts a new sequence. -/
  combiningClass : Char → ℕ

def capitalSigma : Char := '\u03a3'

def finalSigma : Char := '\u03c2'

variable (data : CharacterData)

theorem flatMap_eq_self {α : Type*} {f : α → List α} {l : List α} (h : ∀ a ∈ l, f a = [a]) :
    l.flatMap f = l := by
  induction l with
  | nil => rfl
  | cons a l ih =>
    obtain ⟨ha, hl⟩ := List.forall_mem_cons.mp h
    rw [List.flatMap_cons, ha, ih hl, List.singleton_append]

/-! ### Lower case -/

/-- Some characters that are ignored, and then a cased one. -/
def reachesCased : List Char → Bool
  | [] => false
  | c :: cs => data.cased c || (data.caseIgnorable c && reachesCased cs)

/-- The lower case of a character between others, those before it in reverse. -/
def lowerBetween (before : List Char) (c : Char) (after : List Char) : List Char :=
  if c = capitalSigma ∧ reachesCased data before ∧ ¬reachesCased data after then [finalSigma]
  else data.lower c

def lowerFrom (before : List Char) : List Char → List Char
  | [] => []
  | c :: cs => lowerBetween data before c cs ++ lowerFrom (c :: before) cs

/-- **The lower case of a text.** -/
def toLowerCase (cs : List Char) : List Char := lowerFrom data [] cs

variable {data}

theorem lowerBetween_of_ne {c : Char} (h : c ≠ capitalSigma) (before after : List Char) :
    lowerBetween data before c after = data.lower c :=
  if_neg fun hc => h hc.1

theorem lowerBetween_eq (data : CharacterData) (before : List Char) (c : Char) (after : List Char) :
    lowerBetween data before c after = data.lower c ∨
      c = capitalSigma ∧ lowerBetween data before c after = [finalSigma] := by
  rw [lowerBetween]
  split_ifs with h
  · exact Or.inr ⟨h.1, rfl⟩
  · exact Or.inl rfl

theorem mem_lowerFrom {before cs : List Char} {d : Char} (h : d ∈ lowerFrom data before cs) :
    ∃ c ∈ cs, d ∈ data.lower c ∨ c = capitalSigma ∧ d = finalSigma := by
  induction cs generalizing before with
  | nil => cases h
  | cons c cs ih =>
    rw [lowerFrom, List.mem_append] at h
    rcases h with h | h
    · refine ⟨c, List.mem_cons_self, ?_⟩
      rcases lowerBetween_eq data before c cs with heq | ⟨hc, heq⟩
      · exact Or.inl (heq ▸ h)
      · exact Or.inr ⟨hc, List.mem_singleton.mp (heq ▸ h)⟩
    · obtain ⟨c', hc', hd⟩ := ih h
      exact ⟨c', List.mem_cons_of_mem c hc', hd⟩

/-- The last character is followed by nothing. -/
theorem lowerFrom_concat (data : CharacterData) (before cs : List Char) (c : Char) :
    ∃ ds, lowerFrom data before (cs ++ [c]) =
      ds ++ lowerBetween data (cs.reverse ++ before) c [] := by
  induction cs generalizing before with
  | nil => exact ⟨[], by simp [lowerFrom]⟩
  | cons c' cs ih =>
    obtain ⟨ds, hds⟩ := ih (c' :: before)
    refine ⟨lowerBetween data before c' (cs ++ [c]) ++ ds, ?_⟩
    rw [List.cons_append, lowerFrom, hds, List.append_assoc, List.reverse_cons, List.append_assoc,
      List.singleton_append]

/-- The lower case of each character is in that of the text. -/
theorem exists_lowerBetween_subset {cs : List Char} {c : Char} (h : c ∈ cs) (before : List Char) :
    ∃ before' after, ∀ d ∈ lowerBetween data before' c after, d ∈ lowerFrom data before cs := by
  induction cs generalizing before with
  | nil => cases h
  | cons c' cs ih =>
    rcases List.mem_cons.mp h with rfl | h
    · exact ⟨before, cs, fun d hd => List.mem_append.mpr (Or.inl hd)⟩
    · obtain ⟨before', after, hsub⟩ := ih h (c' :: before)
      exact ⟨before', after, fun d hd => List.mem_append.mpr (Or.inr (hsub d hd))⟩

/-- **What is in a lowercased text** is the lower case of one of its characters. -/
theorem mem_toLowerCase {cs : List Char} {d : Char} (h : d ∈ toLowerCase data cs) :
    ∃ c ∈ cs, d ∈ data.lower c ∨ c = capitalSigma ∧ d = finalSigma :=
  mem_lowerFrom h

theorem lowerFrom_eq_flatMap {cs : List Char} (h : ∀ c ∈ cs, c ≠ capitalSigma)
    (before : List Char) : lowerFrom data before cs = cs.flatMap data.lower := by
  induction cs generalizing before with
  | nil => rfl
  | cons c cs ih =>
    obtain ⟨hc, hcs⟩ := List.forall_mem_cons.mp h
    rw [lowerFrom, lowerBetween_of_ne hc, ih hcs, List.flatMap_cons]

/-- **A text without a sigma** is lowercased character by character. -/
theorem toLowerCase_eq_flatMap {cs : List Char} (h : ∀ c ∈ cs, c ≠ capitalSigma) :
    toLowerCase data cs = cs.flatMap data.lower :=
  lowerFrom_eq_flatMap h []

/-- A text whose characters have no other lower case is left as it is. -/
theorem toLowerCase_eq_self {cs : List Char}
    (h : ∀ c ∈ cs, c ≠ capitalSigma ∧ data.lower c = [c]) : toLowerCase data cs = cs := by
  rw [toLowerCase_eq_flatMap fun c hc => (h c hc).1, flatMap_eq_self fun c hc => (h c hc).2]

/-! ### Decomposition -/

variable (data)

/-- A mark goes before the marks of higher classes that stand at the end, here in reverse. -/
def insertMark (c : Char) : List Char → List Char
  | [] => [c]
  | d :: ds =>
    if 0 < data.combiningClass c ∧ data.combiningClass c < data.combiningClass d then
      d :: insertMark c ds
    else c :: d :: ds

/-- The order of marks on one letter. -/
def canonicalOrder (cs : List Char) : List Char :=
  (cs.foldl (fun placed c => insertMark data c placed) []).reverse

/-- **The canonical decomposition of a text.** -/
def nfd (cs : List Char) : List Char := canonicalOrder data (cs.flatMap data.decomposition)

variable {data}

theorem insertMark_perm (c : Char) (cs : List Char) : (insertMark data c cs).Perm (c :: cs) := by
  induction cs with
  | nil => exact List.Perm.refl _
  | cons d ds ih =>
    rw [insertMark]
    split_ifs
    · exact (ih.cons d).trans (List.Perm.swap c d ds)
    · exact List.Perm.refl _

@[simp] theorem canonicalOrder_nil : canonicalOrder data [] = [] := rfl

theorem canonicalOrder_concat (cs : List Char) (c : Char) :
    canonicalOrder data (cs ++ [c]) =
      (insertMark data c (canonicalOrder data cs).reverse).reverse := by
  rw [canonicalOrder, canonicalOrder, List.foldl_append, List.reverse_reverse]
  rfl

theorem canonicalOrder_perm (cs : List Char) : (canonicalOrder data cs).Perm cs := by
  induction cs using List.reverseRecOn with
  | nil => exact List.Perm.refl _
  | append_singleton cs c ih =>
    rw [canonicalOrder_concat]
    calc (insertMark data c (canonicalOrder data cs).reverse).reverse
        |>.Perm (insertMark data c (canonicalOrder data cs).reverse) := List.reverse_perm _
      _ |>.Perm (c :: (canonicalOrder data cs).reverse) := insertMark_perm _ _
      _ |>.Perm (c :: cs) := ((List.reverse_perm _).trans ih).cons c
      _ |>.Perm (cs ++ [c]) := (List.perm_append_singleton c cs).symm

/-- **What is in a decomposed text** is in the decomposition of one of its characters. -/
theorem mem_nfd {cs : List Char} {d : Char} :
    d ∈ nfd data cs ↔ ∃ c ∈ cs, d ∈ data.decomposition c := by
  rw [nfd, (canonicalOrder_perm _).mem_iff, List.mem_flatMap]

/-- Of a mark that is taken off nothing is left. -/
theorem filter_insertMark {p : Char → Bool} {c : Char}
    (h : 0 < data.combiningClass c → p c = false) (cs : List Char) :
    (insertMark data c cs).filter p = (c :: cs).filter p := by
  induction cs with
  | nil => rfl
  | cons d ds ih =>
    rw [insertMark]
    split_ifs with hlt
    · have hc : ¬p c = true := by simpa using h hlt.1
      rw [List.filter_cons, ih, List.filter_cons_of_neg hc, List.filter_cons_of_neg hc,
        List.filter_cons]
    · rfl

/-- **The order of the marks is gone** once they are taken off. -/
theorem filter_canonicalOrder {p : Char → Bool} {cs : List Char}
    (h : ∀ c ∈ cs, 0 < data.combiningClass c → p c = false) :
    (canonicalOrder data cs).filter p = cs.filter p := by
  induction cs using List.reverseRecOn with
  | nil => rfl
  | append_singleton cs c ih =>
    obtain ⟨hcs, hc⟩ := List.forall_mem_append.mp h
    rw [canonicalOrder_concat, List.filter_reverse,
      filter_insertMark (hc c (List.mem_singleton_self c)), ← List.filter_reverse,
      List.reverse_cons, List.reverse_reverse, List.filter_append, List.filter_append, ih hcs]

theorem filter_nfd {p : Char → Bool} {cs : List Char}
    (h : ∀ c ∈ cs, ∀ d ∈ data.decomposition c, 0 < data.combiningClass d → p d = false) :
    (nfd data cs).filter p = cs.flatMap fun c => (data.decomposition c).filter p := by
  rw [nfd, filter_canonicalOrder, List.filter_flatMap]
  intro d hd
  obtain ⟨c, hc, hcd⟩ := List.mem_flatMap.mp hd
  exact h c hc d hcd

end Unicode

end CryptoZaloBot
