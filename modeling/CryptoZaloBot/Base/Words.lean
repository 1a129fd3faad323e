import Mathlib.Data.List.Chain
import Mathlib.Data.List.DropRight
import Mathlib.Data.List.Flatten

/-!
# The words of a text

A text is split at separators, and the pieces that are empty are left out
(`CryptoZaloBot.Words.splitWords`). The words are then the same however many separators stand
between them (`CryptoZaloBot.Words.splitWords_collapse`) or at either end
(`CryptoZaloBot.Words.splitWords_dropWhile`, `CryptoZaloBot.Words.splitWords_rdropWhile`).

When a text is rewritten character by character, and a separator becomes a separator while
nothing else does, then each word is rewritten for itself
(`CryptoZaloBot.Words.splitWords_flatMap`).
-/

namespace CryptoZaloBot

namespace Words

variable {α β : Type*} {p : α → Bool} {q : β → Bool}

/-- **The words**: the pieces between the separators, without the empty ones. -/
def splitWords (p : α → Bool) (cs : List α) : List (List α) :=
  (cs.splitOnP p).filter fun w => !w.isEmpty

/-! ### One character more -/

theorem exists_splitOnP (p : α → Bool) (cs : List α) : ∃ w ws, cs.splitOnP p = w :: ws :=
  List.exists_cons_of_ne_nil (List.splitOnP_ne_nil p cs)

theorem splitOnP_cons_of_pos {c : α} (h : p c = true) (cs : List α) :
    (c :: cs).splitOnP p = [] :: cs.splitOnP p := by
  rw [List.splitOnP_cons_eq_if_modifyHead, if_pos h]

theorem splitOnP_cons_of_neg {c : α} {cs w : List α} {ws : List (List α)} (h : p c = false)
    (hcs : cs.splitOnP p = w :: ws) : (c :: cs).splitOnP p = (c :: w) :: ws := by
  rw [List.splitOnP_cons_eq_if_modifyHead, if_neg (by simp [h]), hcs]
  rfl

@[simp] theorem splitWords_nil (p : α → Bool) : splitWords p [] = [] := by
  rw [splitWords, List.splitOnP_nil]
  rfl

/-- A separator at the beginning counts for nothing. -/
theorem splitWords_cons_of_pos {c : α} (h : p c = true) (cs : List α) :
    splitWords p (c :: cs) = splitWords p cs := by
  rw [splitWords, splitOnP_cons_of_pos h]
  rfl

theorem splitWords_cons_of_neg {c : α} {cs w : List α} {ws : List (List α)} (h : p c = false)
    (hcs : cs.splitOnP p = w :: ws) :
    splitWords p (c :: cs) = (c :: w) :: ws.filter fun w => !w.isEmpty := by
  rw [splitWords, splitOnP_cons_of_neg h hcs]
  rfl

/-- **What follows the first character** of the first word. -/
theorem splitWords_of_cons {c : α} {cs w : List α} {ws : List (List α)} (h : p c = false)
    (hwords : splitWords p (c :: cs) = (c :: w) :: ws) :
    splitWords p cs = (w :: ws).filter fun w => !w.isEmpty := by
  obtain ⟨w', ws', hcs⟩ := exists_splitOnP p cs
  rw [splitWords_cons_of_neg h hcs] at hwords
  obtain ⟨hw, rfl⟩ := List.cons_eq_cons.mp hwords
  obtain rfl := (List.cons_eq_cons.mp hw).2
  rw [splitWords, hcs, List.filter_cons, List.filter_cons, List.filter_filter]
  simp only [Bool.and_self]

/-! ### What a word is made of -/

theorem mem_splitOnP {cs w : List α} (hw : w ∈ cs.splitOnP p) : ∀ c ∈ w, p c = false ∧ c ∈ cs := by
  induction cs generalizing w with
  | nil =>
    rw [List.splitOnP_nil, List.mem_singleton] at hw
    subst hw
    exact nofun
  | cons d cs ih =>
    obtain ⟨v, vs, hcs⟩ := exists_splitOnP p cs
    intro c hc
    cases hd : p d with
    | true =>
      rw [splitOnP_cons_of_pos hd] at hw
      rcases List.mem_cons.mp hw with rfl | hw
      · cases hc
      · exact ⟨(ih hw c hc).1, List.mem_cons_of_mem d (ih hw c hc).2⟩
    | false =>
      rw [splitOnP_cons_of_neg hd hcs] at hw
      rw [hcs] at ih
      rcases List.mem_cons.mp hw with rfl | hw
      · rcases List.mem_cons.mp hc with rfl | hc
        · exact ⟨hd, List.mem_cons_self⟩
        · have hv := ih List.mem_cons_self c hc
          exact ⟨hv.1, List.mem_cons_of_mem d hv.2⟩
      · have hv := ih (List.mem_cons_of_mem v hw) c hc
        exact ⟨hv.1, List.mem_cons_of_mem d hv.2⟩

/-- **A word** is not empty, has no separator in it, and is part of the text. -/
theorem mem_splitWords {cs w : List α} (hw : w ∈ splitWords p cs) :
    w ≠ [] ∧ ∀ c ∈ w, p c = false ∧ c ∈ cs := by
  obtain ⟨hmem, hne⟩ := List.mem_filter.mp hw
  exact ⟨by simpa using hne, mem_splitOnP hmem⟩

/-- **What holds of neighbours** holds of those in a word, and of its first character and the
separator before it. -/
theorem isChain_splitOnP {r : α → α → Prop} {b : α} {cs w : List α} {ws : List (List α)}
    (h : (b :: cs).IsChain r) (hcs : cs.splitOnP p = w :: ws) :
    (b :: w).IsChain r ∧ ∀ v ∈ ws, ∃ s, p s = true ∧ (s :: v).IsChain r := by
  induction cs generalizing b w ws with
  | nil =>
    obtain ⟨rfl, rfl⟩ := List.cons_eq_cons.mp (List.splitOnP_nil.symm.trans hcs)
    exact ⟨List.isChain_singleton b, nofun⟩
  | cons c cs ih =>
    obtain ⟨hbc, hrest⟩ := List.isChain_cons_cons.mp h
    obtain ⟨v, vs, hsplit⟩ := exists_splitOnP p cs
    obtain ⟨hv, hvs⟩ := ih hrest hsplit
    cases hc : p c with
    | true =>
      rw [splitOnP_cons_of_pos hc, hsplit] at hcs
      obtain ⟨rfl, rfl⟩ := List.cons_eq_cons.mp hcs
      exact ⟨List.isChain_singleton b, List.forall_mem_cons.mpr ⟨⟨c, hc, hv⟩, hvs⟩⟩
    | false =>
      rw [splitOnP_cons_of_neg hc hsplit] at hcs
      obtain ⟨rfl, rfl⟩ := List.cons_eq_cons.mp hcs
      exact ⟨List.isChain_cons_cons.mpr ⟨hbc, hv⟩, hvs⟩

/-! ### Separators at the ends -/

theorem splitWords_dropWhile (p : α → Bool) (cs : List α) :
    splitWords p (cs.dropWhile p) = splitWords p cs := by
  induction cs with
  | nil => rfl
  | cons c cs ih =>
    cases hc : p c with
    | true => rw [List.dropWhile_cons_of_pos hc, ih, splitWords_cons_of_pos hc]
    | false => rw [List.dropWhile_cons_of_neg (by simp [hc])]

/-- Separators alone have no words between them. -/
theorem splitWords_eq_nil {cs : List α} (h : ∀ c ∈ cs, p c = true) : splitWords p cs = [] := by
  rw [← splitWords_dropWhile, List.dropWhile_eq_nil_iff.mpr h, splitWords_nil]

theorem splitWords_append_of_all {seps : List α} (h : ∀ c ∈ seps, p c = true) (cs : List α) :
    splitWords p (cs ++ seps) = splitWords p cs := by
  cases seps with
  | nil => rw [List.append_nil]
  | cons c seps =>
    obtain ⟨hc, hseps⟩ := List.forall_mem_cons.mp h
    have hnil : (seps.splitOnP p).filter (fun w => !w.isEmpty) = [] := splitWords_eq_nil hseps
    rw [splitWords, List.splitOnP_append_cons cs seps hc, List.filter_append, hnil,
      List.append_nil]
    rfl

theorem splitWords_rdropWhile (p : α → Bool) (cs : List α) :
    splitWords p (cs.rdropWhile p) = splitWords p cs := by
  have hsplit : cs.rdropWhile p ++ cs.rtakeWhile p = cs := by
    rw [List.rdropWhile, List.rtakeWhile, ← List.reverse_append, List.takeWhile_append_dropWhile,
      List.reverse_reverse]
  calc splitWords p (cs.rdropWhile p)
      = splitWords p (cs.rdropWhile p ++ cs.rtakeWhile p) :=
        (splitWords_append_of_all (fun c hc => List.mem_rtakeWhile_imp hc) _).symm
    _ = splitWords p cs := by rw [hsplit]

/-! ### Many separators next to each other -/

/-- Every run of separators becomes a single `s`. The flag says that one has just begun. -/
def collapseFrom (p : α → Bool) (s : α) : Bool → List α → List α
  | _, [] => []
  | inRun, c :: cs =>
    if p c then
      if inRun then collapseFrom p s true cs else s :: collapseFrom p s true cs
    else c :: collapseFrom p s false cs

def collapse (p : α → Bool) (s : α) (cs : List α) : List α := collapseFrom p s false cs

/-- The first piece stays, and so do the words behind it. Inside of a run there is a piece
less, which is empty. -/
theorem splitOnP_collapseFrom {s : α} (hs : p s = true) (cs : List α) :
    splitWords p (collapseFrom p s true cs) = splitWords p cs ∧
      ∃ w ws ws', (collapseFrom p s false cs).splitOnP p = w :: ws ∧ cs.splitOnP p = w :: ws' ∧
        (ws.filter fun w => !w.isEmpty) = ws'.filter fun w => !w.isEmpty := by
  induction cs with
  | nil => exact ⟨rfl, [], [], [], List.splitOnP_nil, List.splitOnP_nil, rfl⟩
  | cons c cs ih =>
    obtain ⟨htrue, w, ws, ws', hcollapse, hcs, hwords⟩ := ih
    cases hc : p c with
    | true =>
      rw [collapseFrom, collapseFrom, hc, if_pos rfl, if_pos rfl, if_pos rfl, if_neg nofun,
        splitWords_cons_of_pos hc, splitOnP_cons_of_pos hc, splitOnP_cons_of_pos hs]
      exact ⟨htrue, [], _, _, rfl, rfl, htrue⟩
    | false =>
      rw [collapseFrom, collapseFrom, hc, if_neg nofun, if_neg nofun,
        splitWords_cons_of_neg hc hcollapse, splitWords_cons_of_neg hc hcs, hwords,
        splitOnP_cons_of_neg hc hcollapse, splitOnP_cons_of_neg hc hcs]
      exact ⟨rfl, _, _, _, rfl, rfl, hwords⟩

/-- **The words of a text are between its runs of separators**, not between single ones. -/
theorem splitWords_collapse {s : α} (hs : p s = true) (cs : List α) :
    splitWords p (collapse p s cs) = splitWords p cs := by
  obtain ⟨-, w, ws, ws', hcollapse, hcs, hwords⟩ := splitOnP_collapseFrom hs cs
  rw [collapse, splitWords, splitWords, hcollapse, hcs, List.filter_cons, List.filter_cons, hwords]

/-! ### Texts that are rewritten -/

theorem splitOnP_append_of_neg {cs : List α} (h : ∀ c ∈ cs, p c = false) {ds w : List α}
    {ws : List (List α)} (hds : ds.splitOnP p = w :: ws) :
    (cs ++ ds).splitOnP p = (cs ++ w) :: ws := by
  induction cs with
  | nil => exact hds
  | cons c cs ih =>
    obtain ⟨hc, hcs⟩ := List.forall_mem_cons.mp h
    exact splitOnP_cons_of_neg hc (ih hcs)

/-- What is rewritten so that the same pieces lie between separators. -/
structure KeepsSeparators (p : α → Bool) (q : β → Bool) (f : α → List β) (cs : List α) : Prop where
  separator : ∀ c ∈ cs, p c = true → ∃ d, f c = [d] ∧ q d = true
  other : ∀ c ∈ cs, p c = false → ∀ d ∈ f c, q d = false

theorem splitOnP_flatMap {f : α → List β} {cs : List α} (h : KeepsSeparators p q f cs) :
    (cs.flatMap f).splitOnP q = (cs.splitOnP p).map fun w => w.flatMap f := by
  induction cs with
  | nil => simp
  | cons c cs ih =>
    have hrest := ih ⟨fun d hd => h.separator d (List.mem_cons_of_mem c hd),
      fun d hd => h.other d (List.mem_cons_of_mem c hd)⟩
    obtain ⟨w, ws, hcs⟩ := exists_splitOnP p cs
    rw [List.flatMap_cons]
    cases hc : p c with
    | true =>
      obtain ⟨d, hd, hq⟩ := h.separator c List.mem_cons_self hc
      rw [hd, List.singleton_append, splitOnP_cons_of_pos hq, hrest, splitOnP_cons_of_pos hc]
      rfl
    | false =>
      rw [hcs, List.map_cons] at hrest
      rw [splitOnP_append_of_neg (h.other c List.mem_cons_self hc) hrest,
        splitOnP_cons_of_neg hc hcs]
      rfl

/-- **The words of a rewritten text** are the words, rewritten, if something is left of each. -/
theorem splitWords_flatMap {f : α → List β} {cs : List α} (h : KeepsSeparators p q f cs)
    (hleft : ∀ w ∈ splitWords p cs, w.flatMap f ≠ []) :
    splitWords q (cs.flatMap f) = (splitWords p cs).map fun w => w.flatMap f := by
  rw [splitWords, splitOnP_flatMap h, List.filter_map, splitWords]
  congr 1
  refine List.filter_congr fun w hw => ?_
  cases w with
  | nil => rfl
  | cons c w =>
    have hne := hleft (c :: w) (List.mem_filter.mpr ⟨hw, rfl⟩)
    simpa using hne

/-! ### Words put together -/

/-- A word that is all of a text. -/
theorem splitWords_eq_singleton {w : List α} (hne : w ≠ []) (h : ∀ c ∈ w, p c = false) :
    splitWords p w = [w] := by
  have hnil : ([] : List α).splitOnP p = [[]] := List.splitOnP_nil
  have hword := splitOnP_append_of_neg h hnil
  rw [List.append_nil] at hword
  rw [splitWords, hword, List.filter_cons_of_pos (by simpa using hne), List.filter_nil]

/-- A word, and what comes after the separator. -/
theorem splitWords_append_cons {w : List α} {s : α} (hne : w ≠ []) (h : ∀ c ∈ w, p c = false)
    (hs : p s = true) (cs : List α) : splitWords p (w ++ s :: cs) = w :: splitWords p cs := by
  have hword := splitOnP_append_of_neg h (splitOnP_cons_of_pos hs cs)
  rw [List.append_nil] at hword
  rw [splitWords, hword, List.filter_cons_of_pos (by simpa using hne), splitWords]

/-- **Words put together** with one separator between them are split again. -/
theorem splitWords_intercalate {s : α} (hs : p s = true) {ws : List (List α)}
    (h : ∀ w ∈ ws, w ≠ [] ∧ ∀ c ∈ w, p c = false) : splitWords p ([s].intercalate ws) = ws := by
  induction ws with
  | nil => rw [List.intercalate_nil, splitWords_nil]
  | cons w ws ih =>
    obtain ⟨⟨hne, hw⟩, hws⟩ := List.forall_mem_cons.mp h
    cases ws with
    | nil => rw [List.intercalate_singleton, splitWords_eq_singleton hne hw]
    | cons w' ws =>
      rw [List.intercalate_cons_cons, List.append_assoc, List.singleton_append,
        splitWords_append_cons hne hw hs, ih hws]

end Words

end CryptoZaloBot
