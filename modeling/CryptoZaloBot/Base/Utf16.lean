import Mathlib.Data.List.Lex
import Mathlib.Data.List.Sort

/-!
# Texts in the order of their code units

A text is a list of code units of 16 bits, one for a character of the basic plane and two for
any other, and texts are compared unit by unit. Different texts have different units
(`CryptoZaloBot.Utf16.units_injective`), so that sorting forgets the order in which texts were
given and nothing else (`CryptoZaloBot.Utf16.sort_eq_iff`).
-/

namespace CryptoZaloBot

namespace Utf16

/-- The code units of a character. -/
def unitsOfChar (c : Char) : List ℕ :=
  if c.toNat < 0x10000 then [c.toNat]
  else [0xd800 + (c.toNat - 0x10000) / 0x400, 0xdc00 + (c.toNat - 0x10000) % 0x400]

/-- **The code units of a text.** -/
def units (s : String) : List ℕ := s.toList.flatMap unitsOfChar

/-- A character is not a surrogate, and there are seventeen planes. -/
theorem toNat_cases (c : Char) : c.toNat < 0xd800 ∨ 0xdfff < c.toNat ∧ c.toNat < 0x110000 :=
  c.valid

/-- **The first character is known** from the units of a text. -/
theorem eq_of_unitsOfChar_append {c d : Char} {us vs : List ℕ}
    (h : unitsOfChar c ++ us = unitsOfChar d ++ vs) : c = d ∧ us = vs := by
  have hchar : ∀ {c d : Char}, c.toNat = d.toNat → c = d := fun heq =>
    Char.ext (UInt32.toNat_inj.mp heq)
  have hc := toNat_cases c
  have hd := toNat_cases d
  rw [unitsOfChar, unitsOfChar] at h
  -- A first unit that is a surrogate belongs to a character beyond the basic plane.
  split_ifs at h with hbasic hbasic' hbasic'
  · obtain ⟨hunit, rfl⟩ := List.cons_eq_cons.mp h
    exact ⟨hchar hunit, rfl⟩
  · obtain ⟨hunit, -⟩ := List.cons_eq_cons.mp h
    omega
  · obtain ⟨hunit, -⟩ := List.cons_eq_cons.mp h
    omega
  · obtain ⟨hhigh, htail⟩ := List.cons_eq_cons.mp h
    obtain ⟨hlow, rfl⟩ := List.cons_eq_cons.mp htail
    exact ⟨hchar (by omega), rfl⟩

theorem flatMap_unitsOfChar_injective :
    Function.Injective fun cs : List Char => cs.flatMap unitsOfChar := by
  have hne (c : Char) (us : List ℕ) : unitsOfChar c ++ us ≠ [] := by
    rw [unitsOfChar]
    split_ifs <;> exact List.cons_ne_nil _ _
  intro cs
  induction cs with
  | nil =>
    rintro (_ | ⟨d, ds⟩) h
    · rfl
    · exact absurd h.symm (hne d _)
  | cons c cs ih =>
    rintro (_ | ⟨d, ds⟩) h
    · exact absurd h (hne c _)
    · obtain ⟨rfl, hrest⟩ := eq_of_unitsOfChar_append h
      rw [ih hrest]

theorem units_injective : Function.Injective units := fun _ _ h =>
  String.toList_inj.mp (flatMap_unitsOfChar_injective h)

/-- **`texts.sort()`.** -/
def sort (texts : List String) : List String :=
  texts.mergeSort fun s t => decide (units s ≤ units t)

theorem sort_perm (texts : List String) : (sort texts).Perm texts :=
  List.mergeSort_perm _ _

theorem pairwise_sort (texts : List String) :
    (sort texts).Pairwise fun s t => units s ≤ units t := by
  have hpairwise : (sort texts).Pairwise fun s t => decide (units s ≤ units t) = true := by
    refine List.pairwise_mergeSort (fun s t u hst htu => ?_) (fun s t => ?_) texts
    · rw [decide_eq_true_eq] at *
      exact hst.trans htu
    · rw [Bool.or_eq_true, decide_eq_true_eq, decide_eq_true_eq]
      exact le_total _ _
  exact hpairwise.imp fun h => of_decide_eq_true h

/-- **Sorting forgets the order**, and nothing else. -/
theorem sort_eq_iff {texts texts' : List String} :
    sort texts = sort texts' ↔ texts.Perm texts' := by
  constructor
  · intro h
    exact ((sort_perm texts).symm.trans (List.Perm.of_eq h)).trans (sort_perm texts')
  · intro h
    refine List.Perm.eq_of_pairwise ?_ (pairwise_sort texts) (pairwise_sort texts')
      ((sort_perm texts).trans (h.trans (sort_perm texts').symm))
    intro s t _ _ hst hts
    exact units_injective (hst.antisymm hts)

end Utf16

end CryptoZaloBot
