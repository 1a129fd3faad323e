import Mathlib.Data.Finset.Prod
import Mathlib.Data.Nat.Count

/-!
# Blocks of one colour

The days up to some day have colours, or none. A *block* of a colour is a run of consecutive
days of that colour that can't be made longer (`CryptoZaloBot.IsBlock`).

A loop that goes from day to day and remembers the colour before can only see where a block
starts (`CryptoZaloBot.BlockStarts`). That is enough to count blocks, as each start is the
start of one block (`CryptoZaloBot.card_blocks`).
-/

namespace CryptoZaloBot

variable {κ : Type*} (color : ℕ → Option κ) (n : ℕ) (c : κ)

/-- **A block of a colour** among the first `n` days: its first day, and the day after its
last one. -/
def IsBlock (block : ℕ × ℕ) : Prop :=
  block.1 < block.2 ∧ block.2 ≤ n ∧ (∀ i < block.2, block.1 ≤ i → color i = some c) ∧
    (0 < block.1 → color (block.1 - 1) ≠ some c) ∧ (block.2 < n → color block.2 ≠ some c)

/-- A block starts here. -/
def BlockStarts (i : ℕ) : Prop := color i = some c ∧ (0 < i → color (i - 1) ≠ some c)

section Decidable

variable [DecidableEq κ]

instance : DecidablePred (IsBlock color n c) := fun block =>
  inferInstanceAs (Decidable (block.1 < block.2 ∧ block.2 ≤ n ∧
    (∀ i < block.2, block.1 ≤ i → color i = some c) ∧
      (0 < block.1 → color (block.1 - 1) ≠ some c) ∧ (block.2 < n → color block.2 ≠ some c)))

instance : DecidablePred (BlockStarts color c) := fun i =>
  inferInstanceAs (Decidable (color i = some c ∧ (0 < i → color (i - 1) ≠ some c)))

/-- All blocks of a colour. -/
def blocks : Finset (ℕ × ℕ) :=
  (Finset.range n ×ˢ Finset.range (n + 1)).filter (IsBlock color n c)

end Decidable

variable {color n c}

/-- What a loop remembers when it comes to a day: the colour of the day before. -/
def colorBefore (color : ℕ → Option κ) : ℕ → Option κ
  | 0 => none
  | i + 1 => color i

theorem blockStarts_iff {i : ℕ} :
    BlockStarts color c i ↔ color i = some c ∧ colorBefore color i ≠ some c := by
  refine and_congr_right fun _ => ?_
  cases i with
  | zero => simp [colorBefore]
  | succ i => simp [colorBefore]

theorem mem_blocks [DecidableEq κ] {block : ℕ × ℕ} :
    block ∈ blocks color n c ↔ IsBlock color n c block := by
  rw [blocks, Finset.mem_filter, Finset.mem_product, Finset.mem_range, Finset.mem_range]
  refine and_iff_right_of_imp fun h => ?_
  have hlt := h.1
  have hle := h.2.1
  omega

theorem IsBlock.starts {block : ℕ × ℕ} (h : IsBlock color n c block) :
    BlockStarts color c block.1 :=
  ⟨h.2.2.1 block.1 h.1 le_rfl, h.2.2.2.1⟩

/-- Two blocks that start on one day end on one day. -/
theorem IsBlock.end_le {block other : ℕ × ℕ} (h : IsBlock color n c block)
    (h' : IsBlock color n c other) (hstart : block.1 = other.1) : block.2 ≤ other.2 := by
  obtain ⟨-, hle, hcolor, -, -⟩ := h
  obtain ⟨hlt', -, -, -, hright'⟩ := h'
  by_contra hlt
  exact hright' (by omega) (hcolor other.2 (by omega) (by omega))

theorem IsBlock.eq_of_start {block other : ℕ × ℕ} (h : IsBlock color n c block)
    (h' : IsBlock color n c other) (hstart : block.1 = other.1) : block = other :=
  Prod.ext hstart (le_antisymm (h.end_le h' hstart) (h'.end_le h hstart.symm))

/-- **Where a block starts there is one**: it goes on until the colour changes. -/
theorem exists_isBlock {i : ℕ} (hi : i < n) (h : BlockStarts color c i) :
    ∃ stop, IsBlock color n c (i, stop) := by
  -- Induction on how far the days from `i` on are known to have the colour.
  suffices hgrow : ∀ left stop, stop + left = n → i < stop →
      (∀ j < stop, i ≤ j → color j = some c) → ∃ stop, IsBlock color n c (i, stop) by
    refine hgrow (n - (i + 1)) (i + 1) (by omega) (Nat.lt_succ_self i) fun j hj hij => ?_
    obtain rfl : j = i := by omega
    exact h.1
  intro left
  induction left with
  | zero =>
    intro stop hstop hlt hcolor
    exact ⟨stop, hlt, by omega, hcolor, h.2, fun hless => absurd hless (by omega)⟩
  | succ left ih =>
    intro stop hstop hlt hcolor
    by_cases hnext : color stop = some c
    · refine ih (stop + 1) (by omega) (by omega) fun j hj hij => ?_
      rcases Nat.lt_succ_iff_lt_or_eq.mp hj with hlt | rfl
      · exact hcolor j hlt hij
      · exact hnext
    · exact ⟨stop, hlt, by omega, hcolor, h.2, fun _ => hnext⟩

/-- **Blocks are counted by their starts.** -/
theorem card_blocks [DecidableEq κ] (color : ℕ → Option κ) (n : ℕ) (c : κ) (P : ℕ → Prop)
    [DecidablePred P] :
    ((blocks color n c).filter fun block => P block.1).card =
      Nat.count (fun i => BlockStarts color c i ∧ P i) n := by
  rw [Nat.count_eq_card_filter_range]
  refine Finset.card_bij (fun block _ => block.1) ?_ ?_ ?_
  · intro block hblock
    obtain ⟨hmem, hP⟩ := Finset.mem_filter.mp hblock
    have hisBlock := mem_blocks.mp hmem
    have hlt := hisBlock.1
    have hle := hisBlock.2.1
    exact Finset.mem_filter.mpr ⟨Finset.mem_range.mpr (by omega), hisBlock.starts, hP⟩
  · intro block hblock other hother hstart
    exact (mem_blocks.mp (Finset.mem_filter.mp hblock).1).eq_of_start
      (mem_blocks.mp (Finset.mem_filter.mp hother).1) hstart
  · intro i hi
    obtain ⟨hrange, hstarts, hP⟩ := Finset.mem_filter.mp hi
    obtain ⟨stop, hblock⟩ := exists_isBlock (Finset.mem_range.mp hrange) hstarts
    exact ⟨(i, stop), Finset.mem_filter.mpr ⟨mem_blocks.mpr hblock, hP⟩, rfl⟩

end CryptoZaloBot
