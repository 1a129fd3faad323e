import Mathlib.Algebra.Order.Group.Defs
import Mathlib.Algebra.Order.Group.Unbundled.Basic
import Mathlib.Data.List.Basic

/-!
# The gaps of a sorted list

Points in order cut what lies between the first and the last of them into gaps, one from
each point to the next (`CryptoZaloBot.gaps`). Equal points leave an empty gap between them.

A gap is where nothing is (`CryptoZaloBot.gaps_spec`), and wherever nothing is, there is a
gap around it (`CryptoZaloBot.exists_gap`). So the gaps that are not empty can be told from
the points as a set (`CryptoZaloBot.mem_gaps_iff`), and whether there is a wide one from the
free stretches (`CryptoZaloBot.exists_wide_gap_iff`).
-/

namespace CryptoZaloBot

variable {α : Type*}

/-- **The pairs of neighbours.** -/
def gaps : List α → List (α × α)
  | a :: b :: l => (a, b) :: gaps (b :: l)
  | _ => []

@[simp] theorem gaps_nil : gaps ([] : List α) = [] := rfl

@[simp] theorem gaps_singleton (a : α) : gaps [a] = [] := rfl

@[simp] theorem gaps_cons_cons (a b : α) (l : List α) :
    gaps (a :: b :: l) = (a, b) :: gaps (b :: l) := rfl

/-- The second point of a gap is the one after the first. -/
theorem getElem?_gaps {l : List α} {i : ℕ} {p : α × α} (h : (gaps l)[i]? = some p) :
    l[i]? = some p.1 ∧ l[i + 1]? = some p.2 := by
  induction l generalizing i with
  | nil => simp at h
  | cons a l ih =>
    cases l with
    | nil => simp at h
    | cons b l =>
      cases i with
      | zero =>
        rw [gaps_cons_cons, List.getElem?_cons_zero] at h
        rw [← Option.some.inj h]
        exact ⟨rfl, rfl⟩
      | succ i =>
        rw [gaps_cons_cons, List.getElem?_cons_succ] at h
        exact ih h

variable [LinearOrder α]

/-- Points in order, put between two ends. -/
theorem pairwise_between {a b : α} {l : List α} (h : l.Pairwise (· ≤ ·)) (hab : a ≤ b)
    (hl : ∀ c ∈ l, a ≤ c ∧ c ≤ b) : (a :: (l ++ [b])).Pairwise (· ≤ ·) := by
  refine List.pairwise_cons.mpr ⟨fun c hc => ?_, List.pairwise_append.mpr
    ⟨h, List.pairwise_singleton _ b, fun c hc d hd => ?_⟩⟩
  · rcases List.mem_append.mp hc with hc | hc
    · exact (hl c hc).1
    · rw [List.mem_singleton] at hc
      exact hab.trans hc.ge
  · rw [List.mem_singleton] at hd
    exact (hl c hc).2.trans hd.ge

/-- **What a gap is**: two points, and no point strictly between them. -/
theorem gaps_spec {l : List α} (h : l.Pairwise (· ≤ ·)) {p : α × α} (hp : p ∈ gaps l) :
    p.1 ∈ l ∧ p.2 ∈ l ∧ p.1 ≤ p.2 ∧ ∀ c ∈ l, c ≤ p.1 ∨ p.2 ≤ c := by
  induction l with
  | nil => simp at hp
  | cons a l ih =>
    cases l with
    | nil => simp at hp
    | cons b l =>
      obtain ⟨ha, hbl⟩ := List.pairwise_cons.mp h
      rw [gaps_cons_cons] at hp
      rcases List.mem_cons.mp hp with rfl | hp
      · refine ⟨by simp, by simp, ha b (by simp), fun c hc => ?_⟩
        rcases List.mem_cons.mp hc with rfl | hc
        · exact Or.inl le_rfl
        · rcases List.mem_cons.mp hc with rfl | hc
          · exact Or.inr le_rfl
          · exact Or.inr ((List.pairwise_cons.mp hbl).1 c hc)
      · obtain ⟨hfst, hsnd, hle, hfree⟩ := ih hbl hp
        refine ⟨List.mem_cons_of_mem a hfst, List.mem_cons_of_mem a hsnd, hle, fun c hc => ?_⟩
        rcases List.mem_cons.mp hc with rfl | hc
        · exact Or.inl (ha p.1 hfst)
        · exact hfree c hc

/-- **Gaps come in order**, one after the other. -/
theorem pairwise_gaps {l : List α} (h : l.Pairwise (· ≤ ·)) :
    (gaps l).Pairwise fun p q => p.2 ≤ q.1 := by
  induction l with
  | nil => exact List.Pairwise.nil
  | cons a l ih =>
    cases l with
    | nil => exact List.Pairwise.nil
    | cons b l =>
      have hbl := (List.pairwise_cons.mp h).2
      rw [gaps_cons_cons]
      refine List.pairwise_cons.mpr ⟨fun q hq => ?_, ih hbl⟩
      have hmem := (gaps_spec hbl hq).1
      rcases List.mem_cons.mp hmem with heq | hmem
      · exact heq.ge
      · exact (List.pairwise_cons.mp hbl).1 q.1 hmem

/-- **A free stretch lies in a gap.** -/
theorem exists_gap {a : α} {l : List α} (h : (a :: l).Pairwise (· ≤ ·)) {x y : α} (hx : a ≤ x)
    (hxy : x < y) (hy : ∃ b ∈ a :: l, y ≤ b) (hfree : ∀ c ∈ a :: l, c ≤ x ∨ y ≤ c) :
    ∃ p ∈ gaps (a :: l), p.1 ≤ x ∧ y ≤ p.2 := by
  induction l generalizing a with
  | nil =>
    obtain ⟨b, hb, hyb⟩ := hy
    rw [List.mem_singleton] at hb
    exact absurd (hyb.trans (hb.le.trans hx)) (not_le.mpr hxy)
  | cons b l ih =>
    by_cases hyb : y ≤ b
    · exact ⟨(a, b), by simp, hx, hyb⟩
    · -- The next point is still before the stretch.
      have hbx : b ≤ x := (hfree b (by simp)).resolve_right hyb
      obtain ⟨c, hc, hyc⟩ := hy
      have hne : c ∈ b :: l := by
        refine (List.mem_cons.mp hc).resolve_left ?_
        rintro rfl
        exact absurd (hyc.trans hx) (not_le.mpr hxy)
      obtain ⟨p, hp, hstretch⟩ := ih (List.pairwise_cons.mp h).2 hbx ⟨c, hne, hyc⟩
        fun c hc => hfree c (List.mem_cons_of_mem a hc)
      exact ⟨p, by simp [hp], hstretch⟩

/-- **The gaps that are not empty**, told from the points as a set. -/
theorem mem_gaps_iff {l : List α} (h : l.Pairwise (· ≤ ·)) {x y : α} (hxy : x < y) :
    (x, y) ∈ gaps l ↔ x ∈ l ∧ y ∈ l ∧ ∀ c ∈ l, c ≤ x ∨ y ≤ c := by
  constructor
  · intro hp
    obtain ⟨hx, hy, -, hfree⟩ := gaps_spec h hp
    exact ⟨hx, hy, hfree⟩
  · rintro ⟨hx, hy, hfree⟩
    cases l with
    | nil => simp at hx
    | cons a l =>
      have hax : a ≤ x := by
        rcases List.mem_cons.mp hx with rfl | hx
        · exact le_rfl
        · exact (List.pairwise_cons.mp h).1 x hx
      obtain ⟨p, hp, hpx, hpy⟩ := exists_gap h hax hxy ⟨y, hy, le_rfl⟩ hfree
      obtain ⟨-, -, -, hpfree⟩ := gaps_spec h hp
      have hfst : p.1 = x := le_antisymm hpx ((hpfree x hx).resolve_right fun hle =>
        absurd (hpy.trans hle) (not_le.mpr hxy))
      have hsnd : p.2 = y := le_antisymm ((hpfree y hy).resolve_left fun hle =>
        absurd (hle.trans hpx) (not_le.mpr hxy)) hpy
      rw [← hfst, ← hsnd]
      exact hp

/-- **A wide gap is a wide free stretch.** -/
theorem exists_wide_gap_iff [AddCommGroup α] [IsOrderedAddMonoid α] {a b w : α} {l : List α}
    (h : (a :: l).Pairwise (· ≤ ·)) (hb : b ∈ a :: l) (hlast : ∀ c ∈ a :: l, c ≤ b) (hw : 0 < w) :
    (∃ p ∈ gaps (a :: l), w ≤ p.2 - p.1) ↔
      ∃ x y, a ≤ x ∧ y ≤ b ∧ w ≤ y - x ∧ ∀ c ∈ a :: l, ¬(x < c ∧ c < y) := by
  constructor
  · rintro ⟨p, hp, hwide⟩
    obtain ⟨hfst, hsnd, -, hfree⟩ := gaps_spec h hp
    have hap : a ≤ p.1 := by
      rcases List.mem_cons.mp hfst with heq | hmem
      · exact heq.ge
      · exact (List.pairwise_cons.mp h).1 p.1 hmem
    refine ⟨p.1, p.2, hap, hlast p.2 hsnd, hwide, ?_⟩
    rintro c hc ⟨hlt, hgt⟩
    rcases hfree c hc with hle | hle
    · exact absurd hlt (not_lt.mpr hle)
    · exact absurd hgt (not_lt.mpr hle)
  · rintro ⟨x, y, hax, hyb, hwide, hfree⟩
    have hxy : x < y := sub_pos.mp (hw.trans_le hwide)
    obtain ⟨p, hp, hpx, hpy⟩ := exists_gap h hax hxy ⟨b, hb, hyb⟩ fun c hc => by
      by_contra hnot
      obtain ⟨hlt, hgt⟩ := not_or.mp hnot
      exact hfree c hc ⟨not_le.mp hlt, not_le.mp hgt⟩
    exact ⟨p, hp, hwide.trans (sub_le_sub hpy hpx)⟩

end CryptoZaloBot
