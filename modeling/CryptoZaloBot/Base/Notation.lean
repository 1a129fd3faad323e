import Mathlib.Algebra.Order.Field.Rat
import Mathlib.Tactic.FieldSimp
import CryptoZaloBot.Base.Decimal

/-!
# Numbers as texts

A decimal number is a list of significant digits and the place of its point. A text shows it
with the point in place, filled up with zeros where there are no digits, or – when that would
take too many zeros – with an exponent (`CryptoZaloBot.Decimal.layout`).

A reader that knows plain numbers and exponents reads all of these layouts back
(`CryptoZaloBot.Decimal.read?_layout`).
-/

namespace CryptoZaloBot

namespace Decimal

/-- The number with these digits whose point stands after the first `n` of them. -/
def pointed (digits : List Char) (n : ℤ) : ℚ := (value digits : ℚ) * 10 ^ (n - digits.length)

/-- The exponent of a number written with one digit before the point. -/
def exponentText (e : ℤ) : List Char :=
  'e' :: (if e < 0 then '-' else '+') :: ofNat e.natAbs

/-- **A number as a text**: with an exponent when its point is more than 21 places to the
right, or 6 to the left. -/
def layout (digits : List Char) (n : ℤ) : List Char :=
  if digits.length ≤ n ∧ n ≤ 21 then digits ++ List.replicate (n - digits.length).toNat '0'
  else if 0 < n ∧ n ≤ 21 then digits.take n.toNat ++ '.' :: digits.drop n.toNat
  else if -6 < n ∧ n ≤ 0 then '0' :: '.' :: (List.replicate (-n).toNat '0' ++ digits)
  else if digits.length = 1 then digits ++ exponentText (n - 1)
  else digits.take 1 ++ '.' :: (digits.drop 1 ++ exponentText (n - 1))

/-! ### Reading -/

/-- A sign, perhaps, and digits. -/
def signed? : List Char → Option ℤ
  | '-' :: ds => if !ds.isEmpty && ds.all Char.isDigit then some (-(value ds : ℤ)) else none
  | '+' :: ds => if !ds.isEmpty && ds.all Char.isDigit then some (value ds : ℤ) else none
  | ds => if !ds.isEmpty && ds.all Char.isDigit then some (value ds : ℤ) else none

/-- What stands after the digits of a number: nothing, or an exponent. -/
def exponent? : List Char → Option ℤ
  | [] => some 0
  | c :: cs => if c = 'e' ∨ c = 'E' then signed? cs else none

/-- The digits after a point, if there is one, and the rest. -/
def fraction : List Char → List Char × List Char
  | '.' :: cs => cs.span Char.isDigit
  | cs => ([], cs)

/-- **Reading a number**: digits, perhaps a point and more digits, perhaps an exponent. -/
def read? (cs : List Char) : Option ℚ :=
  let whole := cs.takeWhile Char.isDigit
  let tail := fraction (cs.dropWhile Char.isDigit)
  if whole = [] ∧ tail.1 = [] then none
  else (exponent? tail.2).map fun e : ℤ =>
    (value (whole ++ tail.1) : ℚ) * 10 ^ (e - tail.1.length)

/-! ### A text is read back -/

section ReadBack

variable {ds rest : List Char} {e : ℤ}

/-- The digits end where anything else begins. -/
theorem takeWhile_digits (ds rest : List Char) (hds : ∀ c ∈ ds, c.isDigit = true)
    (hrest : ∀ c ∈ rest.head?, c.isDigit = false) :
    (ds ++ rest).takeWhile Char.isDigit = ds ∧ (ds ++ rest).dropWhile Char.isDigit = rest := by
  rw [List.takeWhile_append_of_pos hds, List.dropWhile_append_of_pos hds]
  cases rest with
  | nil => simp
  | cons c rest => simp [hrest c rfl]

theorem exponent?_head (h : exponent? rest = some e) : ∀ c ∈ rest.head?, c.isDigit = false := by
  cases rest with
  | nil => simp
  | cons c rest =>
    intro c' hc'
    obtain rfl : c = c' := by simpa using hc'
    rw [exponent?] at h
    split_ifs at h with hc
    rcases hc with rfl | rfl <;> rfl

theorem exponent?_exponentText (e : ℤ) : exponent? (exponentText e) = some e := by
  have hne : (!(ofNat e.natAbs).isEmpty) = true := by simpa using ofNat_ne_nil e.natAbs
  have hall : (ofNat e.natAbs).all Char.isDigit = true :=
    List.all_eq_true.mpr fun c hc => isDigit_of_mem_ofNat hc
  rw [exponentText, exponent?, if_pos (Or.inl rfl)]
  split_ifs with he
  · rw [signed?, hne, hall]
    simp only [Bool.and_self, if_true, value_ofNat]
    exact congrArg some (by omega)
  · rw [signed?, hne, hall]
    simp only [Bool.and_self, if_true, value_ofNat]
    exact congrArg some (by omega)

/-- A number without a point. -/
theorem read?_whole (rest : List Char) (hds : ∀ c ∈ ds, c.isDigit = true) (hne : ds ≠ [])
    (he : exponent? rest = some e) : read? (ds ++ rest) = some ((value ds : ℚ) * 10 ^ e) := by
  obtain ⟨htake, hdrop⟩ := takeWhile_digits ds rest hds (exponent?_head he)
  have hfraction : fraction rest = ([], rest) := by
    cases rest with
    | nil => rfl
    | cons c rest =>
      have hdot : c ≠ '.' := by
        rintro rfl
        cases he
      rw [fraction]
      rintro cs ⟨⟩
      exact hdot rfl
  simp [read?, htake, hdrop, hfraction, hne, he]

/-- A number with a point. -/
theorem read?_pointed (ds fs rest : List Char) (hds : ∀ c ∈ ds, c.isDigit = true) (hne : ds ≠ [])
    (hfs : ∀ c ∈ fs, c.isDigit = true) (he : exponent? rest = some e) :
    read? (ds ++ '.' :: (fs ++ rest)) = some ((value (ds ++ fs) : ℚ) * 10 ^ (e - fs.length)) := by
  obtain ⟨htake, hdrop⟩ := takeWhile_digits ds ('.' :: (fs ++ rest)) hds (by simp)
  obtain ⟨hfrac, hend⟩ := takeWhile_digits fs rest hfs (exponent?_head he)
  simp [read?, htake, hdrop, fraction, List.span_eq_takeWhile_dropWhile, hfrac, hend, hne, he]

/-- **Every layout is read back.** -/
theorem read?_layout (hds : ∀ c ∈ ds, c.isDigit = true) (hne : ds ≠ []) (n : ℤ) :
    read? (layout ds n) = some (pointed ds n) := by
  have hlength : 0 < ds.length := List.length_pos_iff.mpr hne
  rw [layout, pointed]
  split_ifs with hlarge hpoint hsmall hsingle
  · -- Zeros up to the point.
    have hzeros : ∀ c ∈ ds ++ List.replicate (n - ds.length).toNat '0', c.isDigit = true := by
      intro c hc
      rcases List.mem_append.mp hc with hc | hc
      · exact hds c hc
      · rw [List.eq_of_mem_replicate hc]
        rfl
    have hread := read?_whole [] hzeros (by simp [hne]) rfl
    rw [List.append_nil] at hread
    rw [hread, value_append, value_replicate_zero, List.length_replicate]
    have hexp : n - ds.length = ((n - ds.length).toNat : ℤ) := (Int.toNat_of_nonneg (by omega)).symm
    conv_rhs => rw [hexp, zpow_natCast]
    simp
  · -- The point stands between two digits.
    have hread := read?_pointed (ds.take n.toNat) (ds.drop n.toNat) []
      (fun c hc => hds c (List.mem_of_mem_take hc)) (by simp [hne]; omega)
      (fun c hc => hds c (List.mem_of_mem_drop hc)) rfl
    rw [List.append_nil, List.take_append_drop] at hread
    rw [hread, List.length_drop]
    refine congrArg (fun k : ℤ => some ((value ds : ℚ) * 10 ^ k)) ?_
    omega
  · -- Zeros after the point.
    have hzeros : ∀ c ∈ List.replicate (-n).toNat '0' ++ ds, c.isDigit = true := by
      intro c hc
      rcases List.mem_append.mp hc with hc | hc
      · rw [List.eq_of_mem_replicate hc]
        rfl
      · exact hds c hc
    have hzero : ∀ c ∈ ['0'], c.isDigit = true := fun c hc => by
      rw [List.mem_singleton.mp hc]
      rfl
    have hread := read?_pointed ['0'] _ [] hzero (by simp) hzeros rfl
    rw [List.append_nil] at hread
    have hvalue : value (['0'] ++ (List.replicate (-n).toNat '0' ++ ds)) = value ds := by
      rw [value_append, value_append, value_replicate_zero]
      simp [value, digitValue]
    change read? (['0'] ++ '.' :: (List.replicate (-n).toNat '0' ++ ds)) = _
    rw [hread, hvalue, List.length_append, List.length_replicate]
    refine congrArg (fun k : ℤ => some ((value ds : ℚ) * 10 ^ k)) ?_
    omega
  · -- One digit, and an exponent.
    rw [read?_whole _ hds hne (exponent?_exponentText _), hsingle]
    rfl
  · -- The point stands after the first digit, and an exponent follows.
    have hread := read?_pointed (ds.take 1) (ds.drop 1) _
      (fun c hc => hds c (List.mem_of_mem_take hc)) (by simp [hne])
      (fun c hc => hds c (List.mem_of_mem_drop hc)) (exponent?_exponentText (n - 1))
    rw [List.take_append_drop] at hread
    rw [hread, List.length_drop]
    refine congrArg (fun k : ℤ => some ((value ds : ℚ) * 10 ^ k)) ?_
    omega

end ReadBack

end Decimal

end CryptoZaloBot
