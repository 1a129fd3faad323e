import Mathlib.Data.List.DropRight
import Mathlib.Data.Nat.Digits.Lemmas

/-!
# Decimal texts

Natural numbers written in base ten, as lists of characters: writing one
(`CryptoZaloBot.Decimal.ofNat`), reading one back (`CryptoZaloBot.Decimal.value`),
and the padding and trimming of zeros that fixed-point notation needs.

Reading undoes writing (`CryptoZaloBot.Decimal.value_ofNat`), leading zeros do not
change what is read (`CryptoZaloBot.Decimal.value_leftpad`), and trailing zeros that
were trimmed can be put back when the length is known
(`CryptoZaloBot.Decimal.rightpad_rdropWhile`).
-/

namespace CryptoZaloBot

/-! What is asked of all characters of a text is checked for one after the other, not for every
character there is. -/

instance decidableForallMemChar {p : Char → Prop} [DecidablePred p] (cs : List Char) :
    Decidable (∀ c ∈ cs, p c) :=
  List.decidableBAll p cs

instance decidableExistsMemChar {p : Char → Prop} [DecidablePred p] (cs : List Char) :
    Decidable (∃ c ∈ cs, p c) :=
  List.decidableBEx p cs

namespace Decimal

/-- The value of a digit. -/
def digitValue (c : Char) : ℕ := c.toNat - '0'.toNat

/-- The number a list of digits writes, most significant digit first. -/
def value (cs : List Char) : ℕ := cs.foldl (fun n c => 10 * n + digitValue c) 0

/-- The digits of a number, most significant first; zero is written `0`. -/
def ofNat (n : ℕ) : List Char :=
  if n = 0 then ['0'] else (Nat.digits 10 n).reverse.map Nat.digitChar

/-! ### Reading -/

@[simp] theorem value_nil : value [] = 0 := rfl

@[simp] theorem value_concat (cs : List Char) (c : Char) :
    value (cs ++ [c]) = 10 * value cs + digitValue c := by
  simp [value, List.foldl_append]

theorem value_append (cs ds : List Char) :
    value (cs ++ ds) = value cs * 10 ^ ds.length + value ds := by
  induction ds using List.reverseRecOn with
  | nil => simp
  | append_singleton ds d ih =>
    rw [← List.append_assoc, value_concat, ih, value_concat, List.length_append,
      List.length_singleton, pow_succ]
    ring

theorem value_replicate_zero (k : ℕ) : value (List.replicate k '0') = 0 := by
  induction k with
  | zero => rfl
  | succ k ih => rw [List.replicate_succ', value_concat, ih]; rfl

/-- **Leading zeros do not change what is read.** -/
@[simp] theorem value_leftpad (n : ℕ) (cs : List Char) : value (cs.leftpad n '0') = value cs := by
  simp [List.leftpad, value_append, value_replicate_zero]

/-! ### Writing -/

theorem digitValue_digitChar {d : ℕ} (h : d < 10) : digitValue (Nat.digitChar d) = d := by
  revert d
  decide

theorem isDigit_digitChar {d : ℕ} (h : d < 10) : (Nat.digitChar d).isDigit = true := by
  revert d
  decide

theorem value_map_digitChar {ds : List ℕ} (h : ∀ d ∈ ds, d < 10) :
    value (ds.reverse.map Nat.digitChar) = Nat.ofDigits 10 ds := by
  induction ds with
  | nil => rfl
  | cons d ds ih =>
    have hds := ih fun d' hd' => h d' (List.mem_cons_of_mem d hd')
    rw [List.reverse_cons, List.map_append, List.map_singleton, value_concat, hds,
      digitValue_digitChar (h d List.mem_cons_self), Nat.ofDigits_cons]
    ring

/-- **Reading undoes writing.** -/
@[simp] theorem value_ofNat (n : ℕ) : value (ofNat n) = n := by
  rw [ofNat]
  split_ifs with h
  · rw [h]
    rfl
  · rw [value_map_digitChar fun d hd => Nat.digits_lt_base (by decide) hd, Nat.ofDigits_digits]

theorem isDigit_of_mem_ofNat {n : ℕ} {c : Char} (h : c ∈ ofNat n) : c.isDigit = true := by
  rw [ofNat] at h
  split_ifs at h with hn
  · rw [List.mem_singleton.mp h]
    rfl
  · obtain ⟨d, hd, rfl⟩ := List.mem_map.mp h
    exact isDigit_digitChar (Nat.digits_lt_base (by decide) (List.mem_reverse.mp hd))

theorem ofNat_ne_nil (n : ℕ) : ofNat n ≠ [] := by
  rw [ofNat]
  split_ifs with h
  · simp
  · simpa [Nat.digits_eq_nil_iff_eq_zero] using h

/-- A number below `10 ^ k` is written with at most `k` digits. -/
theorem length_ofNat_le {n k : ℕ} (hk : 0 < k) (h : n < 10 ^ k) : (ofNat n).length ≤ k := by
  rw [ofNat]
  split_ifs with hn
  · exact hk
  · simpa using (Nat.digits_length_le_iff (by decide) n).mpr h

/-! ### Padding and trimming zeros -/

/-- **Trimmed zeros can be put back** when the length is known. -/
theorem rightpad_rdropWhile (cs : List Char) :
    (cs.rdropWhile (· = '0')).rightpad cs.length '0' = cs := by
  induction cs using List.reverseRecOn with
  | nil => rfl
  | append_singleton cs c ih =>
    by_cases hc : c = '0'
    · subst hc
      have hle : (cs.rdropWhile (· = '0')).length ≤ cs.length :=
        (List.rdropWhile_prefix _ (l := cs)).length_le
      rw [List.rdropWhile_concat_pos _ _ _ (by simp), List.length_append, List.length_singleton]
      have hk : cs.length + 1 - (cs.rdropWhile (· = '0')).length =
          (cs.length - (cs.rdropWhile (· = '0')).length) + 1 := by omega
      rw [List.rightpad, hk, List.replicate_succ', ← List.append_assoc]
      rw [List.rightpad] at ih
      rw [ih]
    · rw [List.rdropWhile_concat_neg _ _ _ (by simpa using hc)]
      simp [List.rightpad]

theorem value_rightpad {n : ℕ} (cs : List Char) :
    value (cs.rightpad n '0') = value cs * 10 ^ (n - cs.length) := by
  rw [List.rightpad, value_append, value_replicate_zero, List.length_replicate, add_zero]

end Decimal

end CryptoZaloBot
