import Mathlib.Algebra.Order.Ring.Int
import Mathlib.Data.String.Basic

/-!
# Decimal texts of integers

An integer is written with digits and at most one sign in front. `value` reads such a text back, so
no two integers share one.

Padding with zeros does not change the value, and the sign is the only character that is no digit.
-/

namespace Numeral

/-- A character of a decimal text. -/
def isNumeral (c : Char) : Bool := c.isDigit || c = '-'

/-- Numerals that end at the first other character are told apart from what follows. -/
theorem delimited {xs ys behind behind' : List Char} {a b : Char}
    (hx : ∀ c ∈ xs, isNumeral c = true) (hy : ∀ c ∈ ys, isNumeral c = true)
    (ha : ¬ isNumeral a = true) (hb : ¬ isNumeral b = true)
    (h : xs ++ a :: behind = ys ++ b :: behind') : xs = ys ∧ a :: behind = b :: behind' := by
  have hfront := congrArg (List.takeWhile isNumeral) h
  rw [List.takeWhile_append_of_pos hx, List.takeWhile_append_of_pos hy,
    List.takeWhile_cons_of_neg ha, List.takeWhile_cons_of_neg hb, List.append_nil,
    List.append_nil] at hfront
  rw [hfront] at h
  exact ⟨hfront, List.append_cancel_left h⟩

/-- The integer a decimal text stands for. -/
def value : List Char → Int
  | '-' :: digits => -(Nat.ofDigitChars 10 digits 0 : Int)
  | digits => (Nat.ofDigitChars 10 digits 0 : Int)

theorem isDigit_of_mem_repr {n : Nat} {c : Char} (h : c ∈ n.repr.toList) : c.isDigit = true := by
  rw [Nat.toList_repr] at h
  exact Nat.isDigit_of_mem_toDigits (by decide) (by decide) h

theorem toList_ofNat (n : Nat) : (toString (Int.ofNat n)).toList = n.repr.toList := rfl

theorem toList_negSucc (n : Nat) :
    (toString (Int.negSucc n)).toList = '-' :: (n + 1).repr.toList := by
  show ("-" ++ (n + 1).repr).toList = _
  rw [String.toList_append]
  rfl

theorem isNumeral_of_mem {n : Int} {c : Char} (h : c ∈ (toString n).toList) :
    isNumeral c = true := by
  rw [isNumeral, Bool.or_eq_true, decide_eq_true_eq]
  cases n with
  | ofNat n =>
      rw [toList_ofNat] at h
      exact Or.inl (isDigit_of_mem_repr h)
  | negSucc n =>
      rw [toList_negSucc] at h
      rcases List.mem_cons.mp h with rfl | h
      · exact Or.inr rfl
      · exact Or.inl (isDigit_of_mem_repr h)

theorem toString_ne_nil (n : Int) : (toString n).toList ≠ [] := by
  cases n with
  | ofNat n =>
      rw [toList_ofNat, Nat.toList_repr]
      exact Nat.toDigits_ne_nil
  | negSucc n =>
      rw [toList_negSucc]
      exact List.cons_ne_nil _ _

theorem value_digits {digits : List Char} (h : ∀ c ∈ digits, c.isDigit = true) :
    value digits = (Nat.ofDigitChars 10 digits 0 : Int) := by
  unfold value
  split
  · exact absurd (h '-' (List.mem_cons_self ..)) (by decide)
  · rfl

/-- The text of an integer is read back as the integer. -/
theorem value_toString (n : Int) : value (toString n).toList = n := by
  cases n with
  | ofNat n =>
      rw [toList_ofNat, value_digits fun c hc => isDigit_of_mem_repr hc, Nat.toList_repr,
        Nat.ofDigitChars_ten_toDigits]
      rfl
  | negSucc n =>
      rw [toList_negSucc]
      show -(Nat.ofDigitChars 10 (n + 1).repr.toList 0 : Int) = _
      rw [Nat.toList_repr, Nat.ofDigitChars_ten_toDigits]
      rfl

theorem toString_injective : Function.Injective (toString : Int → String) := by
  intro m n h
  rw [← value_toString m, ← value_toString n, h]

/-! ### Zeros in front -/

/-- An integer with zeros in front of its digits, up to a width that counts the sign. -/
def padded (width : Nat) (n : Int) : String :=
  let digits := n.natAbs.repr
  let sign := if n < 0 then "-" else ""
  sign ++ String.ofList (List.replicate (width - sign.length - digits.length) '0') ++ digits

theorem toList_padded_nonneg (width : Nat) {n : Int} (h : 0 ≤ n) : (padded width n).toList =
    List.replicate (width - n.natAbs.repr.length) '0' ++ n.natAbs.repr.toList := by
  rw [padded, if_neg (Int.not_lt.mpr h)]
  simp

theorem toList_padded_neg (width : Nat) {n : Int} (h : n < 0) : (padded width n).toList =
    '-' :: (List.replicate (width - 1 - n.natAbs.repr.length) '0' ++ n.natAbs.repr.toList) := by
  have hsign : "-".length = 1 := rfl
  rw [padded, if_pos h]
  simp [hsign]

theorem isDigit_of_mem_zeros {k n : Nat} {c : Char}
    (h : c ∈ List.replicate k '0' ++ n.repr.toList) : c.isDigit = true := by
  rcases List.mem_append.mp h with h | h
  · rw [List.eq_of_mem_replicate h]
    rfl
  · exact isDigit_of_mem_repr h

theorem ofDigitChars_zeros (k n : Nat) :
    Nat.ofDigitChars 10 (List.replicate k '0' ++ n.repr.toList) 0 = n := by
  rw [Nat.ofDigitChars_append, Nat.ofDigitChars_replicate_zero, Nat.mul_zero, Nat.toList_repr,
    Nat.ofDigitChars_ten_toDigits]

/-- Zeros in front do not change the value. -/
@[simp] theorem value_padded (width : Nat) (n : Int) : value (padded width n).toList = n := by
  by_cases h : 0 ≤ n
  · rw [toList_padded_nonneg width h, value_digits fun c hc => isDigit_of_mem_zeros hc,
      ofDigitChars_zeros]
    omega
  · rw [toList_padded_neg width (Int.not_le.mp h)]
    show -(Nat.ofDigitChars 10 _ 0 : Int) = n
    rw [ofDigitChars_zeros]
    omega

theorem length_padded {width : Nat} {n : Int} (hwidth : 0 < width) (h : 0 ≤ n)
    (hn : n < 10 ^ width) : (padded width n).toList.length = width := by
  obtain ⟨k, rfl⟩ := Int.eq_ofNat_of_zero_le h
  have hlength : k.repr.length ≤ width := (Nat.length_repr_le_iff hwidth).mpr (by exact_mod_cast hn)
  rw [toList_padded_nonneg width h, Int.natAbs_natCast, List.length_append, List.length_replicate,
    String.length_toList]
  omega

/-- A number below 100 is written with two digits. -/
theorem padded_two {n : Int} (h : 0 ≤ n) (hn : n < 100) :
    ∃ a b, (padded 2 n).toList = [a, b] ∧ value [a, b] = n := by
  obtain ⟨a, b, hab⟩ := List.length_eq_two.mp (@length_padded 2 n (by decide) h hn)
  exact ⟨a, b, hab, hab ▸ value_padded 2 n⟩

end Numeral
