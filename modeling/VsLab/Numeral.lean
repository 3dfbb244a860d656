import Mathlib.Data.Int.Basic
import Mathlib.Data.Nat.ModEq
import Mathlib.Tactic.Ring

set_option autoImplicit false

namespace Numeral

structure Digits (s : List Char) : Prop where
  some : s ≠ []
  digit : ∀ c ∈ s, c.isDigit = true

inductive Writes : List Char → Int → Prop where
  | plain (s : List Char) (digits : Digits s) : Writes s (Nat.ofDigitChars 10 s 0)
  | plus (s : List Char) (digits : Digits s) : Writes ('+' :: s) (Nat.ofDigitChars 10 s 0)
  | minus (s : List Char) (digits : Digits s) : Writes ('-' :: s) (-(Nat.ofDigitChars 10 s 0 : Int))

theorem writes_nonempty (s : List Char) (v : Int) (writes : Writes s v) : s ≠ [] := by
  rintro rfl
  cases writes with
  | plain _ digits => exact digits.some rfl

theorem writes_unique (s : List Char) (v w : Int) (first : Writes s v) (second : Writes s w) : v = w := by
  have signed (mark : Char) (t : List Char) (digits : Digits (mark :: t)) (noDigit : mark.isDigit = false) : v = w := by
    have isDigit := digits.digit mark List.mem_cons_self
    rw [noDigit] at isDigit
    cases isDigit
  cases first with
  | plain _ digits =>
      cases second with
      | plain _ _ => rfl
      | plus t _ => exact signed '+' t digits (by decide)
      | minus t _ => exact signed '-' t digits (by decide)
  | plus t _ =>
      cases second with
      | plain _ digits => exact signed '+' t digits (by decide)
      | plus _ _ => rfl
  | minus t _ =>
      cases second with
      | plain _ digits => exact signed '-' t digits (by decide)
      | minus _ _ => rfl

theorem decimal_digits (n : Nat) : Digits (Nat.toDigits 10 n) :=
  ⟨Nat.toDigits_ne_nil, fun _ member => Nat.isDigit_of_mem_toDigits (by decide) (by decide) member⟩

theorem decimal_writes (z : Int) : Writes (toString z).toList z := by
  rw [Int.toString_eq_repr, Int.repr_eq_if]
  split
  · next nonneg =>
      rw [Nat.toList_repr]
      have writes := Writes.plain _ (decimal_digits z.toNat)
      rwa [Nat.ofDigitChars_ten_toDigits, Int.toNat_of_nonneg nonneg] at writes
  · next negative =>
      rw [String.toList_append, Nat.toList_repr]
      have writes := Writes.minus _ (decimal_digits (-z).toNat)
      rwa [Nat.ofDigitChars_ten_toDigits, Int.toNat_of_nonneg (by omega), Int.neg_neg] at writes

def digit (c : Char) : Nat := c.toNat - '0'.toNat

theorem digit_iff (c : Char) : c.isDigit = true ↔ '0' ≤ c ∧ c ≤ '9' := by
  rw [Char.isDigit, Bool.and_eq_true, decide_eq_true_iff, decide_eq_true_iff]
  exact Iff.rfl

theorem digit_lt (c : Char) (isDigit : c.isDigit = true) : digit c < 10 := by
  have high := ((digit_iff c).mp isDigit).2
  have bound : c.toNat ≤ '9'.toNat := high
  have nine : '9'.toNat = 57 := rfl
  have zero : '0'.toNat = 48 := rfl
  unfold digit
  omega

theorem digit_pos (c : Char) (isDigit : c.isDigit = true) (notZero : c ≠ '0') : 0 < digit c := by
  have low := ((digit_iff c).mp isDigit).1
  have bound : '0'.toNat ≤ c.toNat := low
  have different : c.toNat ≠ '0'.toNat := fun same => notZero (Char.toNat_inj.mp same)
  unfold digit
  omega

section Value

variable (radix : Nat)

theorem value_cons (c : Char) (s : List Char) (start : Nat) :
    Nat.ofDigitChars radix (c :: s) start = Nat.ofDigitChars radix s (radix * start + digit c) :=
  Nat.ofDigitChars_cons

theorem value_start (s : List Char) (start : Nat) :
    Nat.ofDigitChars radix s start = radix ^ s.length * start + Nat.ofDigitChars radix s 0 := by
  induction s generalizing start with
  | nil => simp
  | cons c s ih =>
      rw [value_cons, ih, value_cons, ih (radix * 0 + digit c), List.length_cons, pow_succ]
      ring

theorem value_head (c : Char) (s : List Char) :
    Nat.ofDigitChars radix (c :: s) 0 = radix ^ s.length * digit c + Nat.ofDigitChars radix s 0 := by
  rw [value_cons, value_start, Nat.mul_zero, Nat.zero_add]

theorem start_le_value (s : List Char) (start : Nat) (positive : 0 < radix) : start ≤ Nat.ofDigitChars radix s start := by
  rw [value_start]
  have scaled : 1 * start ≤ radix ^ s.length * start := Nat.mul_le_mul_right start (Nat.pow_pos positive)
  omega

theorem value_mod (modulus : Nat) (s : List Char) (start other : Nat) (same : start % modulus = other % modulus) :
    Nat.ofDigitChars radix s start % modulus = Nat.ofDigitChars radix s other % modulus := by
  rw [value_start radix s start, value_start radix s other]
  exact Nat.ModEq.add_right _ (Nat.ModEq.mul_left _ same)

theorem value_snoc (c : Char) (s : List Char) :
    Nat.ofDigitChars radix (s ++ [c]) 0 = radix * Nat.ofDigitChars radix s 0 + digit c := by
  rw [Nat.ofDigitChars_append, value_cons]
  rfl

theorem value_trimmed (s : List Char) :
    Nat.ofDigitChars radix (s.dropWhile fun c => c = '0') 0 = Nat.ofDigitChars radix s 0 := by
  induction s with
  | nil => rfl
  | cons c s ih =>
      by_cases zero : c = '0'
      · subst zero
        rw [List.dropWhile_cons_of_pos (by simp), ih, value_cons]
        rfl
      · rw [List.dropWhile_cons_of_neg (by simpa using zero)]

end Value

theorem octal_le_decimal (s : List Char) : Nat.ofDigitChars 8 s 0 ≤ Nat.ofDigitChars 10 s 0 := by
  induction s with
  | nil => exact le_rfl
  | cons c s ih =>
      rw [value_head, value_head]
      have power : 8 ^ s.length ≤ 10 ^ s.length := Nat.pow_le_pow_left (by decide) _
      exact Nat.add_le_add (Nat.mul_le_mul_right _ power) ih

theorem octal_eq_decimal (s : List Char) (digits : ∀ c ∈ s, c.isDigit = true) (octal : ∀ c ∈ s, digit c < 8) :
    Nat.ofDigitChars 8 s 0 = Nat.ofDigitChars 10 s 0 ↔ Nat.ofDigitChars 10 s 0 < 8 := by
  induction s with
  | nil => simp
  | cons c s ih =>
      have rest := ih (fun d member => digits d (List.mem_cons_of_mem c member))
        (fun d member => octal d (List.mem_cons_of_mem c member))
      have small := octal c List.mem_cons_self
      rw [value_head, value_head]
      by_cases zero : c = '0'
      · have none : digit c = 0 := by rw [zero]; rfl
        rw [none, Nat.mul_zero, Nat.mul_zero, Nat.zero_add, Nat.zero_add]
        exact rest
      · have positive := digit_pos c (digits c List.mem_cons_self) zero
        cases s with
        | nil => simp [small]
        | cons d s =>
            have power : 8 ^ (d :: s).length < 10 ^ (d :: s).length := Nat.pow_lt_pow_left (by decide) (by simp)
            have larger : 8 ^ (d :: s).length * digit c < 10 ^ (d :: s).length * digit c :=
              Nat.mul_lt_mul_of_pos_right power positive
            have ten : 10 ^ 1 ≤ 10 ^ (d :: s).length := Nat.pow_le_pow_right (by decide) (by simp)
            have high : 10 ^ (d :: s).length * 1 ≤ 10 ^ (d :: s).length * digit c := Nat.mul_le_mul_left _ positive
            have below := octal_le_decimal (d :: s)
            constructor
            · intro same
              omega
            · intro low
              omega

end Numeral
