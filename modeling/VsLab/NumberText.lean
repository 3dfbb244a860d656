import VsLab.Int512
import VsLab.Numeral
import Mathlib.Data.Nat.Bitwise
import Mathlib.Data.Nat.Log
import Mathlib.Data.List.TakeWhile

set_option autoImplicit false

namespace VsLab

def limbBits : Nat := 64
def digitsPerBlock10 : Nat := 18
def maxBlock10 : Nat := 10 ^ digitsPerBlock10
def blockMultiplier (count : Nat) : Nat := 10 ^ (count + 1)

def limbCount (magnitude : Nat) : Nat := magnitude.log2 / limbBits + 1

-- The buffer is filled from its end: room is what is left of it, left what is still
-- to be written of the block v, t what comes before that block. The part of the
-- buffer that is not reached stays '0' and goes with the leading zeros.
def writeBlocks : Nat → Nat → Nat → Nat → List Char
  | 0, _, _, _ => []
  | room + 1, 0, _, t =>
      if t = 0 then []
      else
        writeBlocks room (digitsPerBlock10 - 1) (t % maxBlock10 / 10) (t / maxBlock10) ++
          [Nat.digitChar (t % maxBlock10 % 10)]
  | room + 1, left + 1, v, t => writeBlocks room left (v / 10) t ++ [Nat.digitChar (v % 10)]

def eraseZeros (result : List Char) : List Char :=
  if (result.dropWhile fun c => c = '0') = [] then ['0'] else result.dropWhile fun c => c = '0'

def unsignedString (magnitude : Nat) : List Char :=
  eraseZeros (if limbCount magnitude = 1 then Nat.toDigits 10 magnitude
    else writeBlocks (limbCount magnitude * limbBits / 3 + 1) 0 0 magnitude)

def doGetString (value : Int512) : List Char :=
  if value.val < 0 then '-' :: unsignedString value.val.natAbs else unsignedString value.val.natAbs

def evalLeftShift (magnitude s : Nat) : Nat :=
  if s % limbBits ≠ 0 ∧ modulus ≤ magnitude * 2 ^ s then magnitude * 2 ^ (s + limbBits) % modulus
  else magnitude * 2 ^ s % modulus

def hexDigit (c : Char) : Nat :=
  if '0' ≤ c ∧ c ≤ '9' then c.toNat - '0'.toNat
  else if 'a' ≤ c ∧ c ≤ 'f' then 10 + (c.toNat - 'a'.toNat)
  else if 'A' ≤ c ∧ c ≤ 'F' then 10 + (c.toNat - 'A'.toNat)
  else 2 ^ limbBits - 1

def assignShifted (shift : Nat) : Nat → Nat → Nat → List Char → Option Nat
  | _, _, magnitude, [] => some magnitude
  | i, block, magnitude, c :: s =>
      if 2 ^ shift ≤ hexDigit c then none
      else if s = [] then
        some (evalLeftShift magnitude ((i + 1) * shift) ||| (block * 2 ^ shift ||| hexDigit c))
      else if i + 1 = limbBits / shift then
        assignShifted shift 0 0
          (evalLeftShift magnitude (shift * (limbBits / shift)) ||| (block * 2 ^ shift ||| hexDigit c)) s
      else assignShifted shift (i + 1) (block * 2 ^ shift ||| hexDigit c) magnitude s

def assignDecimal : Nat → Nat → Nat → List Char → Option Nat
  | _, _, magnitude, [] => some magnitude
  | i, block, magnitude, c :: s =>
      if '0' ≤ c ∧ c ≤ '9' then
        let block := block * 10 + (c.toNat - '0'.toNat)
        if s = [] then some ((magnitude * blockMultiplier i % modulus + block) % modulus)
        else if i + 1 = digitsPerBlock10 then assignDecimal 0 0 ((magnitude * maxBlock10 % modulus + block) % modulus) s
        else assignDecimal (i + 1) block magnitude s
      else none

def assignUnsigned : List Char → Option Nat
  | '0' :: 'x' :: s => assignShifted 4 0 0 0 s
  | '0' :: 'X' :: s => assignShifted 4 0 0 0 s
  | ['0'] => some 0
  | '0' :: s => assignShifted 3 0 0 0 ('0' :: s)
  | s => assignDecimal 0 0 0 s

def doAssignString (text : List Char) : Option Int512 :=
  match text.takeWhile fun c => c ≠ Char.ofNat 0 with
  | '-' :: s => (assignUnsigned s).map fun magnitude => -Int512.ofNat magnitude
  | s => (assignUnsigned s).map Int512.ofNat

section Printing

open Numeral

theorem digit_char (d : Nat) (small : d < 10) : d.digitChar.isDigit = true ∧ digit d.digitChar = d := by
  refine ⟨by rw [Nat.isDigit_digitChar, decide_eq_true small], ?_⟩
  rw [digit, Nat.toNat_digitChar_of_lt_ten small]
  exact Nat.add_sub_cancel_left 48 d

theorem write_blocks_digits (room left v t : Nat) : ∀ c ∈ writeBlocks room left v t, c.isDigit = true := by
  induction room generalizing left v t with
  | zero => simp [writeBlocks]
  | succ room ih =>
      have last (s : List Char) (d : Nat) (before : ∀ c ∈ s, c.isDigit = true) :
          ∀ c ∈ s ++ [Nat.digitChar (d % 10)], c.isDigit = true := by
        intro c member
        rcases List.mem_append.mp member with early | final
        · exact before c early
        · rw [List.mem_singleton.mp final]
          exact (digit_char (d % 10) (Nat.mod_lt d (by decide))).1
      cases left with
      | zero =>
          rw [writeBlocks]
          split
          · simp
          · exact last _ _ (ih _ _ _)
      | succ left =>
          rw [writeBlocks]
          exact last _ _ (ih _ _ _)

theorem write_blocks_value (room left v t : Nat) (block : v < 10 ^ left) (fits : t * 10 ^ left + v < 10 ^ room) :
    Nat.ofDigitChars 10 (writeBlocks room left v t) 0 = t * 10 ^ left + v := by
  induction room generalizing left v t with
  | zero =>
      rw [writeBlocks, Nat.ofDigitChars_nil]
      omega
  | succ room ih =>
      rw [pow_succ] at fits
      cases left with
      | zero =>
          have none : v = 0 := by simpa using block
          subst none
          rw [writeBlocks, pow_zero, Nat.mul_one, Nat.add_zero]
          rw [pow_zero, Nat.mul_one, Nat.add_zero] at fits
          by_cases done : t = 0
          · rw [if_pos done, done, Nat.ofDigitChars_nil]
          · have split : t / maxBlock10 * 10 ^ (digitsPerBlock10 - 1) + t % maxBlock10 / 10 = t / 10 := by
              simp only [maxBlock10, digitsPerBlock10]
              omega
            rw [if_neg done, value_snoc, (digit_char _ (Nat.mod_lt _ (by decide))).2,
              ih _ _ _ (by simp only [maxBlock10, digitsPerBlock10]; omega) (by rw [split]; omega), split]
            simp only [maxBlock10, digitsPerBlock10]
            omega
      | succ left =>
          rw [pow_succ, ← mul_assoc] at fits ⊢
          rw [pow_succ] at block
          rw [writeBlocks, value_snoc, (digit_char _ (Nat.mod_lt _ (by decide))).2, ih _ _ _ (by omega) (by omega)]
          omega

theorem limb_count_room (magnitude : Nat) : magnitude < 10 ^ (limbCount magnitude * limbBits / 3 + 1) := by
  have bits : magnitude < 2 ^ (limbCount magnitude * limbBits) := by
    refine lt_of_lt_of_le Nat.lt_log2_self (Nat.pow_le_pow_right (by decide) ?_)
    unfold limbCount limbBits
    omega
  have thirds : limbCount magnitude * limbBits ≤ 3 * (limbCount magnitude * limbBits / 3 + 1) := by omega
  calc magnitude < 2 ^ (limbCount magnitude * limbBits) := bits
    _ ≤ 2 ^ (3 * (limbCount magnitude * limbBits / 3 + 1)) := Nat.pow_le_pow_right (by decide) thirds
    _ = (2 ^ 3) ^ (limbCount magnitude * limbBits / 3 + 1) := pow_mul 2 3 _
    _ ≤ 10 ^ (limbCount magnitude * limbBits / 3 + 1) := Nat.pow_le_pow_left (by decide) _

theorem erase_zeros_spec (result : List Char) (digits : ∀ c ∈ result, c.isDigit = true) :
    Digits (eraseZeros result) ∧ Nat.ofDigitChars 10 (eraseZeros result) 0 = Nat.ofDigitChars 10 result 0 ∧
      ∀ rest, eraseZeros result = '0' :: rest → rest = [] := by
  have trimmed := value_trimmed 10 result
  by_cases empty : (result.dropWhile fun c => c = '0') = []
  · rw [eraseZeros, if_pos empty]
    rw [empty] at trimmed
    exact ⟨⟨by simp, by simp⟩, trimmed, fun rest zeros => (List.cons.inj zeros).2.symm⟩
  · rw [eraseZeros, if_neg empty]
    refine ⟨⟨empty, fun c member => digits c ((List.dropWhile_sublist _).subset member)⟩, trimmed, ?_⟩
    intro rest zeros
    have head := List.head_dropWhile_not (fun c => decide (c = '0')) empty
    simp [zeros] at head

theorem unsigned_string_spec (magnitude : Nat) :
    Digits (unsignedString magnitude) ∧ Nat.ofDigitChars 10 (unsignedString magnitude) 0 = magnitude ∧
      ∀ rest, unsignedString magnitude = '0' :: rest → rest = [] := by
  unfold unsignedString
  split
  · have digits : ∀ c ∈ Nat.toDigits 10 magnitude, c.isDigit = true := fun c member =>
      Nat.isDigit_of_mem_toDigits (by decide) (by decide) member
    have spec := erase_zeros_spec _ digits
    rwa [Nat.ofDigitChars_ten_toDigits] at spec
  · have value := write_blocks_value (limbCount magnitude * limbBits / 3 + 1) 0 0 magnitude (by simp)
      (by simpa using limb_count_room magnitude)
    rw [pow_zero, Nat.mul_one, Nat.add_zero] at value
    have spec := erase_zeros_spec _ (write_blocks_digits (limbCount magnitude * limbBits / 3 + 1) 0 0 magnitude)
    rwa [value] at spec

end Printing

section Reading

open Numeral

theorem assign_decimal_value (i block magnitude : Nat) (s : List Char) (nonempty : s ≠ [])
    (digits : ∀ c ∈ s, c.isDigit = true) (inside : i < digitsPerBlock10) :
    assignDecimal i block magnitude s = some (Nat.ofDigitChars 10 s (magnitude * 10 ^ i + block) % modulus) := by
  induction s generalizing i block magnitude with
  | nil => exact absurd rfl nonempty
  | cons c s ih =>
      have isDigit := (digit_iff c).mp (digits c List.mem_cons_self)
      have rest : ∀ d ∈ s, d.isDigit = true := fun d member => digits d (List.mem_cons_of_mem c member)
      have longer : 10 * (magnitude * 10 ^ i + block) + digit c =
          magnitude * 10 ^ (i + 1) + (block * 10 + (c.toNat - '0'.toNat)) := by
        rw [pow_succ, digit]
        ring
      rw [assignDecimal, if_pos isDigit, value_cons, longer]
      by_cases last : s = []
      · rw [if_pos last, last, Nat.ofDigitChars_nil, blockMultiplier, Nat.mod_add_mod]
      · rw [if_neg last]
        by_cases full : i + 1 = digitsPerBlock10
        · rw [if_pos full, ih 0 0 _ last rest (by decide), pow_zero, Nat.mul_one, Nat.add_zero, full, ← maxBlock10]
          refine congrArg some (value_mod 10 modulus s _ _ ?_)
          rw [Nat.mod_mod, Nat.mod_add_mod]
        · rw [if_neg full, ih (i + 1) _ magnitude last rest (by omega)]

theorem hex_digit_decimal (c : Char) (isDigit : c.isDigit = true) : hexDigit c = digit c := by
  rw [hexDigit, if_pos ((digit_iff c).mp isDigit), digit]

theorem shifted_or (a b s : Nat) (low : b < 2 ^ s) : a * 2 ^ s ||| b = a * 2 ^ s + b := by
  rw [Nat.mul_comm, Nat.two_pow_add_eq_or_of_lt low]

theorem assign_octal_rejects (i block magnitude : Nat) (s : List Char) (digits : ∀ c ∈ s, c.isDigit = true)
    (high : ∃ c ∈ s, 8 ≤ digit c) : assignShifted 3 i block magnitude s = none := by
  induction s generalizing i block magnitude with
  | nil =>
      obtain ⟨c, member, _⟩ := high
      cases member
  | cons c s ih =>
      have rest : ∀ d ∈ s, d.isDigit = true := fun d member => digits d (List.mem_cons_of_mem c member)
      rw [assignShifted, hex_digit_decimal c (digits c List.mem_cons_self)]
      by_cases bad : 2 ^ 3 ≤ digit c
      · rw [if_pos bad]
      · obtain ⟨d, member, eight⟩ := high
        rcases List.mem_cons.mp member with rfl | later
        · exact absurd eight bad
        · rw [if_neg bad, if_neg (List.ne_nil_of_mem later)]
          split
          · exact ih _ _ _ rest ⟨d, later, eight⟩
          · exact ih _ _ _ rest ⟨d, later, eight⟩

theorem left_shift_fits (magnitude s : Nat) : evalLeftShift magnitude s < modulus := by
  unfold evalLeftShift
  split <;> exact Nat.mod_lt _ modulus_pos

theorem left_shift_exact (magnitude s : Nat) (small : magnitude * 2 ^ s < modulus) :
    evalLeftShift magnitude s = magnitude * 2 ^ s := by
  rw [evalLeftShift, if_neg (by omega), Nat.mod_eq_of_lt small]

theorem limb_lt_modulus : 2 ^ limbBits < modulus := by
  have shorter : limbBits < 512 := by decide
  unfold modulus
  exact pow_lt_pow_right₀ one_lt_two shorter

theorem or_below (k a b : Nat) (aLow : a < 2 ^ k) (bLow : b < 2 ^ k) : (a ||| b) < 2 ^ k := Nat.or_lt_two_pow aLow bLow

theorem block_or_fits (magnitude block s : Nat) (low : block < 2 ^ limbBits) :
    (evalLeftShift magnitude s ||| block) < modulus := by
  have shifted := left_shift_fits magnitude s
  have small := lt_trans low limb_lt_modulus
  unfold modulus at shifted small ⊢
  exact or_below 512 _ _ shifted small

theorem shifted_block (magnitude block s : Nat) (low : block < 2 ^ s) (small : magnitude * 2 ^ s + block < modulus) :
    evalLeftShift magnitude s ||| block = magnitude * 2 ^ s + block := by
  rw [left_shift_exact magnitude s (by omega), shifted_or magnitude block s low]

theorem assign_octal_value (i block magnitude : Nat) (s : List Char) (digits : ∀ c ∈ s, c.isDigit = true)
    (octal : ∀ c ∈ s, digit c < 8) (inside : i < 21) (blockLow : block < 2 ^ (3 * i)) (fits : magnitude < modulus)
    (nonempty : s = [] → i = 0) :
    ∃ result, assignShifted 3 i block magnitude s = some result ∧ result < modulus ∧
      (Nat.ofDigitChars 8 s (magnitude * 2 ^ (3 * i) + block) < modulus →
        result = Nat.ofDigitChars 8 s (magnitude * 2 ^ (3 * i) + block)) := by
  induction s generalizing i block magnitude with
  | nil =>
      have zero := nonempty rfl
      subst zero
      refine ⟨magnitude, rfl, fits, fun _ => ?_⟩
      have none : block = 0 := by simpa using blockLow
      simp [none]
  | cons c s ih =>
      have rest : ∀ d ∈ s, d.isDigit = true := fun d member => digits d (List.mem_cons_of_mem c member)
      have restOctal : ∀ d ∈ s, digit d < 8 := fun d member => octal d (List.mem_cons_of_mem c member)
      have low := octal c List.mem_cons_self
      have widened : 2 ^ (3 * (i + 1)) = 2 ^ (3 * i) * 2 ^ 3 := by rw [Nat.mul_add, pow_add]
      have grown : block * 2 ^ 3 ||| digit c = block * 2 ^ 3 + digit c := shifted_or block (digit c) 3 low
      have grownLow : block * 2 ^ 3 + digit c < 2 ^ (3 * (i + 1)) := by omega
      have limb : 2 ^ (3 * (i + 1)) < 2 ^ limbBits := Nat.pow_lt_pow_right (by decide) (by unfold limbBits; omega)
      have longer : 8 * (magnitude * 2 ^ (3 * i) + block) + digit c =
          magnitude * 2 ^ (3 * (i + 1)) + (block * 2 ^ 3 + digit c) := by
        rw [widened]
        ring
      rw [assignShifted, hex_digit_decimal c (digits c List.mem_cons_self), if_neg (by omega), grown, value_cons, longer]
      by_cases last : s = []
      · rw [if_pos last, last, Nat.ofDigitChars_nil, Nat.mul_comm (i + 1) 3]
        exact ⟨_, rfl, block_or_fits _ _ _ (by omega), shifted_block _ _ _ grownLow⟩
      · rw [if_neg last]
        by_cases full : i + 1 = limbBits / 3
        · have width : 3 * (limbBits / 3) = 3 * (i + 1) := by rw [full]
          rw [if_pos full, width]
          obtain ⟨result, read, small, exact⟩ := ih 0 0
            (evalLeftShift magnitude (3 * (i + 1)) ||| (block * 2 ^ 3 + digit c)) rest restOctal (by decide) (by decide)
            (block_or_fits _ _ _ (by omega)) (fun _ => rfl)
          refine ⟨result, read, small, ?_⟩
          intro below
          have start := start_le_value 8 s (magnitude * 2 ^ (3 * (i + 1)) + (block * 2 ^ 3 + digit c)) (by decide)
          rw [shifted_block _ _ _ grownLow (by omega)] at exact
          simp only [Nat.mul_zero, pow_zero, Nat.mul_one, Nat.add_zero] at exact
          exact exact below
        · rw [if_neg full]
          have short : i + 1 < 21 := by
            have count : limbBits / 3 = 21 := rfl
            omega
          exact ih (i + 1) _ magnitude rest restOctal short grownLow fits (fun empty => absurd empty last)

theorem assign_unsigned_decimal (s : List Char) (digits : Digits s) (first : ∀ rest, s ≠ '0' :: rest) :
    assignUnsigned s = some (Nat.ofDigitChars 10 s 0 % modulus) := by
  unfold assignUnsigned
  split
  · exact absurd rfl (first _)
  · exact absurd rfl (first _)
  · exact absurd rfl (first _)
  · exact absurd rfl (first _)
  · simpa using assign_decimal_value 0 0 0 s digits.some digits.digit (by decide)

theorem assign_unsigned_octal (s : List Char) (digits : Digits ('0' :: s)) (more : s ≠ []) :
    assignUnsigned ('0' :: s) = assignShifted 3 0 0 0 ('0' :: s) := by
  cases s with
  | nil => exact absurd rfl more
  | cons c s =>
      have isDigit := digits.digit c (by simp)
      have notLower : c ≠ 'x' := by
        rintro rfl
        exact absurd isDigit (by decide)
      have notUpper : c ≠ 'X' := by
        rintro rfl
        exact absurd isDigit (by decide)
      simp [assignUnsigned, notLower, notUpper]

theorem terminator_free (s : List Char) (digits : ∀ c ∈ s, c.isDigit = true) :
    (s.takeWhile fun c => c ≠ Char.ofNat 0) = s := by
  rw [List.takeWhile_eq_self_iff]
  intro c member
  have isDigit := digits c member
  refine decide_eq_true ?_
  rintro rfl
  exact absurd isDigit (by decide)

theorem assign_minus (s : List Char) (digits : Digits s) :
    doAssignString ('-' :: s) = (assignUnsigned s).map fun magnitude => -Int512.ofNat magnitude := by
  rw [doAssignString, List.takeWhile_cons_of_pos (by decide), terminator_free s digits.digit]
  rfl

theorem assign_plain (s : List Char) (digits : Digits s) :
    doAssignString s = (assignUnsigned s).map Int512.ofNat := by
  rw [doAssignString, terminator_free s digits.digit]
  split
  · exact absurd (digits.digit '-' (by simp)) (by decide)
  · rfl

end Reading

theorem assign_printed (value : Int512) : doAssignString (doGetString value) = some value := by
  obtain ⟨digits, magnitude, single⟩ := unsigned_string_spec value.val.natAbs
  have fits := value.fits
  have read : assignUnsigned (unsignedString value.val.natAbs) = some value.val.natAbs := by
    by_cases zero : ∃ rest, unsignedString value.val.natAbs = '0' :: rest
    · obtain ⟨rest, leading⟩ := zero
      rw [single rest leading] at leading
      rw [leading] at magnitude ⊢
      exact congrArg some magnitude
    · rw [assign_unsigned_decimal _ digits (fun rest leading => zero ⟨rest, leading⟩), magnitude, Nat.mod_eq_of_lt fits]
  have absolute : (Int512.ofNat value.val.natAbs).val = value.val.natAbs :=
    Int512.val_wrap_small _ (by rwa [Int.natAbs_natCast])
  unfold doGetString
  split
  · rw [assign_minus _ digits, read, Option.map_some]
    refine congrArg some (Int512.ext_val _ _ ?_)
    rw [Int512.val_neg, absolute]
    omega
  · rw [assign_plain _ digits, read, Option.map_some]
    refine congrArg some (Int512.ext_val _ _ ?_)
    rw [absolute]
    omega

end VsLab
