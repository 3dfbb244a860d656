import VsLab.NumberText
import VsLab.CString
import VsLab.System

set_option autoImplicit false

namespace VsLab

open Numeral CString

-- operator>> for a number, on a stream with its default flags. Where nothing is left
-- to read the string stays empty, and an empty string is zero.
def readNumber (stream : List Char) : Option Int512 := doAssignString (token stream)

def serialize (value : Int512) : String := String.ofList (doGetString value)

def deserialize (source : String) : Option Int512 := readNumber source.toList

def runClient (host : String) (port : Int) (stdin : List Char) : Option ClientArgs :=
  (readNumber stdin).map fun n => ⟨host, port, n⟩

theorem printed_token (value : Int512) : token (doGetString value) = doGetString value := by
  have digits := (unsigned_string_spec value.val.natAbs).1
  have inked : ∀ c ∈ doGetString value, isSpace c = false := by
    intro c member
    rw [doGetString] at member
    split at member
    · rcases List.mem_cons.mp member with rfl | later
      · decide
      · exact digit_not_space c (digits.digit c later)
    · exact digit_not_space c (digits.digit c member)
  have kept : (doGetString value).dropWhile isSpace = doGetString value := by
    cases text : doGetString value with
    | nil => rfl
    | cons c s =>
        have first := inked c (by rw [text]; exact List.mem_cons_self)
        exact List.dropWhile_cons_of_neg (by simp [first])
  rw [token, kept]
  exact List.takeWhile_eq_self_iff.mpr (by simpa using inked)

theorem deserialize_serialize (value : Int512) : deserialize (serialize value) = some value := by
  rw [deserialize, serialize, String.toList_ofList, readNumber, printed_token, assign_printed]

def typedText (negative : Bool) (digits : List Char) : List Char := if negative then '-' :: digits else digits

def typedValue (negative : Bool) (digits : List Char) : Int :=
  if negative then -(Nat.ofDigitChars 10 digits 0 : Int) else Nat.ofDigitChars 10 digits 0

def ReadAsWritten (digits : List Char) : Prop :=
  if digits.head? = some '0' then (∃ c ∈ digits, c = '8' ∨ c = '9') ∨ Nat.ofDigitChars 10 digits 0 < 8
  else Nat.ofDigitChars 10 digits 0 < modulus

theorem typed_writes (negative : Bool) (digits : List Char) (number : Digits digits) :
    Writes (typedText negative digits) (typedValue negative digits) := by
  cases negative
  · exact .plain digits number
  · exact .minus digits number

theorem no_octal_digit (c : Char) (isDigit : c.isDigit = true) : c = '8' ∨ c = '9' ↔ 8 ≤ digit c := by
  have small := digit_lt c isDigit
  have value : c.toNat = 48 + digit c := by
    have low : 48 ≤ c.toNat := ((digit_iff c).mp isDigit).1
    have zero : '0'.toNat = 48 := rfl
    unfold digit
    omega
  have eight : c = '8' ↔ c.toNat = 56 := Char.toNat_inj.symm
  have nine : c = '9' ↔ c.toNat = 57 := Char.toNat_inj.symm
  rw [eight, nine]
  omega

theorem assigned_fits (digits : List Char) (number : Digits digits) (magnitude : Nat)
    (assigned : assignUnsigned digits = some magnitude) : magnitude < modulus := by
  by_cases first : ∃ rest, digits = '0' :: rest
  · obtain ⟨rest, rfl⟩ := first
    by_cases single : rest = []
    · rw [single] at assigned
      cases assigned
      exact modulus_pos
    · rw [assign_unsigned_octal rest number single] at assigned
      by_cases octal : ∀ c ∈ '0' :: rest, digit c < 8
      · obtain ⟨result, read, small, _⟩ :=
          assign_octal_value 0 0 0 ('0' :: rest) number.digit octal (by decide) (by decide) modulus_pos (fun _ => rfl)
        cases read.symm.trans assigned
        exact small
      · push Not at octal
        cases (assign_octal_rejects 0 0 0 ('0' :: rest) number.digit octal).symm.trans assigned
  · rw [assign_unsigned_decimal digits number (fun rest same => first ⟨rest, same⟩)] at assigned
    cases assigned
    exact Nat.mod_lt _ modulus_pos

theorem octal_as_written (rest : List Char) (number : Digits ('0' :: rest)) (more : rest ≠ []) :
    (∀ magnitude, assignUnsigned ('0' :: rest) = some magnitude → magnitude = Nat.ofDigitChars 10 ('0' :: rest) 0) ↔
      (∃ c ∈ '0' :: rest, 8 ≤ digit c) ∨ Nat.ofDigitChars 10 ('0' :: rest) 0 < 8 := by
  rw [assign_unsigned_octal rest number more]
  by_cases high : ∃ c ∈ '0' :: rest, 8 ≤ digit c
  · rw [assign_octal_rejects 0 0 0 ('0' :: rest) number.digit high]
    exact ⟨fun _ => .inl high, fun _ magnitude read => by cases read⟩
  · have octal : ∀ c ∈ '0' :: rest, digit c < 8 := by
      push Not at high
      exact high
    have equal := octal_eq_decimal ('0' :: rest) number.digit octal
    have below := octal_le_decimal ('0' :: rest)
    obtain ⟨result, read, small, exact⟩ :=
      assign_octal_value 0 0 0 ('0' :: rest) number.digit octal (by decide) (by decide) modulus_pos (fun _ => rfl)
    rw [Nat.zero_mul, Nat.zero_add] at exact
    constructor
    · intro right
      have same := right result read
      exact .inr (equal.mp (by rw [← exact (by omega), same]))
    · rintro (bad | one) magnitude again
      · exact absurd bad high
      · cases read.symm.trans again
        have room : 8 < modulus := lt_trans (by decide) limb_lt_modulus
        rw [exact (by omega), equal.mpr one]

theorem assigned_as_written (digits : List Char) (number : Digits digits) :
    (∀ magnitude, assignUnsigned digits = some magnitude → magnitude = Nat.ofDigitChars 10 digits 0) ↔
      ReadAsWritten digits := by
  by_cases first : ∃ rest, digits = '0' :: rest
  · obtain ⟨rest, rfl⟩ := first
    have strange : (∃ c ∈ '0' :: rest, c = '8' ∨ c = '9') ↔ ∃ c ∈ '0' :: rest, 8 ≤ digit c :=
      exists_congr fun c => and_congr_right fun member => no_octal_digit c (number.digit c member)
    rw [ReadAsWritten, List.head?_cons, if_pos rfl, strange]
    by_cases single : rest = []
    · subst single
      refine ⟨fun _ => .inr (by decide), fun _ magnitude read => ?_⟩
      cases read
      rfl
    · exact octal_as_written rest number single
  · have noZero : digits.head? ≠ some '0' := by
      intro leads
      cases digits with
      | nil => cases leads
      | cons c rest => exact first ⟨rest, by cases leads; rfl⟩
    rw [ReadAsWritten, if_neg noZero, assign_unsigned_decimal digits number (fun rest same => first ⟨rest, same⟩)]
    constructor
    · intro right
      have same := right _ rfl
      have reduced := Nat.mod_lt (Nat.ofDigitChars 10 digits 0) modulus_pos
      omega
    · intro low magnitude read
      cases read
      exact Nat.mod_eq_of_lt low

theorem read_typed (negative : Bool) (digits : List Char) (number : Digits digits) :
    doAssignString (typedText negative digits) = (assignUnsigned digits).map fun magnitude =>
      if negative then -Int512.ofNat magnitude else Int512.ofNat magnitude := by
  cases negative
  · exact assign_plain digits number
  · exact assign_minus digits number

theorem typed_number_iff (host : String) (port : Int) (negative : Bool) (digits : List Char) (space : Char)
    (rest : List Char) (number : Digits digits) (blank : isSpace space = true) :
    (∀ args, runClient host port (typedText negative digits ++ space :: rest) = some args →
      args.n.val = typedValue negative digits) ↔ ReadAsWritten digits := by
  have writes := typed_writes negative digits number
  rw [runClient, readNumber, token_writes _ rest space _ writes blank, read_typed negative digits number,
    ← assigned_as_written digits number]
  have value (magnitude : Nat) (read : assignUnsigned digits = some magnitude) :
      (if negative then -Int512.ofNat magnitude else Int512.ofNat magnitude).val = typedValue negative digits ↔
        magnitude = Nat.ofDigitChars 10 digits 0 := by
    have fits := assigned_fits digits number magnitude read
    have exact : (Int512.ofNat magnitude).val = magnitude := Int512.val_wrap_small _ (by rwa [Int.natAbs_natCast])
    cases negative
    · simp only [typedValue, Bool.false_eq_true, if_false, exact]
      omega
    · simp only [typedValue, if_true, Int512.val_neg, exact]
      omega
  constructor
  · intro started magnitude read
    rw [read] at started
    exact (value magnitude read).mp (started _ rfl)
  · intro right args started
    obtain ⟨n, read, rfl⟩ := Option.map_eq_some_iff.mp started
    obtain ⟨magnitude, assigned, rfl⟩ := Option.map_eq_some_iff.mp read
    exact (value magnitude assigned).mpr (right magnitude assigned)

theorem typed_number_fifteen : Digits ['1', '5'] ∧ isSpace (Char.ofNat 10) = true ∧
    ((∀ args, runClient "localhost" 6667 (typedText false ['1', '5'] ++ [Char.ofNat 10]) = some args →
      args.n.val = typedValue false ['1', '5']) ↔ ReadAsWritten ['1', '5']) := by
  have number : Digits ['1', '5'] := ⟨by decide, List.all_eq_true.mp (by decide)⟩
  have blank : isSpace (Char.ofNat 10) = true := by decide
  exact ⟨number, blank, typed_number_iff "localhost" 6667 false ['1', '5'] (Char.ofNat 10) [] number blank⟩

theorem typed_number_changed :
    (∃ args, runClient "localhost" 6667 (typedText false ['0', '1', '0'] ++ [Char.ofNat 10]) = some args ∧
      args.n.val = 8 ∧ typedValue false ['0', '1', '0'] = 10) ∧
    ∃ args, runClient "localhost" 6667 (typedText false (Nat.toDigits 10 (2 ^ 512 + 15)) ++ [Char.ofNat 10]) = some args ∧
      args.n.val = 15 ∧ typedValue false (Nat.toDigits 10 (2 ^ 512 + 15)) = 2 ^ 512 + 15 := by
  have octal : readNumber (typedText false ['0', '1', '0'] ++ [Char.ofNat 10]) = some (Int512.ofNat 8) := by decide +kernel
  have cut : readNumber (typedText false (Nat.toDigits 10 (2 ^ 512 + 15)) ++ [Char.ofNat 10]) = some (Int512.ofNat 15) := by
    decide +kernel
  constructor
  · refine ⟨⟨"localhost", 6667, Int512.ofNat 8⟩, ?_, by decide +kernel, by decide⟩
    rw [runClient, octal, Option.map_some]
  · refine ⟨⟨"localhost", 6667, Int512.ofNat 15⟩, ?_, by decide +kernel, by decide +kernel⟩
    rw [runClient, cut, Option.map_some]

end VsLab
