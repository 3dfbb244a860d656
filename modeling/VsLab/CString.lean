import VsLab.Numeral
import Mathlib.Data.List.TakeWhile

set_option autoImplicit false

namespace CString

open Numeral

def isSpace (c : Char) : Bool := c.toNat = 32 || (9 ≤ c.toNat && c.toNat ≤ 13)

def token (stream : List Char) : List Char := (stream.dropWhile isSpace).takeWhile fun c => !isSpace c

def longMin : Int := -2 ^ 63
def longMax : Int := 2 ^ 63 - 1

def InLong (v : Int) : Prop := longMin ≤ v ∧ v ≤ longMax

instance (v : Int) : Decidable (InLong v) := inferInstanceAs (Decidable (_ ∧ _))

def saturate (v : Int) : Int := max longMin (min longMax v)

-- rest is where the end pointer points; inRange is false where errno becomes ERANGE.
structure Conversion where
  value : Int
  rest : List Char
  inRange : Bool
deriving DecidableEq

def sign : List Char → Bool
  | '-' :: _ => true
  | _ => false

def unsignedPart : List Char → List Char
  | '+' :: s => s
  | '-' :: s => s
  | s => s

def digitRun (text : List Char) : List Char := (unsignedPart (text.dropWhile isSpace)).takeWhile Char.isDigit

def spelled (text : List Char) : Int :=
  if sign (text.dropWhile isSpace) then -(Nat.ofDigitChars 10 (digitRun text) 0 : Int)
  else Nat.ofDigitChars 10 (digitRun text) 0

def strtol (text : List Char) : Conversion :=
  if digitRun text = [] then ⟨0, text, true⟩
  else ⟨saturate (spelled text), (unsignedPart (text.dropWhile isSpace)).dropWhile Char.isDigit, InLong (spelled text)⟩

def intMin : Int := -2 ^ 31
def intMax : Int := 2 ^ 31 - 1

def stoi (text : List Char) : Option Int :=
  if (strtol text).rest = text then none
  else if (strtol text).inRange = false ∨ (strtol text).value < intMin ∨ intMax < (strtol text).value then none
  else some (strtol text).value

theorem saturate_in_long (v : Int) (fits : InLong v) : saturate v = v := by
  unfold saturate
  rw [min_eq_right fits.2, max_eq_right fits.1]

theorem digit_not_space (c : Char) (isDigit : c.isDigit = true) : isSpace c = false := by
  obtain ⟨low, high⟩ := (digit_iff c).mp isDigit
  have above : 48 ≤ c.toNat := low
  simp only [isSpace, Bool.or_eq_false_iff, Bool.and_eq_false_iff, decide_eq_false_iff_not]
  omega

theorem digits_not_spaces (s : List Char) (digits : ∀ c ∈ s, c.isDigit = true) : ∀ c ∈ s, isSpace c = false :=
  fun c member => digit_not_space c (digits c member)

theorem writes_not_spaces (s : List Char) (v : Int) (writes : Writes s v) : ∀ c ∈ s, isSpace c = false := by
  have signed (mark : Char) (t : List Char) (digits : Digits t) (fine : isSpace mark = false) :
      ∀ c ∈ mark :: t, isSpace c = false := by
    intro c member
    rcases List.mem_cons.mp member with rfl | later
    · exact fine
    · exact digits_not_spaces t digits.digit c later
  cases writes with
  | plain _ digits => exact digits_not_spaces s digits.digit
  | plus t digits => exact signed '+' t digits (by decide)
  | minus t digits => exact signed '-' t digits (by decide)

theorem token_writes (s rest : List Char) (space : Char) (v : Int) (writes : Writes s v) (blank : isSpace space = true) :
    token (s ++ space :: rest) = s := by
  have inked := writes_not_spaces s v writes
  have kept : ((s ++ space :: rest).dropWhile isSpace) = s ++ space :: rest := by
    cases s with
    | nil => exact absurd rfl (writes_nonempty [] v writes)
    | cons c s => exact List.dropWhile_cons_of_neg (by simp [inked c List.mem_cons_self])
  rw [token, kept, List.takeWhile_append_of_pos (by simpa using inked),
    List.takeWhile_cons_of_neg (by simp [blank]), List.append_nil]

theorem plain_sign (s : List Char) (digits : Digits s) : sign s = false ∧ unsignedPart s = s := by
  cases s with
  | nil => exact ⟨rfl, rfl⟩
  | cons c s =>
      have isDigit := digits.digit c List.mem_cons_self
      have notMinus : c ≠ '-' := by
        rintro rfl
        exact absurd isDigit (by decide)
      have notPlus : c ≠ '+' := by
        rintro rfl
        exact absurd isDigit (by decide)
      exact ⟨by simp [sign, notMinus], by simp [unsignedPart, notMinus, notPlus]⟩

theorem digit_run_all (s : List Char) (digits : Digits s) :
    s.takeWhile Char.isDigit = s ∧ s.dropWhile Char.isDigit = [] :=
  ⟨List.takeWhile_eq_self_iff.mpr digits.digit, List.dropWhile_eq_nil_iff.mpr digits.digit⟩

theorem spelled_writes (text : List Char) (v : Int) (writes : Writes (text.dropWhile isSpace) v) :
    digitRun text ≠ [] ∧ spelled text = v ∧ (unsignedPart (text.dropWhile isSpace)).dropWhile Char.isDigit = [] := by
  unfold spelled digitRun
  generalize text.dropWhile isSpace = body at writes
  cases writes with
  | plain _ digits =>
      obtain ⟨taken, dropped⟩ := digit_run_all body digits
      obtain ⟨positive, whole⟩ := plain_sign body digits
      rw [whole, taken, dropped, positive]
      exact ⟨digits.some, rfl, rfl⟩
  | plus s digits =>
      obtain ⟨taken, dropped⟩ := digit_run_all s digits
      have whole : unsignedPart ('+' :: s) = s := rfl
      rw [whole, taken, dropped]
      exact ⟨digits.some, rfl, rfl⟩
  | minus s digits =>
      obtain ⟨taken, dropped⟩ := digit_run_all s digits
      have whole : unsignedPart ('-' :: s) = s := rfl
      rw [whole, taken, dropped]
      exact ⟨digits.some, rfl, rfl⟩

theorem strtol_writes (text : List Char) (v : Int) (writes : Writes (text.dropWhile isSpace) v) :
    strtol text = ⟨saturate v, [], InLong v⟩ := by
  obtain ⟨some, value, finished⟩ := spelled_writes text v writes
  rw [strtol, if_neg some, value, finished]

theorem strtol_complete (text : List Char) (whole : (strtol text).rest = []) (nonempty : text ≠ []) :
    ∃ v, Writes (text.dropWhile isSpace) v := by
  unfold strtol at whole
  split at whole
  · exact absurd whole nonempty
  · next some =>
      have all : ∀ c ∈ unsignedPart (text.dropWhile isSpace), c.isDigit = true := List.dropWhile_eq_nil_iff.mp whole
      have digits : Digits (unsignedPart (text.dropWhile isSpace)) := by
        refine ⟨fun empty => some ?_, all⟩
        rw [digitRun, empty]
        rfl
      generalize text.dropWhile isSpace = body at digits
      unfold unsignedPart at digits
      split at digits
      · exact ⟨_, .plus _ digits⟩
      · exact ⟨_, .minus _ digits⟩
      · exact ⟨_, .plain _ digits⟩

theorem writes_unspaced (s : List Char) (v : Int) (writes : Writes s v) : s.dropWhile isSpace = s := by
  have inked := writes_not_spaces s v writes
  cases s with
  | nil => rfl
  | cons c s => exact List.dropWhile_cons_of_neg (by simp [inked c List.mem_cons_self])

theorem take_while_stop (p : Char → Bool) (s rest : List Char) (c : Char) (stop : p c = false) :
    (s ++ c :: rest).takeWhile p = s.takeWhile p := by
  induction s with
  | nil => exact List.takeWhile_cons_of_neg (by simp [stop])
  | cons d s ih =>
      rw [List.cons_append, List.takeWhile_cons, List.takeWhile_cons, ih]

theorem spelled_stop (text rest : List Char) (c : Char) (noDigit : c.isDigit = false) (noSpace : isSpace c = false)
    (noPlus : c ≠ '+') (noMinus : c ≠ '-') :
    digitRun (text ++ c :: rest) = digitRun text ∧ spelled (text ++ c :: rest) = spelled text := by
  have stopped : sign ((text ++ c :: rest).dropWhile isSpace) = sign (text.dropWhile isSpace) ∧
      digitRun (text ++ c :: rest) = digitRun text := by
    unfold digitRun
    induction text with
    | nil =>
        rw [List.nil_append, List.dropWhile_cons_of_neg (by simp [noSpace])]
        simp [sign, unsignedPart, noMinus, noPlus, noDigit]
    | cons d text ih =>
        rw [List.cons_append]
        by_cases space : isSpace d = true
        · rw [List.dropWhile_cons_of_pos space, List.dropWhile_cons_of_pos space]
          exact ih
        · rw [List.dropWhile_cons_of_neg space, List.dropWhile_cons_of_neg space]
          by_cases plus : d = '+'
          · subst plus
            exact ⟨rfl, take_while_stop Char.isDigit text rest c noDigit⟩
          · by_cases minus : d = '-'
            · subst minus
              exact ⟨rfl, take_while_stop Char.isDigit text rest c noDigit⟩
            · have own (s : List Char) : sign (d :: s) = false ∧ unsignedPart (d :: s) = d :: s := by
                simp [sign, unsignedPart, plus, minus]
              rw [(own _).1, (own _).1, (own _).2, (own _).2, ← List.cons_append]
              exact ⟨rfl, take_while_stop Char.isDigit (d :: text) rest c noDigit⟩
  rw [spelled, spelled, stopped.1, stopped.2]
  exact ⟨rfl, rfl⟩

theorem unsigned_part_length (s : List Char) : (unsignedPart s).length ≤ s.length := by
  unfold unsignedPart
  split <;> simp

theorem strtol_moves (text : List Char) (some : digitRun text ≠ []) : (strtol text).rest ≠ text := by
  intro same
  rw [strtol, if_neg some] at same
  have digits := List.length_pos_iff.mpr some
  have split := congrArg List.length
    (List.takeWhile_append_dropWhile (p := Char.isDigit) (l := unsignedPart (text.dropWhile isSpace)))
  have shorter := unsigned_part_length (text.dropWhile isSpace)
  have dropped := (List.dropWhile_sublist isSpace (l := text)).length_le
  have whole := congrArg List.length same
  rw [List.length_append, ← digitRun] at split
  dsimp only at whole
  omega

theorem saturate_int (v : Int) : InLong v ∧ intMin ≤ saturate v ∧ saturate v ≤ intMax ↔ intMin ≤ v ∧ v ≤ intMax := by
  unfold InLong saturate longMin longMax intMin intMax
  omega

theorem stoi_eq (text : List Char) :
    stoi text = if digitRun text ≠ [] ∧ intMin ≤ spelled text ∧ spelled text ≤ intMax then some (spelled text) else none := by
  by_cases empty : digitRun text = []
  · have unmoved : (strtol text).rest = text := by rw [strtol, if_pos empty]
    rw [stoi, if_pos unmoved, if_neg (by simp [empty])]
  · have range := saturate_int (spelled text)
    rw [stoi, if_neg (strtol_moves text empty), strtol, if_neg empty]
    simp only [decide_eq_false_iff_not]
    by_cases fits : intMin ≤ spelled text ∧ spelled text ≤ intMax
    · obtain ⟨long, low, high⟩ := range.mpr fits
      have accepted : ¬ (¬ InLong (spelled text) ∨ saturate (spelled text) < intMin ∨ intMax < saturate (spelled text)) := by
        rw [not_or, not_not]
        exact ⟨long, by omega⟩
      rw [if_neg accepted, if_pos ⟨empty, fits⟩, saturate_in_long _ long]
    · have refused : ¬ InLong (spelled text) ∨ saturate (spelled text) < intMin ∨ intMax < saturate (spelled text) := by
        by_cases long : InLong (spelled text)
        · right
          by_contra inside
          exact fits (range.mp ⟨long, by omega⟩)
        · exact .inl long
      rw [if_pos refused, if_neg (fun both => fits both.2)]

end CString
