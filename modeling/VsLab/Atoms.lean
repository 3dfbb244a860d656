import Mathlib.Data.List.Induction
import Mathlib.Tactic.IntervalCases

set_option autoImplicit false

namespace VsLab

def encodingTable : List Nat :=
  [0, 0, 0, 0, 0, 0, 0, 0, 0, 0, 0, 0, 0, 0, 0, 0,
   0, 0, 0, 0, 0, 0, 0, 0, 0, 0, 0, 0, 0, 0, 0, 0,
   0, 0, 0, 0, 0, 0, 0, 0, 0, 0, 0, 0, 0, 0, 0, 0,
   1, 2, 3, 4, 5, 6, 7, 8, 9, 10, 0, 0, 0, 0, 0, 0,
   0, 11, 12, 13, 14, 15, 16, 17, 18, 19, 20, 21, 22, 23, 24, 25,
   26, 27, 28, 29, 30, 31, 32, 33, 34, 35, 36, 0, 0, 0, 0, 37,
   0, 38, 39, 40, 41, 42, 43, 44, 45, 46, 47, 48, 49, 50, 51, 52,
   53, 54, 55, 56, 57, 58, 59, 60, 61, 62, 63, 0, 0, 0, 0, 0]

def decodingTable : List Char := " 0123456789ABCDEFGHIJKLMNOPQRSTUVWXYZ_abcdefghijklmnopqrstuvwxyz".toList

def charCode (c : Char) : Nat := encodingTable.getD (if c.toNat ≤ 0x7F then c.toNat else 0) 0

-- uint64_t throughout: what is shifted out is lost.
def nextInterim (current : Nat) (c : Char) : Nat := (current <<< 6) % 2 ^ 64 ||| charCode c

def atomVal (name : List Char) (interim : Nat) : Nat := name.foldl nextInterim interim

def atom (name : List Char) : Nat := atomVal name 0xF

def atomGroup (x shift : Nat) : Nat := (x &&& (0x3F <<< shift)) >>> shift

def atomScan (x : Nat) : List Nat → Bool → List Char
  | [], _ => []
  | shift :: rest, true => decodingTable.getD (atomGroup x shift) ' ' :: atomScan x rest true
  | shift :: rest, false => atomScan x rest (atomGroup x shift == 0xF)

def atomText (x : Nat) : List Char :=
  atomScan x [54, 48, 42, 36, 30, 24, 18, 12, 6, 0] ((x &&& (0xF <<< 60)) >>> 60 == 0xF)

def shown (c : Char) : Char := if charCode c = 0 then ' ' else c

theorem char_code_lt (c : Char) : charCode c < 64 := by
  have all : ∀ k < 128, encodingTable.getD k 0 < 64 := by decide
  unfold charCode
  split
  · next low => exact all _ (by omega)
  · exact all 0 (by decide)

theorem char_shown (c : Char) : decodingTable.getD (charCode c) ' ' = shown c := by
  by_cases low : c.toNat ≤ 0x7F
  · have all : ∀ k < 128, decodingTable.getD (encodingTable.getD k 0) ' ' =
        if encodingTable.getD k 0 = 0 then ' ' else Char.ofNat k := by decide +kernel
    have here := all c.toNat (by omega)
    rw [Char.ofNat_toNat] at here
    rw [shown, charCode, if_pos low]
    exact here
  · rw [shown, charCode, if_neg low]
    rfl

theorem atom_group (x n : Nat) : atomGroup x (6 * n) = x / 64 ^ n % 64 := by
  have power : (2 : Nat) ^ (6 * n) = 64 ^ n := by rw [pow_mul]; rfl
  rw [atomGroup, Nat.shiftRight_and_distrib, Nat.shiftLeft_shiftRight, Nat.shiftRight_eq_div_pow, power]
  exact Nat.and_two_pow_sub_one_eq_mod (x / 64 ^ n) 6

def codes (x : Nat) : Nat → List Nat
  | 0 => []
  | n + 1 => x / 64 ^ n % 64 :: codes x n

theorem codes_snoc (x code n : Nat) (small : code < 64) : codes (x * 64 + code) (n + 1) = codes x n ++ [code] := by
  induction n with
  | zero =>
      have last : (x * 64 + code) / 64 ^ 0 % 64 = code := by omega
      change [(x * 64 + code) / 64 ^ 0 % 64] = [code]
      rw [last]
  | succ n ih =>
      have upper : (x * 64 + code) / 64 ^ (n + 1) = x / 64 ^ n := by
        rw [pow_succ', ← Nat.div_div_eq_div_mul]
        congr 1
        omega
      rw [codes, ih, upper]
      rfl

theorem interim_value (current : Nat) (c : Char) (room : current < 2 ^ 58) :
    nextInterim current c = current * 64 + charCode c := by
  have shifted : (current <<< 6) % 2 ^ 64 = current <<< 6 := by
    rw [Nat.shiftLeft_eq]
    exact Nat.mod_eq_of_lt (by omega)
  rw [nextInterim, shifted, ← Nat.shiftLeft_add_eq_or_of_lt (char_code_lt c), Nat.shiftLeft_eq]

theorem atom_val_codes (name : List Char) (start : Nat) (room : (start + 1) * 64 ^ name.length ≤ 2 ^ 64) :
    atomVal name start / 64 ^ name.length = start ∧ codes (atomVal name start) name.length = name.map charCode := by
  induction name using List.reverseRecOn with
  | nil => exact ⟨by simp [atomVal], rfl⟩
  | append_singleton name c ih =>
      rw [List.length_append, List.length_singleton, pow_succ, ← Nat.mul_assoc] at room
      have before : (start + 1) * 64 ^ name.length ≤ 2 ^ 58 := by omega
      obtain ⟨above, below⟩ := ih (by omega)
      have small : atomVal name start < 2 ^ 58 := by
        have positive : 0 < 64 ^ name.length := by positivity
        have bound := Nat.lt_mul_div_succ (atomVal name start) positive
        rw [above, Nat.mul_comm] at bound
        omega
      have value : atomVal (name ++ [c]) start = atomVal name start * 64 + charCode c := by
        rw [atomVal, List.foldl_append]
        exact interim_value _ c small
      have code := char_code_lt c
      rw [value, List.length_append, List.length_singleton, List.map_append]
      refine ⟨?_, ?_⟩
      · rw [pow_succ', ← Nat.div_div_eq_div_mul]
        have shifted : (atomVal name start * 64 + charCode c) / 64 = atomVal name start := by omega
        rw [shifted, above]
      · rw [codes_snoc _ _ _ code, below]
        rfl

def shifts (n : Nat) : List Nat := (List.range n).reverse.map (6 * ·)

theorem shifts_succ (n : Nat) : shifts (n + 1) = 6 * n :: shifts n := by
  rw [shifts, List.range_succ, List.reverse_append]
  rfl

theorem scan_reading (x n : Nat) : atomScan x (shifts n) true = (codes x n).map (decodingTable.getD · ' ') := by
  induction n with
  | zero => rfl
  | succ n ih => rw [shifts_succ, atomScan, ih, atom_group, codes, List.map_cons]

theorem scan_skips (x k n : Nat) (lead : x / 64 ^ k = 0xF) (above : k < n) :
    atomScan x (shifts n) false = (codes x k).map (decodingTable.getD · ' ') := by
  induction n with
  | zero => omega
  | succ n ih =>
      rw [shifts_succ, atomScan, atom_group]
      by_cases here : n = k
      · subst here
        rw [lead]
        exact scan_reading x n
      · have empty : x / 64 ^ n % 64 = 0 := by
          obtain ⟨more, same⟩ := Nat.exists_eq_add_of_lt (show k < n by omega)
          rw [same, Nat.add_assoc, pow_add, ← Nat.div_div_eq_div_mul, lead, pow_succ']
          have large : 0xF < 64 * 64 ^ more := by
            have positive : 0 < 64 ^ more := by positivity
            omega
          rw [Nat.div_eq_of_lt large]
        rw [empty]
        exact ih (by omega)

theorem atom_text (name : List Char) (short : name.length ≤ 10) : atomText (atom name) = name.map shown := by
  have room : (0xF + 1) * 64 ^ name.length ≤ 2 ^ 64 := by
    calc (0xF + 1) * 64 ^ name.length ≤ (0xF + 1) * 64 ^ 10 := by gcongr; decide
      _ = 2 ^ 64 := by decide
  obtain ⟨lead, below⟩ := atom_val_codes name 0xF room
  have top : (atom name &&& (0xF <<< 60)) >>> 60 = atom name / 64 ^ 10 % 16 := by
    rw [Nat.shiftRight_and_distrib, Nat.shiftLeft_shiftRight, Nat.shiftRight_eq_div_pow]
    exact Nat.and_two_pow_sub_one_eq_mod (atom name / 2 ^ 60) 4
  have result : (codes (atom name) name.length).map (decodingTable.getD · ' ') = name.map shown := by
    rw [atom, below, List.map_map]
    exact List.map_congr_left fun c _ => char_shown c
  change atomScan (atom name) (shifts 10) _ = _
  rw [top, ← result]
  by_cases full : name.length = 10
  · rw [full] at lead
    rw [full, atom, lead]
    exact scan_reading _ 10
  · have low : atom name / 64 ^ 10 % 16 = 0 := by
      obtain ⟨more, same⟩ := Nat.exists_eq_add_of_lt (show name.length < 10 by omega)
      rw [same, Nat.add_assoc, pow_add, ← Nat.div_div_eq_div_mul, atom, lead, pow_succ']
      have large : 0xF < 64 * 64 ^ more := by
        have positive : 0 < 64 ^ more := by positivity
        omega
      rw [Nat.div_eq_of_lt large]
    rw [low]
    exact scan_skips _ name.length 10 lead (by omega)

theorem code_shown (c : Char) : charCode (shown c) = charCode c := by
  unfold shown
  split
  · next none => rw [none]; decide
  · rfl

theorem atom_shown (name : List Char) : atom name = (name.map shown).foldl nextInterim 0xF := by
  have step (current : Nat) (c : Char) : nextInterim current (shown c) = nextInterim current c := by
    rw [nextInterim, nextInterim, code_shown]
  rw [atom, atomVal, List.foldl_map]
  simp only [step]

theorem atom_spelling (first second : List Char) (short : first.length ≤ 10) (brief : second.length ≤ 10) :
    atomText (atom first) = first.map shown ∧ (atom first = atom second ↔ first.map shown = second.map shown) := by
  refine ⟨atom_text first short, fun same => ?_, fun same => ?_⟩
  · rw [← atom_text first short, ← atom_text second brief, same]
  · rw [atom_shown, atom_shown, same]

theorem atom_spelling_calculate : atomText (atom "calculate".toList) = "calculate".toList ∧
    atom "k-workers".toList = atom "k.workers".toList := by
  refine ⟨?_, ?_⟩
  · rw [(atom_spelling "calculate".toList [] (by decide) (by decide)).1]
    decide
  · exact (atom_spelling "k-workers".toList "k.workers".toList (by decide) (by decide)).2.mpr (by decide)

end VsLab
