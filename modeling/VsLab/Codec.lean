import Mathlib.Data.List.Basic
import Mathlib.Tactic.Ring

set_option autoImplicit false

namespace Codec

abbrev Bytes := List UInt8

def field : Nat → Nat → Bytes
  | 0, _ => []
  | width + 1, value => UInt8.ofNat value :: field width (value / 256)

def value : Bytes → Nat
  | [] => 0
  | byte :: rest => byte.toNat + 256 * value rest

@[simp] theorem field_length (width v : Nat) : (field width v).length = width := by
  induction width generalizing v with
  | zero => rfl
  | succ width ih => rw [field, List.length_cons, ih]

theorem value_field (width v : Nat) : value (field width v) = v % 256 ^ width := by
  induction width generalizing v with
  | zero => rw [field, value, pow_zero, Nat.mod_one]
  | succ width ih =>
      have byte : (UInt8.ofNat v).toNat = v % 256 := UInt8.toNat_ofNat'
      rw [field, value, ih, byte, pow_succ', Nat.mod_mul]

abbrev Reader (X : Type) := StateT Bytes Option X

def raw (size : Nat) : Reader Bytes := fun source =>
  if source.length < size then none else some (source.take size, source.drop size)

def number (width : Nat) : Reader Nat := value <$> raw width

def Reads {X : Type} (read : Reader X) (bytes : Bytes) (x : X) : Prop := ∀ rest, read (bytes ++ rest) = some (x, rest)

section Reads

variable {X Y : Type}

theorem reads_pure (x : X) : Reads (pure x) [] x := fun _ => rfl

theorem reads_bind (read : Reader X) (next : X → Reader Y) (bytes more : Bytes) (x : X) (y : Y)
    (first : Reads read bytes x) (second : Reads (next x) more y) : Reads (read >>= next) (bytes ++ more) y := by
  intro rest
  change (read (bytes ++ more ++ rest)).bind (fun result => next result.1 result.2) = _
  rw [List.append_assoc, first (more ++ rest)]
  exact second rest

theorem reads_map (read : Reader X) (f : X → Y) (bytes : Bytes) (x : X) (reads : Reads read bytes x) :
    Reads (f <$> read) bytes (f x) := by
  intro rest
  change (read (bytes ++ rest)).bind (fun result => some (f result.1, result.2)) = _
  rw [reads rest]
  rfl

theorem reads_raw (bytes : Bytes) : Reads (raw bytes.length) bytes bytes := by
  intro rest
  have enough : ¬ (bytes ++ rest).length < bytes.length := by simp
  rw [raw, if_neg enough, List.take_left, List.drop_left]

theorem reads_number (width v : Nat) (fits : v < 256 ^ width) : Reads (number width) (field width v) v := by
  have whole := reads_map (raw width) value (field width v) (field width v)
  rw [value_field, Nat.mod_eq_of_lt fits] at whole
  refine whole ?_
  have exact := reads_raw (field width v)
  rwa [field_length] at exact

theorem reads_each {K : Type} (kindOf : X → K) (read : K → Reader X) (write : X → Bytes) (xs : List X)
    (each : ∀ x ∈ xs, Reads (read (kindOf x)) (write x) x) :
    Reads ((xs.map kindOf).mapM read) (xs.flatMap write) xs := by
  induction xs with
  | nil => exact reads_pure []
  | cons x xs ih =>
      rw [List.map_cons, List.mapM_cons, List.flatMap_cons]
      refine reads_bind _ _ _ _ x (x :: xs) (each x (by simp)) ?_
      rw [← List.append_nil (xs.flatMap write)]
      refine reads_bind _ _ _ _ xs (x :: xs) (ih fun y member => each y (List.mem_cons_of_mem x member)) ?_
      exact reads_pure (x :: xs)

end Reads

end Codec
