import Mathlib.Data.Int.Basic
import Mathlib.Data.Nat.Basic
import Mathlib.Tactic.Positivity

set_option autoImplicit false

namespace VsLab

def modulus : Nat := 2 ^ 512

theorem modulus_pos : 0 < modulus := by
  unfold modulus
  positivity

theorem one_lt_modulus : 1 < modulus := by
  unfold modulus
  exact one_lt_pow₀ (by decide) (by decide)

-- int512_t is an unchecked signed-magnitude cpp_int: every result keeps its sign
-- and the low 512 bits of its magnitude, and zero is always unsigned.
structure Int512 where
  val : Int
  fits : val.natAbs < modulus
deriving DecidableEq

namespace Int512

theorem ext_val (a b : Int512) (same : a.val = b.val) : a = b := by
  cases a
  cases b
  simpa using same

def wrap (z : Int) : Int512 :=
  ⟨z.tmod modulus, by
    rw [Int.natAbs_tmod]
    exact Nat.mod_lt _ (by rw [Int.natAbs_natCast]; exact modulus_pos)⟩

instance : OfNat Int512 0 := ⟨⟨0, modulus_pos⟩⟩
instance : OfNat Int512 1 := ⟨⟨1, one_lt_modulus⟩⟩
instance : Inhabited Int512 := ⟨0⟩
instance : Add Int512 := ⟨fun a b => wrap (a.val + b.val)⟩
instance : Sub Int512 := ⟨fun a b => wrap (a.val - b.val)⟩
instance : Mul Int512 := ⟨fun a b => wrap (a.val * b.val)⟩
instance : Neg Int512 := ⟨fun a => ⟨-a.val, by rw [Int.natAbs_neg]; exact a.fits⟩⟩
instance : LT Int512 := ⟨fun a b => a.val < b.val⟩
instance : LE Int512 := ⟨fun a b => a.val ≤ b.val⟩
instance (a b : Int512) : Decidable (a < b) := inferInstanceAs (Decidable (a.val < b.val))
instance (a b : Int512) : Decidable (a ≤ b) := inferInstanceAs (Decidable (a.val ≤ b.val))

def pow (a : Int512) : Nat → Int512
  | 0 => 1
  | exponent + 1 => pow a exponent * a

def ofNat (n : Nat) : Int512 := wrap n

@[simp] theorem val_zero : (0 : Int512).val = 0 := rfl
@[simp] theorem val_one : (1 : Int512).val = 1 := rfl
@[simp] theorem val_neg (a : Int512) : (-a).val = -a.val := rfl

theorem eq_def (a b : Int512) : a = b ↔ a.val = b.val := ⟨congrArg val, ext_val a b⟩

theorem val_wrap (z : Int) : (wrap z).val = z.tmod modulus := rfl

theorem val_wrap_small (z : Int) (small : z.natAbs < modulus) : (wrap z).val = z := by
  rcases Int.natAbs_eq z with nonneg | negative
  · rw [val_wrap, nonneg]
    exact Int.tmod_eq_of_lt (by omega) (by omega)
  · rw [val_wrap, negative, Int.neg_tmod]
    rw [Int.tmod_eq_of_lt (by omega) (by omega)]

theorem val_wrap_nonneg (z : Int) (nonneg : 0 ≤ z) : 0 ≤ (wrap z).val := Int.tmod_nonneg _ nonneg

theorem val_add (a b : Int512) (small : (a.val + b.val).natAbs < modulus) : (a + b).val = a.val + b.val :=
  val_wrap_small _ small

end Int512

end VsLab
