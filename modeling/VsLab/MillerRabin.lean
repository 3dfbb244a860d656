import VsLab.Int512
import Mathlib.Data.Nat.Prime.Defs
import Mathlib.Tactic.NormNum.Prime
import Mathlib.Tactic.IntervalCases

set_option autoImplicit false

namespace VsLab

def smallPrimes : List Nat :=
  [3, 5, 7, 11, 13, 17, 19, 23, 29, 31, 37, 41, 43, 47, 53, 59, 61, 67, 71, 73, 79, 83, 89, 97, 101, 103, 107, 109,
    113, 127, 131, 137, 139, 149, 151, 157, 163, 167, 173, 179, 181, 191, 193, 197, 199, 211, 223, 227]

def isSmallPrime (n : Nat) : Bool := smallPrimes.contains n

-- Each block is the product pp of its primes with the primes themselves: n is
-- reduced modulo pp once, in 32 bits, and the remainder is tried by each prime.
def smallFactors : List (Nat × List Nat) :=
  [(223092870, [3, 5, 7, 11, 13, 17, 19, 23]),
    (2756205443, [29, 31, 37, 41, 43, 47]),
    (907383479, [53, 59, 61, 67, 71]),
    (4132280413, [73, 79, 83, 89, 97]),
    (121330189, [101, 103, 107, 109]),
    (113 * 127 * 131 * 137, [113, 127, 131, 137]),
    (139 * 149 * 151 * 157, [139, 149, 151, 157]),
    (163 * 167 * 173 * 179, [163, 167, 173, 179]),
    (181 * 191 * 193 * 197, [181, 191, 193, 197]),
    (199 * 211 * 223 * 227, [199, 211, 223, 227])]

def checkSmallFactors (n : Nat) : Bool :=
  smallFactors.all fun (product, primes) => primes.all fun prime => n % product % prime != 0

def powmLoop (x y b c : Nat) : Nat :=
  if b = 0 then x % c
  else powmLoop (if b % 2 = 1 then x * y % c else x) (y * y % c) (b / 2) c
termination_by b
decreasing_by omega

def powm (a p c : Nat) : Nat := powmLoop 1 a p c

def lsb (q : Nat) : Nat :=
  if q = 0 ∨ q % 2 = 1 then 0 else lsb (q / 2) + 1
termination_by q
decreasing_by omega

def trialPasses (n : Nat) : Nat → Nat → Nat → Bool
  | 0, _, _ => false
  | left + 1, j, y =>
      if y = n - 1 then true
      else if y = 1 then decide (j = 0)
      else trialPasses n left (j + 1) (powm y 2 n)

-- bases stands for the engine: trial i draws 2 + bases i mod (n - 3), any value
-- of the distribution over [2, n - 2].
def millerRabinTest (bases : Nat → Nat) (n trials : Nat) : Bool :=
  if n % 2 = 0 then false
  else if n ≤ 227 then isSmallPrime n
  else if !checkSmallFactors n then false
  else if powm 228 (n - 1) n ≠ 1 then false
  else
    let k := lsb (n - 1)
    let q := (n - 1) / 2 ^ k
    (List.range trials).all fun i => trialPasses n k 0 (powm (2 + bases i % (n - 3)) q n)

-- The argument is always a gcd, so it is never negative.
def isProbablePrime (bases : Nat → Nat) (value : Int512) : Bool := millerRabinTest bases value.val.toNat 25

theorem probable_prime_odd (bases : Nat → Nat) (value : Int512) (passed : isProbablePrime bases value = true) :
    value.val.toNat % 2 = 1 := by
  by_cases even : value.val.toNat % 2 = 0
  · simp [isProbablePrime, millerRabinTest, even] at passed
  · omega

end VsLab
