import Mathlib.Algebra.Ring.Int.Defs
import Mathlib.Algebra.Ring.Nat

/-!
What stops a C function from returning, and C's integer conversions and arithmetic
on a machine with 32 bit `int` and 64 bit `size_t`.
-/

namespace CMachine

inductive Fault
  | nullDereference
  | outOfBounds
  | assertionFailed
  | nonTermination
  | useAfterFree
  deriving Repr, DecidableEq

def toSizeT (value : Int) : Nat := (value % 2 ^ 64).toNat

/-- The conversion of a `size_t` to `int`, which wraps around. -/
def toInt (value : Nat) : Int := ((value : Int) + 2 ^ 31) % 2 ^ 32 - 2 ^ 31

/-- The result of `int` arithmetic, which is undefined on overflow. -/
def cInt (value : Int) : Option Int :=
  if -2 ^ 31 ≤ value ∧ value < 2 ^ 31 then some value else none

/-- A negative `int` wraps to the upper end of `size_t`. -/
theorem toSizeT_inj {first second : Int} (firstLower : -2 ^ 31 ≤ first)
    (firstUpper : first < 2 ^ 31) (secondLower : -2 ^ 31 ≤ second) (secondUpper : second < 2 ^ 31)
    (same : toSizeT first = toSizeT second) : first = second := by
  unfold toSizeT at same
  omega

theorem cInt_eq_some {value : Int} (lower : -2 ^ 31 ≤ value) (upper : value < 2 ^ 31) :
    cInt value = some value := by
  rw [cInt, if_pos ⟨lower, upper⟩]

theorem cInt_some {value result : Int} (defined : cInt value = some result) :
    result = value ∧ -2 ^ 31 ≤ value ∧ value < 2 ^ 31 := by
  simp only [cInt] at defined
  split at defined
  case isTrue within => exact ⟨(Option.some.inj defined).symm, within⟩
  case isFalse => simp at defined

theorem toNat_ofInt {value : Int} (lower : 0 ≤ value) (upper : value < 2 ^ 32) :
    (UInt32.ofInt value).toNat = value.toNat := by
  unfold UInt32.ofInt
  rw [UInt32.toNat_ofNat']
  omega

theorem ofInt_toInt32 (value : UInt32) : UInt32.ofInt value.toInt32.toInt = value := by
  apply UInt32.toNat_inj.mp
  have shape := value.toBitVec.toInt_eq_toNat_cond
  have bound := value.toNat_lt
  change value.toInt32.toInt = if 2 * value.toNat < 2 ^ 32 then (value.toNat : Int) else
    (value.toNat : Int) - (2 ^ 32 : Nat) at shape
  unfold UInt32.ofInt
  rw [UInt32.toNat_ofNat', shape]
  split <;> omega

theorem toInt32_of_small {value : UInt32} (small : value.toNat < 2 ^ 31) :
    value.toInt32.toInt = value.toNat := by
  change value.toBitVec.toInt = value.toBitVec.toNat
  apply BitVec.toInt_eq_toNat_of_lt
  change value.toBitVec.toNat < 2 ^ 31 at small
  omega

end CMachine
