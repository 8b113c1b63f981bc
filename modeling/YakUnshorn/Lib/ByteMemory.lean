import Mathlib.Data.Nat.ModEq
import Mathlib.Logic.Function.Basic

/-!
Memory as bytes, with loads and stores of little-endian numbers that are any number
of bytes wide.
-/

namespace ByteMemory

abbrev Memory := Nat → UInt8

def load (memory : Memory) (address : Nat) : Nat → Nat
  | 0 => 0
  | width + 1 => (memory address).toNat + 256 * load memory (address + 1) width

/-- Put a number into the `width` bytes from `address` on. What does not fit is lost. -/
def store (memory : Memory) (address : Nat) : Nat → Nat → Memory
  | 0, _ => memory
  | width + 1, value =>
      store (Function.update memory address (UInt8.ofNat value)) (address + 1) width (value / 256)

def Apart (first firstWidth second secondWidth : Nat) : Prop :=
  first + firstWidth ≤ second ∨ second + secondWidth ≤ first

theorem Apart.symm {first firstWidth second secondWidth : Nat}
    (apart : Apart first firstWidth second secondWidth) :
    Apart second secondWidth first firstWidth :=
  Or.symm apart

theorem store_of_outside {memory : Memory} {address width value query : Nat}
    (outside : query < address ∨ address + width ≤ query) :
    store memory address width value query = memory query := by
  induction width generalizing memory address value with
  | zero => rfl
  | succ width ih =>
      rw [store, ih (by omega), Function.update_of_ne (by omega)]

theorem load_congr {memory other : Memory} {address width : Nat}
    (agree : ∀ offset < width, other (address + offset) = memory (address + offset)) :
    load other address width = load memory address width := by
  induction width generalizing address with
  | zero => rfl
  | succ width ih =>
      have first := agree 0 (Nat.succ_pos width)
      rw [Nat.add_zero] at first
      rw [load, load, first, ih fun offset bound => ?_]
      rw [Nat.add_assoc, Nat.add_comm 1 offset]
      exact agree (offset + 1) (Nat.succ_lt_succ bound)

theorem load_store_apart {memory : Memory} {address width value query queryWidth : Nat}
    (apart : Apart query queryWidth address width) :
    load (store memory address width value) query queryWidth = load memory query queryWidth := by
  apply load_congr
  intro offset bound
  apply store_of_outside
  unfold Apart at apart
  omega

theorem load_store (memory : Memory) (address width value : Nat) :
    load (store memory address width value) address width = value % 256 ^ width := by
  induction width generalizing memory address value with
  | zero => simp [load, Nat.mod_one]
  | succ width ih =>
      have low : (store memory address (width + 1) value) address = UInt8.ofNat value := by
        rw [store, store_of_outside (Or.inl (Nat.lt_succ_self _)), Function.update_self]
      rw [load, low, store, ih, Nat.pow_succ', Nat.mod_mul, UInt8.toNat_ofNat']

theorem load_store_of_lt {memory : Memory} {address width value : Nat}
    (fits : value < 256 ^ width) :
    load (store memory address width value) address width = value := by
  rw [load_store, Nat.mod_eq_of_lt fits]

theorem load_lt (memory : Memory) (address width : Nat) :
    load memory address width < 256 ^ width := by
  induction width generalizing address with
  | zero => simp [load]
  | succ width ih =>
      have byte := (memory address).toNat_lt
      have rest := ih (address + 1)
      rw [load, Nat.pow_succ']
      omega

/-- The memories differ in bytes of the regions only. -/
def Touches (regions : List (Nat × Nat)) (memory other : Memory) : Prop :=
  ∀ address, (∀ region ∈ regions, address < region.1 ∨ region.1 + region.2 ≤ address) →
    other address = memory address

section Footprints

variable {regions : List (Nat × Nat)} {memory middle other : Memory}

theorem Touches.refl (regions : List (Nat × Nat)) (memory : Memory) :
    Touches regions memory memory :=
  fun _ _ => rfl

theorem Touches.trans (first : Touches regions memory middle)
    (second : Touches regions middle other) : Touches regions memory other :=
  fun address outside => (second address outside).trans (first address outside)

theorem touches_store {region : Nat × Nat} (member : region ∈ regions) {address width : Nat}
    (lower : region.1 ≤ address) (upper : address + width ≤ region.1 + region.2) (value : Nat) :
    Touches regions memory (store memory address width value) := by
  intro query outside
  have beyond := outside region member
  apply store_of_outside
  omega

theorem touches_update {region : Nat × Nat} (member : region ∈ regions) {address : Nat}
    (lower : region.1 ≤ address) (upper : address < region.1 + region.2) (byte : UInt8) :
    Touches regions memory (Function.update memory address byte) := by
  intro query outside
  have beyond := outside region member
  apply Function.update_of_ne
  omega

theorem Touches.spares (touches : Touches regions memory other) {address width : Nat}
    (apart : ∀ region ∈ regions, Apart region.1 region.2 address width) :
    ∀ offset < width, other (address + offset) = memory (address + offset) := by
  intro offset bound
  apply touches
  intro region member
  have beside := apart region member
  unfold Apart at beside
  omega

end Footprints

end ByteMemory
