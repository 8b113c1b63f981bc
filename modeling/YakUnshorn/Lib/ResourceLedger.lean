import Mathlib.Data.List.Count

/-!
What a program acquires and releases, in the order in which it does, and when such a
ledger is in order: nothing is leaked, nothing is released twice, and what is handed
out is not released.
-/

namespace ResourceLedger

inductive Use (Resource : Type*)
  | acquire (resource : Resource)
  | release (resource : Resource)
  deriving Repr, DecidableEq

variable {Resource : Type*} [DecidableEq Resource]

/-- If the resource is acquired, it is released once, or never if it is kept. -/
def SettledAt (kept : Resource → Prop) (uses : List (Use Resource)) (resource : Resource) : Prop :=
  .acquire resource ∈ uses →
    (kept resource → .release resource ∉ uses) ∧
      (¬kept resource → uses.count (.release resource) = 1)

def Settled (kept : Resource → Prop) (uses : List (Use Resource)) : Prop :=
  ∀ resource, SettledAt kept uses resource

section

variable {kept : Resource → Prop} {uses : List (Use Resource)} {resource : Resource}

theorem settledAt_of_unused (unused : .acquire resource ∉ uses) : SettledAt kept uses resource :=
  fun acquired => absurd acquired unused

theorem settledAt_given_iff (acquired : .acquire resource ∈ uses) (gives : ¬kept resource) :
    SettledAt kept uses resource ↔ uses.count (.release resource) = 1 := by
  constructor
  · exact fun settled => (settled acquired).2 gives
  · exact fun once _ => ⟨fun keeps => absurd keeps gives, fun _ => once⟩

theorem not_settledAt_of_leak (acquired : .acquire resource ∈ uses) (gives : ¬kept resource)
    (leaked : .release resource ∉ uses) : ¬SettledAt kept uses resource := by
  rw [settledAt_given_iff acquired gives, List.count_eq_zero.mpr leaked]
  omega

end

@[simp] theorem count_release_acquires {Index : Type*} (resources : List Index)
    (name : Index → Resource) (resource : Resource) :
    (resources.map fun index => Use.acquire (name index)).count (.release resource) = 0 := by
  simp [List.count_eq_zero]

end ResourceLedger
