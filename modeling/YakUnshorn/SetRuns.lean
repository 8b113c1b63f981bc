import YakUnshorn.EventTypes
import YakUnshorn.Lib.CappedSet

/-!
Runs of `prefix_add` and `prefix_remove` against the mathematical set of what the
elements stand for, which `prefix_eq` compares.
-/

namespace YakUnshorn

namespace FixedSet

open CappedSet

variable {T Key : Type} {capacity : Nat}

def setStep (eq : T → T → Bool) (set : FixedSet T capacity) : SetOp T → FixedSet T capacity
  | .insert item => (add eq set item).1
  | .delete item => (remove eq set item).1

def Keyed (eq : T → T → Bool) (key : T → Key) : Prop := ∀ a b, eq a b = true ↔ key a = key b

theorem Keyed.equivalence {eq : T → T → Bool} {key : T → Key} (keyed : Keyed eq key) :
    Equivalence fun a b => eq a b = true where
  refl a := (keyed a a).mpr rfl
  symm same := (keyed _ _).mpr ((keyed _ _).mp same).symm
  trans first second :=
    (keyed _ _).mpr (((keyed _ _).mp first).trans ((keyed _ _).mp second))

structure Refines (eq : T → T → Bool) (key : T → Key) (set : FixedSet T capacity)
    (members : Finset Key) : Prop where
  distinct : Distinct eq set
  member : ∀ item, Member eq set item ↔ key item ∈ members
  counted : set.count = members.card

structure Answers (eq : T → T → Bool) (key : T → Key) (set : FixedSet T capacity)
    (members : Finset Key) : Prop where
  refused : ∀ item, (add eq set item).2 = none ↔ key item ∉ members ∧ members.card = capacity
  added : ∀ item slot, (add eq set item).2 = some slot →
    slot.val < (add eq set item).1.count ∧ eq ((add eq set item).1.items slot) item = true
  kept : ∀ item (i : Fin capacity), i.val < set.count →
    (add eq set item).1.items i = set.items i
  removed : ∀ item, (remove eq set item).2 = true ↔ key item ∈ members
  indexed : ∀ item, (index eq set item).isSome = true ↔ key item ∈ members
  available : set.avail = (capacity : Int) - members.card

theorem Keyed.added_slot {eq : T → T → Bool} {key : T → Key} (keyed : Keyed eq key)
    {set : FixedSet T capacity} {item : T} {slot : Fin capacity}
    (given : (add eq set item).2 = some slot) :
    slot.val < (add eq set item).1.count ∧ eq ((add eq set item).1.items slot) item = true := by
  rcases add_cases eq set item with ⟨i, search⟩ | ⟨search, room⟩ | ⟨search, full⟩
  · rw [add_present search] at given ⊢
    have same : i = slot := Option.some.inj given
    subst same
    exact ⟨(index_some search).1, (index_some search).2.1⟩
  · rw [add_new search room] at given ⊢
    have same : ⟨set.count, room⟩ = slot := Option.some.inj given
    subst same
    refine ⟨Nat.lt_succ_self _, ?_⟩
    simp only [Function.update_self]
    exact keyed.equivalence.refl item
  · rw [add_full search full] at given
    simp at given

theorem refines_zeroed (capacity : Nat) (eq : T → T → Bool) (key : T → Key) (zero : T) :
    Refines eq key (zeroed capacity zero) ∅ where
  distinct := distinct_zeroed eq zero
  member item := by simp [Member, zeroed]
  counted := rfl

namespace Refines

variable {eq : T → T → Bool} {key : T → Key} {set : FixedSet T capacity} {members : Finset Key}

theorem index_none_iff (refines : Refines eq key set members) (item : T) :
    index eq set item = none ↔ key item ∉ members := by
  rw [index_none_iff_not_member, refines.member]

theorem index_some_iff (refines : Refines eq key set members) (item : T) :
    (∃ i, index eq set item = some i) ↔ key item ∈ members := by
  rw [← not_iff_not, ← refines.index_none_iff, Option.eq_none_iff_forall_ne_some]
  simp

theorem add [DecidableEq Key] (refines : Refines eq key set members) (keyed : Keyed eq key)
    (item : T) :
    Refines eq key (add eq set item).1 (insertWithin capacity members (key item)) := by
  rcases add_cases eq set item with ⟨i, found⟩ | ⟨absent, room⟩ | ⟨absent, full⟩
  · have member : key item ∈ members := (refines.index_some_iff item).mp ⟨i, found⟩
    rw [add_present found, insertWithin_mem member]
    exact refines
  · have missing := (refines.index_none_iff item).mp absent
    rw [insertWithin_room (refines.counted ▸ room)]
    refine ⟨distinct_add keyed.equivalence refines.distinct absent room, ?_, ?_⟩
    · intro query
      rw [member_add absent room, refines.member, keyed item query, Finset.mem_insert, or_comm,
        eq_comm]
    · rw [add_new absent room, Finset.card_insert_of_notMem missing, ← refines.counted]
  · rw [add_full absent full, insertWithin_full (by rw [← refines.counted, full])]
    exact refines

theorem remove [DecidableEq Key] (refines : Refines eq key set members) (keyed : Keyed eq key)
    (item : T) : Refines eq key (remove eq set item).1 (members.erase (key item)) where
  distinct := distinct_remove refines.distinct
  member query := by
    rw [member_remove keyed.equivalence refines.distinct, refines.member, keyed item query,
      Finset.mem_erase, and_comm, eq_comm]
  counted := by
    by_cases member : key item ∈ members
    · obtain ⟨i, found⟩ := (refines.index_some_iff item).mpr member
      rw [remove_count found, Finset.card_erase_of_mem member, refines.counted]
    · have absent := (refines.index_none_iff item).mpr member
      rw [Finset.erase_eq_of_notMem member, ← refines.counted]
      simp [FixedSet.remove, absent]

theorem run [DecidableEq Key] (refines : Refines eq key set members) (keyed : Keyed eq key)
    (ops : List (SetOp T)) :
    Refines eq key (ops.foldl (setStep eq) set)
      ((ops.map (SetOp.map key)).foldl (applyWithin capacity) members) := by
  induction ops generalizing set members with
  | nil => exact refines
  | cons op rest ih =>
      cases op with
      | insert item => exact ih (refines.add keyed item)
      | delete item => exact ih (refines.remove keyed item)

theorem refused_iff (refines : Refines eq key set members) (item : T) :
    (FixedSet.add eq set item).2 = none ↔ key item ∉ members ∧ members.card = capacity := by
  rw [← refines.counted, ← refines.index_none_iff]
  rcases add_cases eq set item with ⟨i, found⟩ | ⟨absent, room⟩ | ⟨absent, full⟩
  · simp [add_present found, found]
  · simp [add_new absent room, Nat.ne_of_lt room]
  · simp [add_full absent full, absent, full]

theorem answers (refines : Refines eq key set members) (keyed : Keyed eq key) :
    Answers eq key set members where
  refused := refines.refused_iff
  added _ _ given := keyed.added_slot given
  kept item _ inUse := add_items eq set item inUse
  removed item := by
    by_cases member : key item ∈ members
    · obtain ⟨i, found⟩ := (refines.index_some_iff item).mpr member
      simp [remove_found found, member]
    · have absent := (refines.index_none_iff item).mpr member
      simp [FixedSet.remove, absent, member]
  indexed item := by
    rw [Option.isSome_iff_ne_none, ne_eq, refines.index_none_iff, not_not]
  available := by rw [avail, refines.counted]

end Refines

end FixedSet

section Classes

open CappedSet

variable {T : Type} {eq : T → T → Bool}

/-- An element up to `prefix_eq`. -/
abbrev Class (laws : Equivalence fun a b => eq a b = true) :=
  Quotient (Setoid.mk (fun a b => eq a b = true) laws)

def classOf (laws : Equivalence fun a b => eq a b = true) (item : T) : Class laws :=
  Quotient.mk _ item

instance (laws : Equivalence fun a b => eq a b = true) : DecidableEq (Class laws) :=
  let _ : Setoid T := Setoid.mk _ laws
  have (a b : T) : Decidable (a ≈ b) := inferInstanceAs (Decidable (eq a b = true))
  Quotient.decidableEq

theorem keyed_classOf (laws : Equivalence fun a b => eq a b = true) :
    FixedSet.Keyed eq (classOf laws) := by
  intro a b
  exact (Quotient.eq (r := Setoid.mk _ laws)).symm

/-- After any run of adds and removes on a zeroed set, the set holds each member of the capped
mathematical set once, up to `prefix_eq`, and its operations answer accordingly. -/
theorem fixedSet_refines (laws : Equivalence fun a b => eq a b = true) (capacity : Nat) (zero : T)
    (ops : List (SetOp T)) :
    let set := ops.foldl (FixedSet.setStep eq) (FixedSet.zeroed capacity zero)
    let members := (ops.map (SetOp.map (classOf laws))).foldl (applyWithin capacity) ∅
    set.count ≤ capacity ∧ set.Refines eq (classOf laws) members ∧
      set.Answers eq (classOf laws) members := by
  have refines := (FixedSet.refines_zeroed capacity eq (classOf laws) zero).run
    (keyed_classOf laws) ops
  exact ⟨FixedSet.countBound _, refines, refines.answers (keyed_classOf laws)⟩

end Classes

section Subscriptions

open CappedSet

theorem fixedSet_refines_subscriptions :
    let classOfSub := classOf oxSubEq_equivalence
    let ops : List (SetOp OxSubscription) :=
      [.insert ⟨11, 0x10, 0, none⟩, .insert ⟨11, 0x20, 7, none⟩, .insert ⟨12, 0x30, 0, none⟩,
        .delete ⟨11, 0, 0, none⟩]
    let set := ops.foldl (FixedSet.setStep oxSubEq) (FixedSet.zeroed subMax ⟨0, 0, 0, none⟩)
    let members := (ops.map (SetOp.map classOfSub)).foldl (applyWithin subMax) ∅
    set.count ≤ subMax ∧ set.Refines oxSubEq classOfSub members ∧
      set.Answers oxSubEq classOfSub members :=
  fixedSet_refines oxSubEq_equivalence subMax _ _

example :
    let set := [SetOp.insert 5, .insert 6, .insert 7, .delete 5].foldl
      (FixedSet.setStep fun a b : Nat => a == b) (FixedSet.zeroed 2 0)
    set.count = 1 ∧ set.items 0 = 6 := by decide

end Subscriptions

end YakUnshorn
