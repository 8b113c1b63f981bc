import Mathlib.Data.Finset.Card

/-!
Finite sets that take in no new element once they are full, over histories of
inserts and deletes, and how far they fall behind sets without a limit.
-/

namespace CappedSet

inductive SetOp (Key : Type*)
  | insert (key : Key)
  | delete (key : Key)
  deriving Repr, DecidableEq

def SetOp.map {Key Class : Type*} (toClass : Key → Class) : SetOp Key → SetOp Class
  | .insert key => .insert (toClass key)
  | .delete key => .delete (toClass key)

variable {Key : Type*} [DecidableEq Key]

def insertWithin (capacity : Nat) (members : Finset Key) (key : Key) : Finset Key :=
  if members.card < capacity then insert key members else members

def apply (members : Finset Key) : SetOp Key → Finset Key
  | .insert key => insert key members
  | .delete key => members.erase key

def applyWithin (capacity : Nat) (members : Finset Key) : SetOp Key → Finset Key
  | .insert key => insertWithin capacity members key
  | .delete key => members.erase key

section Steps

variable {capacity : Nat} {members all : Finset Key} {key : Key}

theorem insertWithin_room (room : members.card < capacity) :
    insertWithin capacity members key = insert key members :=
  if_pos room

theorem insertWithin_full (full : capacity ≤ members.card) :
    insertWithin capacity members key = members :=
  if_neg (Nat.not_lt.mpr full)

theorem insertWithin_mem (member : key ∈ members) :
    insertWithin capacity members key = members := by
  rw [insertWithin, Finset.insert_eq_of_mem member, ite_self]

theorem insertWithin_subset (inside : members ⊆ all) :
    insertWithin capacity members key ⊆ insert key all := by
  rw [insertWithin]
  split
  · exact Finset.insert_subset_insert key inside
  · exact inside.trans (Finset.subset_insert key all)

theorem insertWithin_eq_insert (small : (insert key members).card ≤ capacity) :
    insertWithin capacity members key = insert key members := by
  by_cases member : key ∈ members
  · rw [insertWithin_mem member, Finset.insert_eq_of_mem member]
  · rw [Finset.card_insert_of_notMem member] at small
    exact insertWithin_room small

theorem applyWithin_subset (inside : members ⊆ all) (op : SetOp Key) :
    applyWithin capacity members op ⊆ apply all op := by
  cases op with
  | insert key => exact insertWithin_subset inside
  | delete key => exact Finset.erase_subset_erase key inside

theorem applyWithin_eq_apply {op : SetOp Key} (small : (apply members op).card ≤ capacity) :
    applyWithin capacity members op = apply members op := by
  cases op with
  | insert key => exact insertWithin_eq_insert small
  | delete key => rfl

end Steps

section Histories

variable (capacity : Nat)

/-- Whatever was turned away, a set with a limit holds nothing that a set without one does not. -/
theorem foldl_applyWithin_subset (ops : List (SetOp Key)) {members all : Finset Key}
    (inside : members ⊆ all) :
    ops.foldl (applyWithin capacity) members ⊆ ops.foldl apply all := by
  induction ops generalizing members all with
  | nil => exact inside
  | cons op rest ih => exact ih (applyWithin_subset inside op)

theorem foldl_applyWithin_eq (ops : List (SetOp Key)) (members : Finset Key)
    (small : ∀ front, front <+: ops → (front.foldl apply members).card ≤ capacity) :
    ops.foldl (applyWithin capacity) members = ops.foldl apply members := by
  induction ops generalizing members with
  | nil => rfl
  | cons op rest ih =>
      have first : (apply members op).card ≤ capacity := small [op] (by simp)
      rw [List.foldl_cons, List.foldl_cons, applyWithin_eq_apply first]
      apply ih
      intro front before
      exact small (op :: front) (List.cons_prefix_cons.mpr ⟨rfl, before⟩)

end Histories

end CappedSet
