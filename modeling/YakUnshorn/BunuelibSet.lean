import Mathlib.Data.List.FinRange
import Mathlib.Data.List.NodupEquivFin
import Mathlib.Data.List.Perm.Subperm

/-!
The capped set that `BUNUEL_FIXED_SET(prefix, T, capacity)` of `bunuelib.h` expands
to, for any element type, capacity and `prefix_eq`.
-/

namespace YakUnshorn

/-- `T##Set`: an array of `capacity` elements, the first `count` of them in use. -/
structure FixedSet (T : Type) (capacity : Nat) where
  items : Fin capacity → T
  count : Nat
  countBound : count ≤ capacity

namespace FixedSet

variable {T : Type} {capacity : Nat}

def zeroed (capacity : Nat) (zero : T) : FixedSet T capacity where
  items := fun _ => zero
  count := 0
  countBound := Nat.zero_le capacity

def indexFrom (eq : T → T → Bool) (set : FixedSet T capacity) (item : T) :
    Nat → Nat → Option (Fin capacity)
  | 0, _ => none
  | fuel + 1, i =>
      if bound : i < set.count then
        let slot : Fin capacity := ⟨i, Nat.lt_of_lt_of_le bound set.countBound⟩
        if eq (set.items slot) item then some slot else indexFrom eq set item fuel (i + 1)
      else none

/-- `prefix##_index`, with `none` for the -1 of the source. -/
def index (eq : T → T → Bool) (set : FixedSet T capacity) (item : T) : Option (Fin capacity) :=
  indexFrom eq set item set.count 0

/-- `prefix##_add`: the set afterwards and the element it returns a pointer to. -/
def add (eq : T → T → Bool) (set : FixedSet T capacity) (item : T) :
    FixedSet T capacity × Option (Fin capacity) :=
  match index eq set item with
  | some i => (set, some i)
  | none =>
      if room : set.count < capacity then
        ({ items := Function.update set.items ⟨set.count, room⟩ item
           count := set.count + 1
           countBound := room }, some ⟨set.count, room⟩)
      else (set, none)

/-- The last element in use, where `i` shows that there is room for one. -/
def lastSlot (set : FixedSet T capacity) (i : Fin capacity) : Fin capacity :=
  ⟨set.count - 1, by have := i.isLt; have := set.countBound; omega⟩

def remove (eq : T → T → Bool) (set : FixedSet T capacity) (item : T) :
    FixedSet T capacity × Bool :=
  match index eq set item with
  | none => (set, false)
  | some i =>
      ({ items := Function.update set.items i (set.items (set.lastSlot i))
         count := set.count - 1
         countBound := Nat.le_trans (Nat.sub_le _ _) set.countBound }, true)

def avail (set : FixedSet T capacity) : Int := (capacity : Int) - set.count

theorem avail_nonneg (set : FixedSet T capacity) : 0 ≤ set.avail := by
  have := set.countBound
  unfold avail
  omega

theorem indexFrom_some (eq : T → T → Bool) (set : FixedSet T capacity) (item : T)
    (found : Fin capacity) (fuel i : Nat)
    (search : indexFrom eq set item fuel i = some found) :
    i ≤ found.val ∧ found.val < set.count ∧ eq (set.items found) item = true ∧
      ∀ j : Fin capacity, i ≤ j.val → j < found → eq (set.items j) item = false := by
  induction fuel generalizing i with
  | zero => simp [indexFrom] at search
  | succ fuel ih =>
      simp only [indexFrom] at search
      split at search
      case isTrue bound =>
        split at search
        case isTrue same =>
          simp only [Option.some.injEq] at search
          subst search
          refine ⟨Nat.le_refl _, bound, same, ?_⟩
          intro j lower upper
          exact absurd (Fin.lt_def.mp upper) (by simpa using lower)
        case isFalse different =>
          obtain ⟨lower, inUse, same, earlier⟩ := ih (i + 1) search
          refine ⟨by omega, inUse, same, ?_⟩
          intro j jLower jUpper
          by_cases first : j.val = i
          · have here : j = ⟨i, Nat.lt_of_lt_of_le bound set.countBound⟩ := Fin.ext first
            simpa [here] using different
          · exact earlier j (by omega) jUpper
      case isFalse => simp at search

theorem indexFrom_none (eq : T → T → Bool) (set : FixedSet T capacity) (item : T)
    (fuel i : Nat) (search : indexFrom eq set item fuel i = none)
    (enough : set.count ≤ i + fuel) (j : Fin capacity) (lower : i ≤ j.val)
    (inUse : j.val < set.count) : eq (set.items j) item = false := by
  induction fuel generalizing i with
  | zero => omega
  | succ fuel ih =>
      simp only [indexFrom] at search
      split at search
      case isTrue bound =>
        split at search
        case isTrue => simp at search
        case isFalse different =>
          by_cases first : j.val = i
          · have here : j = ⟨i, Nat.lt_of_lt_of_le bound set.countBound⟩ := Fin.ext first
            simpa [here] using different
          · exact ih (i + 1) search (by omega) (by omega)
      case isFalse outside => omega

theorem index_some {eq : T → T → Bool} {set : FixedSet T capacity} {item : T}
    {found : Fin capacity} (search : index eq set item = some found) :
    found.val < set.count ∧ eq (set.items found) item = true ∧
      ∀ j < found, eq (set.items j) item = false := by
  obtain ⟨_, inUse, same, earlier⟩ := indexFrom_some eq set item found _ _ search
  exact ⟨inUse, same, fun j before => earlier j (Nat.zero_le _) before⟩

theorem index_none {eq : T → T → Bool} {set : FixedSet T capacity} {item : T}
    (search : index eq set item = none) (j : Fin capacity) (inUse : j.val < set.count) :
    eq (set.items j) item = false :=
  indexFrom_none eq set item _ _ search (by omega) j (Nat.zero_le _) inUse

theorem index_eq_none_iff (eq : T → T → Bool) (set : FixedSet T capacity) (item : T) :
    index eq set item = none ↔
      ∀ j : Fin capacity, j.val < set.count → eq (set.items j) item = false := by
  constructor
  · intro search j inUse
    exact index_none search j inUse
  · intro absent
    cases search : index eq set item with
    | none => rfl
    | some found =>
        obtain ⟨inUse, same, _⟩ := index_some search
        rw [absent found inUse] at same
        simp at same

theorem index_congr {eq : T → T → Bool} (set : FixedSet T capacity) {first second : T}
    (alike : ∀ item, eq item first = eq item second) :
    index eq set first = index eq set second := by
  have search (fuel i : Nat) : indexFrom eq set first fuel i = indexFrom eq set second fuel i := by
    induction fuel generalizing i with
    | zero => rfl
    | succ fuel ih => simp only [indexFrom, alike, ih]
  exact search _ _

theorem add_present {eq : T → T → Bool} {set : FixedSet T capacity} {item : T}
    {i : Fin capacity} (found : index eq set item = some i) : add eq set item = (set, some i) := by
  simp only [add, found]

theorem add_new {eq : T → T → Bool} {set : FixedSet T capacity} {item : T}
    (absent : index eq set item = none) (room : set.count < capacity) :
    add eq set item =
      ({ items := Function.update set.items ⟨set.count, room⟩ item
         count := set.count + 1
         countBound := room }, some ⟨set.count, room⟩) := by
  simp only [add, absent, room, ↓reduceDIte]

theorem add_full {eq : T → T → Bool} {set : FixedSet T capacity} {item : T}
    (absent : index eq set item = none) (full : set.count = capacity) :
    add eq set item = (set, none) := by
  have noRoom : ¬set.count < capacity := by omega
  simp only [add, absent, noRoom, ↓reduceDIte]

theorem add_cases (eq : T → T → Bool) (set : FixedSet T capacity) (item : T) :
    (∃ i, index eq set item = some i) ∨
      (index eq set item = none ∧ set.count < capacity) ∨
      (index eq set item = none ∧ set.count = capacity) := by
  cases search : index eq set item with
  | some i => exact .inl ⟨i, rfl⟩
  | none =>
      rcases Nat.lt_or_eq_of_le set.countBound with room | full
      · exact .inr (.inl ⟨rfl, room⟩)
      · exact .inr (.inr ⟨rfl, full⟩)

theorem count_le_add (eq : T → T → Bool) (set : FixedSet T capacity) (item : T) :
    set.count ≤ (add eq set item).1.count := by
  unfold add
  split
  · exact Nat.le_refl _
  · split
    · exact Nat.le_succ _
    · exact Nat.le_refl _

theorem add_items (eq : T → T → Bool) (set : FixedSet T capacity) (item : T) {i : Fin capacity}
    (inUse : i.val < set.count) : (add eq set item).1.items i = set.items i := by
  unfold add
  split
  · rfl
  · split
    · exact Function.update_of_ne (fun same => by simp [same] at inUse) _ _
    · rfl

theorem remove_found {eq : T → T → Bool} {set : FixedSet T capacity} {item : T}
    {i : Fin capacity} (found : index eq set item = some i) :
    remove eq set item =
      ({ items := Function.update set.items i (set.items (set.lastSlot i))
         count := set.count - 1
         countBound := Nat.le_trans (Nat.sub_le _ _) set.countBound }, true) := by
  simp only [remove, found]

def Member (eq : T → T → Bool) (set : FixedSet T capacity) (item : T) : Prop :=
  ∃ i : Fin capacity, i.val < set.count ∧ eq (set.items i) item = true

def Distinct (eq : T → T → Bool) (set : FixedSet T capacity) : Prop :=
  ∀ i j : Fin capacity, i.val < set.count → j.val < set.count →
    eq (set.items i) (set.items j) = true → i = j

theorem index_none_iff_not_member (eq : T → T → Bool) (set : FixedSet T capacity) (item : T) :
    index eq set item = none ↔ ¬Member eq set item := by
  rw [index_eq_none_iff]
  simp [Member]

theorem Member.index {eq : T → T → Bool} {set : FixedSet T capacity} {item : T}
    (member : Member eq set item) : ∃ i, index eq set item = some i := by
  cases search : FixedSet.index eq set item with
  | none => exact absurd member ((index_none_iff_not_member eq set item).mp search)
  | some i => exact ⟨i, rfl⟩

theorem distinct_zeroed (eq : T → T → Bool) (zero : T) : Distinct eq (zeroed capacity zero) := by
  intro i j inUse
  exact absurd inUse (Nat.not_lt_zero _)

theorem count_le_of_keys {Key : Type} (set : FixedSet T capacity) (key : T → Key) (keys : List Key)
    (apart : ∀ i j : Fin capacity, i.val < set.count → j.val < set.count →
      key (set.items i) = key (set.items j) → i = j)
    (covered : ∀ i : Fin capacity, i.val < set.count → key (set.items i) ∈ keys) :
    set.count ≤ keys.length := by
  let used : Fin set.count → Key := fun i => key (set.items (i.castLE set.countBound))
  have unique : (List.ofFn used).Nodup := by
    rw [List.nodup_ofFn]
    intro i j same
    exact Fin.castLE_injective _ (apart _ _ i.isLt j.isLt same)
  have inside : List.ofFn used ⊆ keys := by
    intro value member
    obtain ⟨i, rfl⟩ := List.mem_ofFn.mp member
    exact covered _ i.isLt
  simpa using (unique.subperm inside).length_le

section Equality

variable {eq : T → T → Bool} {set : FixedSet T capacity} {item : T}

theorem member_add (absent : index eq set item = none) (room : set.count < capacity)
    (query : T) :
    Member eq (add eq set item).1 query ↔ Member eq set query ∨ eq item query = true := by
  have fresh : (add eq set item).1.items ⟨set.count, room⟩ = item := by
    simp [add_new absent room]
  have count : (add eq set item).1.count = set.count + 1 := by rw [add_new absent room]
  constructor
  · rintro ⟨i, inUse, same⟩
    by_cases old : i.val < set.count
    · rw [add_items eq set item old] at same
      exact Or.inl ⟨i, old, same⟩
    · have here : i = ⟨set.count, room⟩ := Fin.ext (by simp only; omega)
      rw [here, fresh] at same
      exact Or.inr same
  · rintro (⟨i, inUse, same⟩ | same)
    · refine ⟨i, by omega, ?_⟩
      rw [add_items eq set item inUse]
      exact same
    · refine ⟨⟨set.count, room⟩, by simp only; omega, ?_⟩
      rw [fresh]
      exact same

theorem distinct_add (laws : Equivalence fun a b => eq a b = true) (distinct : Distinct eq set)
    (absent : index eq set item = none) (room : set.count < capacity) :
    Distinct eq (add eq set item).1 := by
  have fresh : (add eq set item).1.items ⟨set.count, room⟩ = item := by
    simp [add_new absent room]
  have count : (add eq set item).1.count = set.count + 1 := by rw [add_new absent room]
  have other (i : Fin capacity) (old : i.val < set.count) :
      ¬eq ((add eq set item).1.items i) item = true := by
    rw [add_items eq set item old, index_none absent i old]
    simp
  intro i j iInUse jInUse same
  by_cases iOld : i.val < set.count <;> by_cases jOld : j.val < set.count
  · rw [add_items eq set item iOld, add_items eq set item jOld] at same
    exact distinct i j iOld jOld same
  · have here : j = ⟨set.count, room⟩ := Fin.ext (by simp only; omega)
    rw [here, fresh] at same
    exact absurd same (other i iOld)
  · have here : i = ⟨set.count, room⟩ := Fin.ext (by simp only; omega)
    rw [here, fresh] at same
    exact absurd (laws.symm same) (other j jOld)
  · exact Fin.ext (by omega)

def removedFrom (set : FixedSet T capacity) (i j : Fin capacity) : Fin capacity :=
  if j = i then set.lastSlot i else j

theorem remove_items {i : Fin capacity} (found : index eq set item = some i) (j : Fin capacity) :
    (remove eq set item).1.items j = set.items (set.removedFrom i j) := by
  rw [remove_found found]
  simp only [removedFrom, Function.update_apply]
  split <;> rfl

theorem remove_count {i : Fin capacity} (found : index eq set item = some i) :
    (remove eq set item).1.count = set.count - 1 := by
  rw [remove_found found]

theorem removedFrom_inUse {i j : Fin capacity} (iInUse : i.val < set.count)
    (jInUse : j.val < set.count - 1) : (set.removedFrom i j).val < set.count := by
  simp only [removedFrom]
  split
  · simp only [lastSlot]
    omega
  · omega

theorem removedFrom_ne {i j : Fin capacity} (jInUse : j.val < set.count - 1) :
    set.removedFrom i j ≠ i := by
  simp only [removedFrom]
  split
  case isTrue same =>
    intro last
    have value := congrArg Fin.val last
    simp only [lastSlot] at value
    subst same
    omega
  case isFalse different => exact different

theorem removedFrom_injective {i j k : Fin capacity} (jInUse : j.val < set.count - 1)
    (kInUse : k.val < set.count - 1) (same : set.removedFrom i j = set.removedFrom i k) :
    j = k := by
  have values := congrArg Fin.val same
  simp only [removedFrom] at values
  split at values <;> split at values
  case isTrue.isTrue jHere kHere => rw [jHere, kHere]
  case isTrue.isFalse =>
    simp only [lastSlot] at values
    omega
  case isFalse.isTrue =>
    simp only [lastSlot] at values
    omega
  case isFalse.isFalse => exact Fin.ext values

theorem removedFrom_surjective (set : FixedSet T capacity) {i k : Fin capacity}
    (kInUse : k.val < set.count) (other : k ≠ i) (iInUse : i.val < set.count) :
    ∃ j : Fin capacity, j.val < set.count - 1 ∧ set.removedFrom i j = k := by
  by_cases last : k.val = set.count - 1
  · have notLast : i.val < set.count - 1 := by
      have : k.val ≠ i.val := fun same => other (Fin.ext same)
      omega
    refine ⟨i, notLast, ?_⟩
    simp only [removedFrom, ↓reduceIte]
    exact Fin.ext last.symm
  · exact ⟨k, by omega, by simp [removedFrom, other]⟩

theorem distinct_remove (distinct : Distinct eq set) : Distinct eq (remove eq set item).1 := by
  cases search : index eq set item with
  | none => simpa [remove, search] using distinct
  | some i =>
      have iInUse := (index_some search).1
      intro j k jInUse kInUse same
      rw [remove_count search] at jInUse kInUse
      rw [remove_items search, remove_items search] at same
      exact removedFrom_injective jInUse kInUse
        (distinct _ _ (removedFrom_inUse iInUse jInUse) (removedFrom_inUse iInUse kInUse) same)

theorem member_remove (laws : Equivalence fun a b => eq a b = true) (distinct : Distinct eq set)
    (query : T) :
    Member eq (remove eq set item).1 query ↔ Member eq set query ∧ ¬eq item query = true := by
  cases search : index eq set item with
  | none =>
      have unchanged : (remove eq set item).1 = set := by simp [remove, search]
      rw [unchanged]
      refine ⟨fun member => ⟨member, fun same => ?_⟩, fun both => both.1⟩
      obtain ⟨i, inUse, equal⟩ := member
      have absent := index_none search i inUse
      rw [laws.trans equal (laws.symm same)] at absent
      simp at absent
  | some i =>
      obtain ⟨iInUse, iSame, _⟩ := index_some search
      constructor
      · rintro ⟨j, jInUse, same⟩
        rw [remove_count search] at jInUse
        rw [remove_items search] at same
        have fromInUse : (set.removedFrom i j).val < set.count := removedFrom_inUse iInUse jInUse
        refine ⟨⟨_, fromInUse, same⟩, fun equal => ?_⟩
        have backTo := laws.trans same (laws.trans (laws.symm equal) (laws.symm iSame))
        exact removedFrom_ne jInUse (distinct _ _ fromInUse iInUse backTo)
      · rintro ⟨⟨k, kInUse, same⟩, different⟩
        have other : k ≠ i := by
          rintro rfl
          exact different (laws.trans (laws.symm iSame) same)
        obtain ⟨j, jInUse, origin⟩ := removedFrom_surjective set kInUse other iInUse
        refine ⟨j, ?_, ?_⟩
        · rw [remove_count search]
          exact jInUse
        · rw [remove_items search, origin]
          exact same

end Equality

end FixedSet

end YakUnshorn
