import YakUnshorn.Lib.Chain
import YakUnshorn.Lib.CMachine

/-!
`pop_by_id` of `ox-kernel/event.c` on chains of nodes of any kind and number, and what
is left of the chain that a node is popped from.
-/

namespace YakUnshorn

open CMachine LinkedChain

variable {Node : Type*}

section Popping

variable [DecidableEq Node]

/-- `pop_by_id` from the node after `prev`, with the `id` and `next` fields of the nodes apart. The
fuel bounds the number of nodes visited. -/
def popByIdFrom (ids : Node → Int) (id : Nat) :
    Nat → (Node → Option Node) → Option Node → Option Node →
      Except Fault (Option Node × (Node → Option Node))
  | _, next, _, none => .ok (none, next)
  | 0, _, _, some _ => .error .nonTermination
  | fuel + 1, next, prev, some sub =>
      if toSizeT (ids sub) = id then
        match prev with
        | none => .error .nullDereference
        | some prev =>
            let next := Function.update next prev none
            match next sub with
            | none => .ok (some sub, next)
            | some following => .ok (some sub, Function.update next prev (next following))
      else popByIdFrom ids id fuel next (some sub) (next sub)

variable {ids : Node → Int} {id : Nat} {next : Node → Option Node} {start : Option Node}

theorem popByIdFrom_skip {front : List Node} {middle : Option Node} (prev : Option Node)
    (fuel : Nat) (lead : Segment next start front middle)
    (unmatched : ∀ node ∈ front, toSizeT (ids node) ≠ id) :
    popByIdFrom ids id (front.length + fuel) next prev start =
      popByIdFrom ids id fuel next (front.getLast?.or prev) middle := by
  induction front generalizing start prev with
  | nil =>
      have same : start = middle := lead
      simp [same]
  | cons node rest ih =>
      have different : ¬toSizeT (ids node) = id := unmatched node (by simp)
      have fuelShape : (node :: rest).length + fuel = rest.length + fuel + 1 := by
        simp only [List.length_cons]
        omega
      rw [fuelShape, lead.1]
      simp only [popByIdFrom, different, ↓reduceIte]
      rw [ih (some node) lead.2 fun later member => unmatched later (by simp [member])]
      congr 1
      cases rest with
      | nil => rfl
      | cons following others =>
          obtain ⟨last, isLast⟩ : ∃ last, (following :: others).getLast? = some last :=
            ⟨_, List.getLast?_eq_some_getLast (by simp)⟩
          rw [List.getLast?_cons_cons, isLast]
          rfl

theorem popByIdFrom_absent {nodes : List Node} (chain : Chain next start nodes)
    (unmatched : ∀ node ∈ nodes, toSizeT (ids node) ≠ id) {fuel : Nat}
    (enough : nodes.length ≤ fuel) :
    popByIdFrom ids id fuel next none start = .ok (none, next) := by
  have skipped := popByIdFrom_skip none (fuel - nodes.length) chain unmatched
  rw [Nat.add_sub_cancel' enough] at skipped
  rw [skipped]
  cases fuel - nodes.length <;> rfl

theorem popByIdFrom_head {sub : Node} (first : start = some sub)
    (matched : toSizeT (ids sub) = id) (fuel : Nat) :
    popByIdFrom ids id (fuel + 1) next none start = .error .nullDereference := by
  simp only [first, popByIdFrom, matched, ↓reduceIte]

theorem popByIdFrom_found {front back : List Node} {prev sub : Node}
    (chain : Chain next start (front ++ prev :: sub :: back))
    (unmatched : ∀ node ∈ front ++ [prev], toSizeT (ids node) ≠ id)
    (matched : toSizeT (ids sub) = id) {fuel : Nat}
    (enough : (front ++ prev :: sub :: back).length ≤ fuel) :
    popByIdFrom ids id fuel next none start =
      .ok (some sub, Function.update next prev (back.head?.bind next)) := by
  have unique := chain.nodup
  have apart : sub ≠ prev := by
    rintro rfl
    simp [List.nodup_append] at unique
  have shape : front ++ prev :: sub :: back = (front ++ [prev]) ++ sub :: back := by simp
  rw [shape, chain_split] at chain
  obtain ⟨spare, rfl⟩ : ∃ spare, fuel = (front ++ [prev]).length + (spare + 1) := by
    refine ⟨fuel - (front ++ [prev]).length - 1, ?_⟩
    simp only [List.length_append, List.length_cons, List.length_nil] at enough ⊢
    omega
  rw [popByIdFrom_skip none (spare + 1) chain.1 unmatched]
  rw [List.getLast?_concat, Option.some_or, popByIdFrom]
  simp only [matched, ↓reduceIte]
  rw [Function.update_of_ne apart]
  cases back with
  | nil =>
      have stops : next sub = none := chain.2
      simp only [stops, List.head?_nil, Option.bind_none]
  | cons following rest =>
      have goesOn : next sub = some following := chain.2.1
      have other : following ≠ prev := by
        rintro rfl
        simp [List.nodup_append] at unique
      simp only [goesOn, List.head?_cons, Option.bind_some, Function.update_idem]
      rw [Function.update_of_ne other]

end Popping

/-- The ids are values of the C type that holds them, no two of them the same. -/
def DistinctIds (ids : Node → Int) (nodes : List Node) : Prop :=
  (∀ node ∈ nodes, -2 ^ 31 ≤ ids node ∧ ids node < 2 ^ 31) ∧ (nodes.map ids).Nodup

theorem DistinctIds.unmatched {ids : Node → Int} {front back : List Node} {sub : Node}
    (distinct : DistinctIds ids (front ++ sub :: back)) :
    ∀ node ∈ front, toSizeT (ids node) ≠ toSizeT (ids sub) := by
  intro node member same
  have bounds := distinct.1 node (by simp [member])
  have subBounds := distinct.1 sub (by simp)
  have equal := toSizeT_inj bounds.1 bounds.2 subBounds.1 subBounds.2 same
  have unique := distinct.2
  rw [List.map_append, List.map_cons, List.nodup_append] at unique
  exact unique.2.2 (ids node) (List.mem_map_of_mem member) (ids sub) (by simp) equal

section Unlinking

variable [DecidableEq Node] {ids : Node → Int} {next : Node → Option Node} {start : Option Node}

/-- The walk finds the node, however many nodes it may visit as long as these are all of the
chain, and leaves the links `after`. -/
def Pops (ids : Node → Int) (next : Node → Option Node) (start : Option Node) (nodes : List Node)
    (sub : Node) (after : Node → Option Node) : Prop :=
  ∀ fuel, nodes.length ≤ fuel →
    popByIdFrom ids (toSizeT (ids sub)) fuel next none start = .ok (some sub, after)

theorem pops_chain (front back : List Node) (prev sub : Node)
    (chain : Chain next start (front ++ prev :: sub :: back))
    (distinct : DistinctIds ids (front ++ prev :: sub :: back)) :
    ∃ after, Pops ids next start (front ++ prev :: sub :: back) sub after ∧
      Chain after start (front ++ prev :: back.tail) := by
  have unmatched : ∀ node ∈ front ++ [prev], toSizeT (ids node) ≠ toSizeT (ids sub) := by
    apply DistinctIds.unmatched
    rwa [List.append_assoc, List.singleton_append]
  refine ⟨Function.update next prev (back.head?.bind next), ?_, chain.relink_past_two⟩
  intro fuel enough
  exact popByIdFrom_found chain unmatched rfl enough

/-- Of a node that is not the last, the successor is dropped with it. -/
theorem pop_by_id_keeps_rest_iff (front back : List Node) (sub : Node)
    (chain : Chain next start (front ++ sub :: back)) (inner : front ≠ [])
    (distinct : DistinctIds ids (front ++ sub :: back)) :
    ∃ after, Pops ids next start (front ++ sub :: back) sub after ∧
      (Chain after start (front ++ back) ↔ back = []) := by
  obtain ⟨lead, prev, rfl⟩ := (List.eq_nil_or_concat' front).resolve_left inner
  simp only [List.append_assoc, List.singleton_append] at chain distinct ⊢
  obtain ⟨after, popped, rest⟩ := pops_chain lead back prev sub chain distinct
  refine ⟨after, popped, ?_, ?_⟩
  · intro whole
    have same := whole.unique rest
    rw [List.append_cancel_left_eq, List.cons.injEq] at same
    cases back with
    | nil => rfl
    | cons following others => simp at same
  · rintro rfl
    exact rest

end Unlinking

def rowOfThree : Fin 3 → Option (Fin 3)
  | 0 => some 1
  | 1 => some 2
  | 2 => none

def rowIds : Fin 3 → Int := fun node => node.val + 1

theorem rowOfThree_chain : Chain rowOfThree (some 0) [0, 1, 2] := by
  simp [Chain, Segment, rowOfThree]

theorem rowIds_distinct : DistinctIds rowIds [0, 1, 2] := ⟨by decide, by decide⟩

theorem pop_by_id_keeps_rest_iff_last :
    ∃ after, Pops rowIds rowOfThree (some 0) ([0, 1] ++ 2 :: []) 2 after ∧
      (Chain after (some 0) ([0, 1] ++ []) ↔ ([] : List (Fin 3)) = []) :=
  pop_by_id_keeps_rest_iff [0, 1] [] 2 rowOfThree_chain (by decide) rowIds_distinct

theorem pop_by_id_drops_successor :
    ∃ after, Pops rowIds rowOfThree (some 0) [0, 1, 2] 1 after ∧
      Chain after (some 0) [0] ∧ ¬Chain after (some 0) [0, 2] := by
  obtain ⟨after, popped, rest⟩ := pops_chain [] [2] 0 1 rowOfThree_chain rowIds_distinct
  refine ⟨after, popped, rest, fun whole => ?_⟩
  have same := whole.unique rest
  simp at same

end YakUnshorn
