import Mathlib.Data.Fintype.Card
import Mathlib.Data.List.Nodup
import Mathlib.Logic.Function.Basic

/-!
Singly linked chains given by a partial successor function, such as the `next`
fields of nodes that live in an array. A chain is described by the list of the
nodes it passes, so that acyclicity, framing and relinking are facts about lists.
-/

namespace LinkedChain

variable {Node : Type*}

/-- Following `next` from `start` passes exactly `nodes`, in order, and arrives at `stop`. -/
def Segment (next : Node → Option Node) : Option Node → List Node → Option Node → Prop
  | start, [], stop => start = stop
  | start, node :: rest, stop => start = some node ∧ Segment next (next node) rest stop

def Chain (next : Node → Option Node) (start : Option Node) (nodes : List Node) : Prop :=
  Segment next start nodes none

/-- Following `next` from `start` stops after finitely many steps. -/
def Ends (next : Node → Option Node) (start : Option Node) : Prop :=
  ∃ nodes, Chain next start nodes

section Segments

variable {next other : Node → Option Node}

@[simp] theorem segment_nil (start stop : Option Node) :
    Segment next start [] stop ↔ start = stop := Iff.rfl

@[simp] theorem segment_cons (start stop : Option Node) (node : Node) (rest : List Node) :
    Segment next start (node :: rest) stop ↔
      start = some node ∧ Segment next (next node) rest stop := Iff.rfl

@[simp] theorem chain_nil (start : Option Node) : Chain next start [] ↔ start = none := Iff.rfl

theorem segment_append (start stop : Option Node) (front back : List Node) :
    Segment next start (front ++ back) stop ↔
      ∃ middle, Segment next start front middle ∧ Segment next middle back stop := by
  induction front generalizing start with
  | nil => simp
  | cons node rest ih => simp [ih, and_assoc]

theorem chain_append (start : Option Node) (front back : List Node) :
    Chain next start (front ++ back) ↔
      ∃ middle, Segment next start front middle ∧ Chain next middle back :=
  segment_append start none front back

theorem chain_split (start : Option Node) (front back : List Node) (node : Node) :
    Chain next start (front ++ node :: back) ↔
      Segment next start front (some node) ∧ Chain next (next node) back := by
  rw [chain_append]
  constructor
  · rintro ⟨middle, lead, same, tail⟩
    subst middle
    exact ⟨lead, tail⟩
  · rintro ⟨lead, tail⟩
    exact ⟨some node, lead, rfl, tail⟩

theorem Segment.congr {start stop : Option Node} {nodes : List Node}
    (segment : Segment next start nodes stop)
    (agree : ∀ node ∈ nodes, other node = next node) : Segment other start nodes stop := by
  induction nodes generalizing start with
  | nil => exact segment
  | cons node rest ih =>
      refine ⟨segment.1, ?_⟩
      rw [agree node (by simp)]
      exact ih segment.2 (fun later member => agree later (by simp [member]))

theorem Chain.congr {start : Option Node} {nodes : List Node} (chain : Chain next start nodes)
    (agree : ∀ node ∈ nodes, other node = next node) : Chain other start nodes :=
  Segment.congr chain agree

theorem Chain.unique {start : Option Node} {first second : List Node}
    (one : Chain next start first) (two : Chain next start second) : first = second := by
  induction first generalizing start second with
  | nil =>
      cases second with
      | nil => rfl
      | cons node rest =>
          have stopped : start = none := one
          have continued : start = some node := two.1
          simp [stopped] at continued
  | cons node rest ih =>
      cases second with
      | nil =>
          have stopped : start = none := two
          have continued : start = some node := one.1
          simp [stopped] at continued
      | cons node' rest' =>
          have same : node = node' := Option.some.inj (one.1.symm.trans two.1)
          subst same
          rw [ih one.2 two.2]

theorem Segment.chain_rest {start stop : Option Node} {front nodes : List Node}
    (lead : Segment next start front stop) (chain : Chain next start nodes) :
    ∃ back, nodes = front ++ back ∧ Chain next stop back := by
  induction front generalizing start nodes with
  | nil =>
      have same : start = stop := lead
      subst same
      exact ⟨nodes, rfl, chain⟩
  | cons node rest ih =>
      cases nodes with
      | nil =>
          have stopped : start = none := chain
          have continued : start = some node := lead.1
          simp [stopped] at continued
      | cons node' rest' =>
          have same : node = node' := Option.some.inj (lead.1.symm.trans chain.1)
          subst same
          obtain ⟨back, split, tail⟩ := ih lead.2 chain.2
          exact ⟨back, by rw [split]; rfl, tail⟩

theorem Chain.nodup {start : Option Node} {nodes : List Node} (chain : Chain next start nodes) :
    nodes.Nodup := by
  induction nodes generalizing start with
  | nil => exact List.nodup_nil
  | cons node rest ih =>
      refine List.nodup_cons.mpr ⟨?_, ih chain.2⟩
      intro again
      obtain ⟨front, back, split⟩ := List.append_of_mem again
      have whole : Chain next (some node) (node :: rest) := ⟨rfl, chain.2⟩
      have tail : Chain next (next node) (front ++ node :: back) := split ▸ chain.2
      have later : Chain next (some node) (node :: back) :=
        ⟨rfl, ((chain_split _ _ _ _).mp tail).2⟩
      have lengths := congrArg List.length (whole.unique later)
      rw [split] at lengths
      simp only [List.length_cons, List.length_append] at lengths
      omega

theorem Chain.length_le [Fintype Node] {start : Option Node} {nodes : List Node}
    (chain : Chain next start nodes) : nodes.length ≤ Fintype.card Node :=
  chain.nodup.length_le_card

theorem Chain.tail {start : Option Node} {nodes : List Node} (chain : Chain next start nodes) :
    Chain next (nodes.head?.bind next) nodes.tail := by
  cases nodes with
  | nil => rfl
  | cons node rest => exact chain.2

end Segments

theorem not_ends_of_loop {next : Node → Option Node} {node : Node} (loop : next node = some node) :
    ¬Ends next (some node) := by
  rintro ⟨nodes, chain⟩
  cases nodes with
  | nil => simp at chain
  | cons first rest =>
      have same : node = first := Option.some.inj chain.1
      subst same
      have again := chain.2
      rw [loop] at again
      have lengths := congrArg List.length (chain.unique again)
      simp only [List.length_cons] at lengths
      omega

/-- The nodes passed, if following `next` stops after at most `fuel` of them. -/
def walk (next : Node → Option Node) : Nat → Option Node → Option (List Node)
  | _, none => some []
  | 0, some _ => none
  | fuel + 1, some node => (walk next fuel (next node)).map (node :: ·)

theorem chain_of_walk {next : Node → Option Node} {fuel : Nat} {start : Option Node}
    {nodes : List Node} (walked : walk next fuel start = some nodes) : Chain next start nodes := by
  induction fuel generalizing start nodes with
  | zero =>
      cases start with
      | none =>
          cases walked
          rfl
      | some node => simp [walk] at walked
  | succ fuel ih =>
      cases start with
      | none =>
          cases walked
          rfl
      | some node =>
          obtain ⟨rest, later, rfl⟩ := Option.map_eq_some_iff.mp walked
          exact ⟨rfl, ih later⟩

theorem chain_of_decreasing {next : Node → Option Node} (rank : Node → Nat) {region : Node → Prop}
    (lower : ∀ node, region node → ∀ following, next node = some following →
      region following ∧ rank following < rank node)
    (node : Node) (inside : region node) :
    ∃ nodes, Chain next (some node) nodes ∧ ∀ passed ∈ nodes, region passed := by
  generalize rankEq : rank node = bound
  induction bound using Nat.strongRecOn generalizing node with
  | ind bound ih =>
      cases link : next node with
      | none => exact ⟨[node], ⟨rfl, link⟩, by simpa using inside⟩
      | some following =>
          obtain ⟨stays, less⟩ := lower node inside following link
          obtain ⟨rest, chain, later⟩ := ih (rank following) (rankEq ▸ less) following stays rfl
          refine ⟨node :: rest, ⟨rfl, link ▸ chain⟩, ?_⟩
          intro passed member
          rcases List.mem_cons.mp member with rfl | further
          · exact inside
          · exact later passed further

/-- The nodes that following `next` from `start` comes to, whether or not it ever stops. -/
def Visits (next : Node → Option Node) (start : Option Node) (node : Node) : Prop :=
  ∃ front, Segment next start front (some node)

theorem Chain.visits_iff {next : Node → Option Node} {start : Option Node} {nodes : List Node}
    (chain : Chain next start nodes) (node : Node) : Visits next start node ↔ node ∈ nodes := by
  constructor
  · rintro ⟨front, lead⟩
    obtain ⟨back, split, tail⟩ := lead.chain_rest chain
    cases back with
    | nil => simp at tail
    | cons first rest =>
        have same : node = first := Option.some.inj tail.1
        simp [split, same]
  · intro member
    obtain ⟨front, back, split⟩ := List.append_of_mem member
    rw [split, chain_split] at chain
    exact ⟨front, chain.1⟩

section Updates

variable [DecidableEq Node] {next : Node → Option Node}

theorem Segment.update_of_notMem {start stop : Option Node} {nodes : List Node} {node : Node}
    (segment : Segment next start nodes stop) (outside : node ∉ nodes) (link : Option Node) :
    Segment (Function.update next node link) start nodes stop := by
  apply segment.congr
  intro passed member
  apply Function.update_of_ne
  rintro rfl
  exact outside member

theorem Chain.update_of_notMem {start : Option Node} {nodes : List Node} {node : Node}
    (chain : Chain next start nodes) (outside : node ∉ nodes) (link : Option Node) :
    Chain (Function.update next node link) start nodes :=
  Segment.update_of_notMem chain outside link

theorem Chain.relink {start link : Option Node} {front dropped back : List Node} {node : Node}
    (chain : Chain next start (front ++ node :: dropped)) (tail : Chain next link back)
    (outside : node ∉ back) :
    Chain (Function.update next node link) start (front ++ node :: back) := by
  have unique := chain.nodup
  rw [chain_split] at chain ⊢
  have beforehand : node ∉ front := by
    intro member
    exact (List.nodup_append.mp unique).2.2 node member node (by simp) rfl
  refine ⟨chain.1.update_of_notMem beforehand link, ?_⟩
  rw [Function.update_self]
  exact tail.update_of_notMem outside link

theorem Chain.relink_past_two {start : Option Node} {front back : List Node} {node dropped : Node}
    (chain : Chain next start (front ++ node :: dropped :: back)) :
    Chain (Function.update next node (back.head?.bind next)) start
      (front ++ node :: back.tail) := by
  have behind : Chain next (next dropped) back := ((chain_split _ _ _ _).mp chain).2.2
  refine chain.relink behind.tail fun member => ?_
  have unique := (List.nodup_append.mp chain.nodup).2.1
  exact (List.nodup_cons.mp unique).1
    (List.mem_cons_of_mem dropped (List.mem_of_mem_tail member))

theorem Chain.push {start : Option Node} {nodes : List Node} {node : Node}
    (chain : Chain next start nodes) (outside : node ∉ nodes) :
    Chain (Function.update next node start) (some node) (node :: nodes) := by
  refine ⟨rfl, ?_⟩
  rw [Function.update_self]
  exact chain.update_of_notMem outside start

/-- Pushing a node that the chain already passes closes a cycle. -/
theorem Chain.push_mem_not_ends {start : Option Node} {nodes : List Node} {node : Node}
    (chain : Chain next start nodes) (inside : node ∈ nodes) :
    ¬Ends (Function.update next node start) (some node) := by
  rintro ⟨closed, ends⟩
  obtain ⟨front, back, split, fresh⟩ := List.eq_append_cons_of_mem inside
  rw [split, chain_split] at chain
  have lead := chain.1.update_of_notMem fresh start
  cases closed with
  | nil => simp at ends
  | cons first rest =>
      have same : node = first := Option.some.inj ends.1
      subst same
      have around := ends.2
      rw [Function.update_self] at around
      obtain ⟨later, again, tail⟩ := lead.chain_rest around
      have lengths := congrArg List.length (ends.unique tail)
      rw [again] at lengths
      simp only [List.length_cons, List.length_append] at lengths
      omega

end Updates

end LinkedChain
