import YakUnshorn.BunuelibPool
import YakUnshorn.Lib.Chain
import YakUnshorn.Lib.Runs
import Mathlib.Data.List.Perm.Basic

/-!
Runs of a client that takes blocks from a pool, writes into the blocks it has and
gives them back.
-/

namespace YakUnshorn

open ByteMemory CMachine LinkedChain StepRuns

def pointer (address : Nat) : Option Nat := if address = 0 then none else some address

def nextFree (memory : Memory) (block : Nat) : Option Nat := pointer (loadWord memory block)

/-- The blocks the client has, and those it gave back and did not take again, newest first. -/
structure Ledger where
  outstanding : List Nat
  given : List Nat
  deriving Repr, DecidableEq

def Ledger.took (ledger : Ledger) (block : Nat) : Ledger :=
  if block = 0 then ledger else ⟨block :: ledger.outstanding, ledger.given.erase block⟩

def Ledger.gave (ledger : Ledger) (block : Nat) : Ledger :=
  ⟨ledger.outstanding.erase block, block :: ledger.given⟩

inductive PoolOp
  | take
  | give (block : Nat)
  | write (address : Nat) (byte : UInt8)
  deriving Repr, DecidableEq

abbrev PoolState := Memory × Ledger

def poolStep (pool : Nat) (state : PoolState) : PoolOp → Option PoolState
  | .take =>
      match bunuelTakePool state.1 pool with
      | .error _ => none
      | .ok (memory, block) => some (memory, state.2.took block)
  | .give block =>
      match bunuelGivePool state.1 pool block with
      | .error _ => none
      | .ok memory => some (memory, state.2.gave block)
  | .write address byte => some (Function.update state.1 address byte, state.2)

def OwnBlocks (elemSize : Nat) (state : PoolState) : PoolOp → Prop
  | .take => True
  | .give block => block ∈ state.2.outstanding
  | .write address _ =>
      ∃ block ∈ state.2.outstanding, block ≤ address ∧ address < block + elemSize

instance (elemSize : Nat) (state : PoolState) :
    (op : PoolOp) → Decidable (OwnBlocks elemSize state op)
  | .take => inferInstanceAs (Decidable True)
  | .give block => inferInstanceAs (Decidable (block ∈ state.2.outstanding))
  | .write address _ => inferInstanceAs (Decidable
      (∃ block ∈ state.2.outstanding, block ≤ address ∧ address < block + elemSize))

def SameBytes (elemSize : Nat) (memory other : Memory) (block : Nat) : Prop :=
  ∀ offset < elemSize, other (block + offset) = memory (block + offset)

def bumpedBlocks (memory : Memory) (pool : Nat) : Nat :=
  loadWord memory (Arena.length (loadWord memory (Pool.arena pool)))

/-- A take returns null exactly when all blocks are outstanding. It returns the block given last,
and does not bump the arena, as long as there is one. Neither a take nor a give changes a byte of
a block that stays outstanding. -/
def StepRight (pool capacity elemSize : Nat) (state : PoolState) : PoolOp → Prop
  | .take => ∃ after block, bunuelTakePool state.1 pool = .ok (after, block) ∧
      (block = 0 ↔ state.2.outstanding.length = capacity) ∧
      (∀ newest older, state.2.given = newest :: older →
        block = newest ∧ bumpedBlocks after pool = bumpedBlocks state.1 pool) ∧
      ∀ other ∈ state.2.outstanding, SameBytes elemSize state.1 after other
  | .give block => ∃ after, bunuelGivePool state.1 pool block = .ok after ∧
      ∀ other ∈ state.2.outstanding, other ≠ block → SameBytes elemSize state.1 after other
  | .write _ _ => True

/-- The outstanding blocks are disjoint and inside the arena, and every block is outstanding, in
the free list or was never bumped. -/
structure PoolSound (pool arena capacity elemSize : Nat) (state : PoolState) : Prop where
  disjoint : state.2.outstanding.Pairwise fun block other => Apart block elemSize other elemSize
  inside : ∀ block ∈ state.2.outstanding, Arena.data arena ≤ block ∧
    block + elemSize ≤ Arena.data arena + capacity * elemSize
  counted : ∃ freeList,
    Chain (nextFree state.1) (pointer (loadWord state.1 (Pool.freeList pool))) freeList ∧
      bumpedBlocks state.1 pool ≤ capacity ∧
      state.2.outstanding.length + freeList.length + (capacity - bumpedBlocks state.1 pool) =
        capacity

/-- The members of the pool and the arena are in place, the free list passes the blocks that were
given back, and these and the outstanding ones are the blocks that were bumped. -/
structure Holds (layout : PoolLayout) (bumped : Nat) (memory : Memory) (ledger : Ledger) :
    Prop where
  elemSize : loadWord memory (Arena.elemSize layout.arena) = layout.elemSize
  length : loadWord memory (Arena.length layout.arena) = bumped
  capacity : loadWord memory (Arena.capacity layout.arena) = layout.capacity
  arena : loadWord memory (Pool.arena layout.pool) = layout.arena
  freeList : Chain (nextFree memory) (pointer (loadWord memory (Pool.freeList layout.pool)))
    ledger.given
  bounded : bumped ≤ layout.capacity
  accounted : (ledger.given ++ ledger.outstanding).Perm ((List.range bumped).map layout.block)

def InOrder (layout : PoolLayout) (state : PoolState) : Prop :=
  ∃ bumped, Holds layout bumped state.1 state.2

theorem sameBytes_storeWord {memory : Memory} {elemSize block address value : Nat}
    (apart : Apart block elemSize address wordBytes) :
    SameBytes elemSize memory (storeWord memory address value) block := by
  intro offset bound
  apply store_of_outside
  unfold Apart at apart
  omega

theorem SameBytes.loadWord_eq {memory other : Memory} {elemSize block : Nat}
    (same : SameBytes elemSize memory other block) (offset : Nat)
    (within : offset + wordBytes ≤ elemSize) :
    loadWord other (block + offset) = loadWord memory (block + offset) := by
  apply load_congr
  intro inner bound
  rw [Nat.add_assoc]
  exact same (offset + inner) (by omega)

theorem SameBytes.nextFree_eq {memory other : Memory} {elemSize block : Nat}
    (same : SameBytes elemSize memory other block) (wordFits : wordBytes ≤ elemSize) :
    nextFree other block = nextFree memory block :=
  congrArg pointer (load_congr fun offset bound => same offset (Nat.lt_of_lt_of_le bound wordFits))

theorem SameBytes.arena_eq {memory other : Memory} {arena : Nat}
    (same : SameBytes Arena.bytes memory other arena) :
    loadWord other (Arena.elemSize arena) = loadWord memory (Arena.elemSize arena) ∧
      loadWord other (Arena.length arena) = loadWord memory (Arena.length arena) ∧
      loadWord other (Arena.capacity arena) = loadWord memory (Arena.capacity arena) :=
  ⟨same.loadWord_eq 0 (by decide), same.loadWord_eq 8 (by decide),
    same.loadWord_eq 16 (by decide)⟩

theorem SameBytes.pool_eq {memory other : Memory} {pool : Nat}
    (same : SameBytes Pool.bytes memory other pool) :
    loadWord other (Pool.freeList pool) = loadWord memory (Pool.freeList pool) ∧
      loadWord other (Pool.arena pool) = loadWord memory (Pool.arena pool) :=
  ⟨same.loadWord_eq 0 (by decide), same.loadWord_eq 8 (by decide)⟩

theorem pointer_of_ne {address : Nat} (nonzero : address ≠ 0) : pointer address = some address :=
  if_neg nonzero

theorem pointer_none {address : Nat} (null : pointer address = none) : address = 0 := by
  by_contra nonzero
  simp [pointer, nonzero] at null

theorem pointer_some {address block : Nat} (points : pointer address = some block) :
    address = block ∧ block ≠ 0 := by
  unfold pointer at points
  split at points
  · simp at points
  · exact ⟨Option.some.inj points, by rw [← Option.some.inj points]; assumption⟩

namespace Holds

variable {layout : PoolLayout} {bumped : Nat} {memory : Memory} {ledger : Ledger}

theorem nodup (holds : Holds layout bumped memory ledger) :
    (ledger.given ++ ledger.outstanding).Nodup :=
  holds.accounted.nodup_iff.mpr (List.nodup_range.map layout.block_injective)

theorem mem_block (holds : Holds layout bumped memory ledger) {block : Nat}
    (member : block ∈ ledger.given ++ ledger.outstanding) :
    ∃ i < layout.capacity, block = layout.block i := by
  obtain ⟨i, bound, rfl⟩ := List.mem_map.mp (holds.accounted.mem_iff.mp member)
  exact ⟨i, Nat.lt_of_lt_of_le (List.mem_range.mp bound) holds.bounded, rfl⟩

theorem apart (holds : Holds layout bumped memory ledger) {block other : Nat}
    (member : block ∈ ledger.given ++ ledger.outstanding)
    (otherMember : other ∈ ledger.given ++ ledger.outstanding) (different : block ≠ other) :
    Apart block layout.elemSize other layout.elemSize := by
  obtain ⟨i, -, rfl⟩ := holds.mem_block member
  obtain ⟨j, -, rfl⟩ := holds.mem_block otherMember
  exact layout.block_apart fun same => different (same ▸ rfl)

theorem count (holds : Holds layout bumped memory ledger) :
    ledger.given.length + ledger.outstanding.length = bumped := by
  have lengths := holds.accounted.length_eq
  simpa using lengths

theorem bumpedBlocks_eq (holds : Holds layout bumped memory ledger) :
    bumpedBlocks memory layout.pool = bumped := by
  rw [bumpedBlocks, holds.arena, holds.length]

theorem sound (holds : Holds layout bumped memory ledger) :
    PoolSound layout.pool layout.arena layout.capacity layout.elemSize (memory, ledger) where
  disjoint := by
    have unique := (List.nodup_append.mp holds.nodup).2.1
    refine List.Pairwise.imp_of_mem ?_ unique
    intro block other member otherMember different
    exact holds.apart (List.mem_append_right _ member) (List.mem_append_right _ otherMember)
      different
  inside block member := by
    obtain ⟨i, bound, rfl⟩ := holds.mem_block (List.mem_append_right _ member)
    exact layout.block_inside bound
  counted := by
    have count := holds.count
    have bounded := holds.bounded
    refine ⟨ledger.given, holds.freeList, ?_, ?_⟩
    · exact holds.bumpedBlocks_eq ▸ bounded
    · change _ + _ + (_ - bumpedBlocks memory layout.pool) = _
      rw [holds.bumpedBlocks_eq]
      simp only
      omega

theorem frame (holds : Holds layout bumped memory ledger) {other : Memory}
    (poolMembers : SameBytes Pool.bytes memory other layout.pool)
    (arenaMembers : SameBytes Arena.bytes memory other layout.arena)
    (freeBlocks : ∀ block ∈ ledger.given, SameBytes layout.elemSize memory other block) :
    Holds layout bumped other ledger := by
  obtain ⟨freeList, arena⟩ := poolMembers.pool_eq
  obtain ⟨elemSize, length, capacity⟩ := arenaMembers.arena_eq
  exact {
    elemSize := elemSize.trans holds.elemSize
    length := length.trans holds.length
    capacity := capacity.trans holds.capacity
    arena := arena.trans holds.arena
    freeList := by
      rw [freeList]
      exact holds.freeList.congr fun block member =>
        (freeBlocks block member).nextFree_eq layout.wordFits
    bounded := holds.bounded
    accounted := holds.accounted }

/-- The client has its blocks to itself: what happens inside of one changes nothing else. -/
theorem inside_outstanding (holds : Holds layout bumped memory ledger) {other : Memory}
    {block : Nat} (member : block ∈ ledger.outstanding)
    (outside : ∀ address, address < block ∨ block + layout.elemSize ≤ address →
      other address = memory address) :
    Holds layout bumped other ledger ∧
      ∀ neighbour ∈ ledger.given ++ ledger.outstanding, neighbour ≠ block →
        SameBytes layout.elemSize memory other neighbour := by
  have known := List.mem_append_right ledger.given member
  have untouched : ∀ width address, Apart block layout.elemSize address width →
      SameBytes width memory other address := by
    intro width address apart offset bound
    apply outside
    unfold Apart at apart
    omega
  have neighbours : ∀ neighbour ∈ ledger.given ++ ledger.outstanding, neighbour ≠ block →
      SameBytes layout.elemSize memory other neighbour := by
    intro neighbour beside different
    exact untouched _ _ (holds.apart known beside different.symm)
  obtain ⟨i, bound, same⟩ := holds.mem_block known
  have members := layout.block_apart_members bound
  rw [← same] at members
  refine ⟨holds.frame (untouched _ _ members.1) (untouched _ _ members.2) ?_, neighbours⟩
  intro free freeMember
  apply neighbours free (List.mem_append_left _ freeMember)
  exact (List.nodup_append.mp holds.nodup).2.2 free freeMember block member

theorem sameBytes_freeList (holds : Holds layout bumped memory ledger) {value block : Nat}
    (member : block ∈ ledger.given ++ ledger.outstanding) :
    SameBytes layout.elemSize memory (storeWord memory (Pool.freeList layout.pool) value)
      block := by
  obtain ⟨i, bound, rfl⟩ := holds.mem_block member
  have members := (layout.block_apart_members bound).1
  apply sameBytes_storeWord
  unfold Apart Pool.bytes at members
  unfold Apart Pool.freeList wordBytes
  omega

theorem sameBytes_length (holds : Holds layout bumped memory ledger) {value block : Nat}
    (member : block ∈ ledger.given ++ ledger.outstanding) :
    SameBytes layout.elemSize memory (storeWord memory (Arena.length layout.arena) value)
      block := by
  obtain ⟨i, bound, rfl⟩ := holds.mem_block member
  have members := (layout.block_apart_members bound).2
  apply sameBytes_storeWord
  unfold Apart Arena.bytes at members
  unfold Apart Arena.length wordBytes
  omega

theorem relink (holds : Holds layout bumped memory ledger) {head : Nat} {after : Ledger}
    (fits : head < 2 ^ 64) (chain : Chain (nextFree memory) (pointer head) after.given)
    (moved : (after.given ++ after.outstanding).Perm (ledger.given ++ ledger.outstanding)) :
    Holds layout bumped (storeWord memory (Pool.freeList layout.pool) head) after := by
  have arenaMembers : SameBytes Arena.bytes memory
      (storeWord memory (Pool.freeList layout.pool) head) layout.arena :=
    sameBytes_storeWord layout.arena_apart_freeList
  obtain ⟨elemSize, length, capacity⟩ := arenaMembers.arena_eq
  exact {
    elemSize := elemSize.trans holds.elemSize
    length := length.trans holds.length
    capacity := capacity.trans holds.capacity
    arena := by
      rw [loadWord_storeWord_apart, holds.arena]
      exact Or.inr (Nat.le_refl _)
    freeList := by
      rw [loadWord_storeWord fits]
      apply chain.congr
      intro block member
      have known := moved.mem_iff.mp (List.mem_append_left _ member)
      exact (holds.sameBytes_freeList known).nextFree_eq layout.wordFits
    bounded := holds.bounded
    accounted := moved.trans holds.accounted }

theorem bump (holds : Holds layout bumped memory ledger) (left : bumped < layout.capacity) :
    Holds layout (bumped + 1) (storeWord memory (Arena.length layout.arena) (bumped + 1))
      ⟨layout.block bumped :: ledger.outstanding, ledger.given⟩ := by
  have fits : bumped + 1 < 2 ^ 64 := Nat.lt_of_le_of_lt left layout.capacity_lt
  have poolMembers : SameBytes Pool.bytes memory
      (storeWord memory (Arena.length layout.arena) (bumped + 1)) layout.pool :=
    sameBytes_storeWord layout.pool_apart_length
  obtain ⟨freeList, arena⟩ := poolMembers.pool_eq
  exact {
    elemSize := by
      rw [loadWord_storeWord_apart, holds.elemSize]
      exact Or.inl (Nat.le_refl _)
    length := loadWord_storeWord fits
    capacity := by
      rw [loadWord_storeWord_apart, holds.capacity]
      exact Or.inr (Nat.le_refl _)
    arena := arena.trans holds.arena
    freeList := by
      rw [freeList]
      apply holds.freeList.congr
      intro block member
      exact (holds.sameBytes_length (List.mem_append_left _ member)).nextFree_eq layout.wordFits
    bounded := left
    accounted := by
      rw [List.range_succ, List.map_append, List.map_singleton]
      refine List.perm_middle.trans ?_
      exact (holds.accounted.cons _).trans (List.perm_append_singleton _ _).symm }

theorem member_ne_zero (holds : Holds layout bumped memory ledger) {block : Nat}
    (member : block ∈ ledger.given ++ ledger.outstanding) : block ≠ 0 := by
  obtain ⟨i, bound, rfl⟩ := holds.mem_block member
  exact Nat.ne_of_gt (layout.block_range bound).1

theorem member_lt (holds : Holds layout bumped memory ledger) {block : Nat}
    (member : block ∈ ledger.given ++ ledger.outstanding) : block < 2 ^ 64 := by
  obtain ⟨i, bound, rfl⟩ := holds.mem_block member
  exact (layout.block_range bound).2

theorem take_given (holds : Holds layout bumped memory ledger) {newest : Nat} {older : List Nat}
    (given : ledger.given = newest :: older) :
    ∃ after, bunuelTakePool memory layout.pool = .ok (after, newest) ∧
      Holds layout bumped after (ledger.took newest) ∧
      ∀ other ∈ ledger.outstanding, SameBytes layout.elemSize memory after other := by
  have nonzero : newest ≠ 0 := holds.member_ne_zero (by simp [given])
  have chain := holds.freeList
  rw [given] at chain
  obtain ⟨head, -⟩ := pointer_some chain.1
  refine ⟨storeWord memory (Pool.freeList layout.pool) (loadWord memory newest), ?_, ?_, ?_⟩
  · simp only [bunuelTakePool, if_neg (layout.pool_ne_zero), head, if_neg nonzero]
  · rw [Ledger.took, if_neg nonzero, given, List.erase_cons_head]
    refine holds.relink (loadWord_lt memory newest) chain.2 ?_
    rw [given]
    exact List.perm_middle
  · exact fun other member => holds.sameBytes_freeList (List.mem_append_right _ member)

theorem freeList_null (holds : Holds layout bumped memory ledger) (given : ledger.given = []) :
    loadWord memory (Pool.freeList layout.pool) = 0 := by
  have chain := holds.freeList
  rw [given] at chain
  exact pointer_none chain

theorem take_bumped (holds : Holds layout bumped memory ledger) (given : ledger.given = [])
    (left : bumped < layout.capacity) :
    ∃ after, bunuelTakePool memory layout.pool = .ok (after, layout.block bumped) ∧
      Holds layout (bumped + 1) after (ledger.took (layout.block bumped)) ∧
      ∀ other ∈ ledger.outstanding, SameBytes layout.elemSize memory after other := by
  have nonzero : layout.block bumped ≠ 0 := Nat.ne_of_gt (layout.block_range left).1
  refine ⟨storeWord memory (Arena.length layout.arena) (bumped + 1), ?_, ?_, ?_⟩
  · have inside := layout.block_range left
    have offset : bumped * layout.elemSize < 2 ^ 64 := by
      unfold PoolLayout.block at inside
      omega
    rw [takePool_bumps layout.pool_ne_zero (holds.freeList_null given) holds.arena,
      bumpArena_next (Nat.ne_of_gt layout.arenaAddress) holds.elemSize holds.length holds.capacity
        left, Nat.mod_eq_of_lt offset]
    exact congrArg (fun block => Except.ok (_, block)) (Nat.mod_eq_of_lt inside.2)
  · rw [Ledger.took, if_neg nonzero, given, List.erase_nil, ← given]
    exact holds.bump left
  · exact fun other member => holds.sameBytes_length (List.mem_append_right _ member)

theorem take_exhausted (holds : Holds layout bumped memory ledger) (given : ledger.given = [])
    (exhausted : bumped = layout.capacity) :
    bunuelTakePool memory layout.pool = .ok (memory, 0) := by
  rw [takePool_bumps layout.pool_ne_zero (holds.freeList_null given) holds.arena]
  exact bumpArena_full (Nat.ne_of_gt layout.arenaAddress) (holds.length.trans exhausted)
    holds.capacity

theorem give (holds : Holds layout bumped memory ledger) {block : Nat}
    (member : block ∈ ledger.outstanding) :
    ∃ after, bunuelGivePool memory layout.pool block = .ok after ∧
      Holds layout bumped after (ledger.gave block) ∧
      ∀ other ∈ ledger.outstanding, other ≠ block →
        SameBytes layout.elemSize memory after other := by
  have known := List.mem_append_right ledger.given member
  have nonzero := holds.member_ne_zero known
  have freeHead := loadWord_lt memory (Pool.freeList layout.pool)
  have outside : ∀ address, address < block ∨ block + layout.elemSize ≤ address →
      storeWord memory block (loadWord memory (Pool.freeList layout.pool)) address =
        memory address := by
    intro address beyond
    apply store_of_outside
    have wordFits := layout.wordFits
    omega
  obtain ⟨linked, neighbours⟩ := holds.inside_outstanding member outside
  have apart : ∀ free ∈ ledger.given, free ≠ block := fun free freeMember =>
    (List.nodup_append.mp holds.nodup).2.2 free freeMember block member
  refine ⟨storeWord (storeWord memory block (loadWord memory (Pool.freeList layout.pool)))
    (Pool.freeList layout.pool) block, ?_, ?_, ?_⟩
  · simp only [bunuelGivePool, layout.pool_ne_zero, nonzero, or_self, if_false]
  · apply linked.relink (holds.member_lt known)
    · refine ⟨pointer_of_ne nonzero, ?_⟩
      rw [nextFree, loadWord_storeWord freeHead]
      apply holds.freeList.congr
      intro free freeMember
      exact (neighbours free (List.mem_append_left _ freeMember)
        (apart free freeMember)).nextFree_eq layout.wordFits
    · have taken := (List.perm_cons_erase member).symm.append_left ledger.given
      exact List.perm_middle.symm.trans taken
  · intro other otherMember different offset bound
    have later := List.mem_append_right ledger.given otherMember
    rw [linked.sameBytes_freeList later offset bound]
    exact neighbours other later different offset bound

theorem write (holds : Holds layout bumped memory ledger) {address : Nat} {byte : UInt8}
    (own : ∃ block ∈ ledger.outstanding, block ≤ address ∧ address < block + layout.elemSize) :
    Holds layout bumped (Function.update memory address byte) ledger := by
  obtain ⟨block, member, lower, upper⟩ := own
  refine (holds.inside_outstanding member fun query outside => ?_).1
  apply Function.update_of_ne
  omega

theorem take (holds : Holds layout bumped memory ledger) :
    StepRight layout.pool layout.capacity layout.elemSize (memory, ledger) .take ∧
      ∃ after block moreBumped, bunuelTakePool memory layout.pool = .ok (after, block) ∧
        Holds layout moreBumped after (ledger.took block) := by
  have count := holds.count
  have bounded := holds.bounded
  rcases given : ledger.given with _ | ⟨newest, older⟩
  · rw [given, List.length_nil, Nat.zero_add] at count
    have noneGiven : ∀ newest older, ledger.given ≠ newest :: older := by simp [given]
    by_cases left : bumped < layout.capacity
    · obtain ⟨after, taken, next, kept⟩ := holds.take_bumped given left
      have nonzero := Nat.ne_of_gt (layout.block_range left).1
      refine ⟨⟨after, _, taken, ?_, ?_, kept⟩, after, _, _, taken, next⟩
      · exact iff_of_false nonzero (Nat.ne_of_lt (count ▸ left))
      · exact fun newest older some => absurd some (noneGiven newest older)
    · have exhausted : bumped = layout.capacity := by omega
      have taken := holds.take_exhausted given exhausted
      refine ⟨⟨memory, 0, taken, ?_, ?_, ?_⟩, memory, 0, bumped, taken, holds⟩
      · exact iff_of_true rfl (count.trans exhausted)
      · exact fun newest older some => absurd some (noneGiven newest older)
      · exact fun other member offset bound => rfl
  · rw [given, List.length_cons] at count
    obtain ⟨after, taken, next, kept⟩ := holds.take_given given
    have nonzero : newest ≠ 0 := holds.member_ne_zero (by simp [given])
    have fewer : ledger.outstanding.length ≠ layout.capacity := by omega
    refine ⟨⟨after, newest, taken, ?_, ?_, kept⟩, after, newest, bumped, taken, next⟩
    · exact iff_of_false nonzero fewer
    · intro first rest split
      rw [given, List.cons.injEq] at split
      exact ⟨split.1, next.bumpedBlocks_eq.trans holds.bumpedBlocks_eq.symm⟩

end Holds

theorem InOrder.step {layout : PoolLayout} {state : PoolState} {op : PoolOp}
    (inOrder : InOrder layout state) (own : OwnBlocks layout.elemSize state op) :
    StepRight layout.pool layout.capacity layout.elemSize state op ∧
      ∃ after, poolStep layout.pool state op = some after ∧ InOrder layout after := by
  obtain ⟨memory, ledger⟩ := state
  obtain ⟨bumped, holds⟩ := inOrder
  cases op with
  | take =>
      obtain ⟨right, after, block, moreBumped, taken, next⟩ := holds.take
      exact ⟨right, (after, ledger.took block), by simp only [poolStep, taken], moreBumped, next⟩
  | give block =>
      obtain ⟨after, gave, next, kept⟩ := holds.give own
      exact ⟨⟨after, gave, kept⟩, (after, ledger.gave block), by simp only [poolStep, gave],
        bumped, next⟩
  | write address byte =>
      exact ⟨trivial, _, rfl, bumped, holds.write own⟩

theorem run_inOrder {layout : PoolLayout} {state : PoolState} {ops : List PoolOp}
    (inOrder : InOrder layout state)
    (own : Along (poolStep layout.pool) (OwnBlocks layout.elemSize) state ops) :
    ∃ after, run (poolStep layout.pool) state ops = some after ∧ InOrder layout after :=
  run_invariant (InOrder layout) (fun _ _ held owned => (held.step owned).2) inOrder own

section MakePool

variable {Heap : Type} {malloc : Malloc Heap} {live : Heap → List (Nat × Nat)}
  {heap used : Heap} {memory after : Memory} {capacity elemSize pool : Nat}

theorem arena_size (fits : Arena.bytes + capacity * elemSize < 2 ^ 31) :
    arenaRequest capacity elemSize = Arena.bytes + capacity * elemSize := by
  unfold arenaRequest toSizeT toInt Arena.bytes at *
  generalize capacity * elemSize = product at *
  omega

theorem stored_holds (layout : PoolLayout) (memory : Memory) (sized : layout.elemSize < 2 ^ 64) :
    Holds layout 0
      (storedPool memory layout.pool layout.arena layout.capacity layout.elemSize) ⟨[], []⟩ := by
  have arenaEnd := layout.arenaEnd
  have separate := layout.separate
  have apart : Apart layout.arena Arena.bytes layout.pool Pool.bytes := by
    unfold Apart at *
    omega
  have pointer : layout.arena < 2 ^ 64 := by
    unfold Arena.bytes at arenaEnd
    omega
  obtain ⟨arena, freeList, elemSize, length, capacity⟩ :=
    storedPool_members layout.capacity_lt sized pointer (Nat.ne_of_gt layout.arenaAddress) apart
  exact {
    elemSize := elemSize
    length := length
    capacity := capacity
    arena := arena
    freeList := by
      rw [freeList]
      rfl
    bounded := Nat.zero_le _
    accounted := List.Perm.refl _ }

/-- The whole arena lies in the address space, apart from the pool. -/
def ArenaClear (pool arena capacity elemSize : Nat) : Prop :=
  arena + Arena.bytes + capacity * elemSize ≤ 2 ^ 64 ∧
    Apart pool Pool.bytes arena (Arena.bytes + capacity * elemSize)

theorem makePool_clear (allocates : Allocates malloc live)
    (fits : Arena.bytes + capacity * elemSize < 2 ^ 31) (wordFits : wordBytes ≤ elemSize)
    (made : bunuelMakePool malloc heap memory capacity elemSize = .ok (after, used, pool))
    (poolMade : pool ≠ 0) (arenaMade : loadWord after (Pool.arena pool) ≠ 0) :
    ArenaClear pool (loadWord after (Pool.arena pool)) capacity elemSize := by
  obtain ⟨middle, arena, poolBlock, arenaBlock, rfl⟩ := makePool_made wordFits made poolMade
  have recorded := allocates.recorded heap Pool.bytes
  have arenaInside := allocates.inside middle (arenaRequest capacity elemSize)
  have apart := allocates.apart middle (arenaRequest capacity elemSize)
  rw [poolBlock] at recorded
  rw [arenaBlock, arena_size fits] at arenaInside apart
  obtain ⟨nonzero, stored⟩ := storedPool_arena (by omega) arenaMade
  have separate := apart nonzero (pool, Pool.bytes) (recorded poolMade ▸ List.mem_cons_self)
  rw [stored]
  exact ⟨Nat.add_assoc _ _ _ ▸ arenaInside nonzero, separate.symm⟩

theorem makePool_layout (allocates : Allocates malloc live) (wordFits : wordBytes ≤ elemSize)
    (sized : elemSize < 2 ^ 64)
    (made : bunuelMakePool malloc heap memory capacity elemSize = .ok (after, used, pool))
    (poolMade : pool ≠ 0) (arenaMade : loadWord after (Pool.arena pool) ≠ 0)
    (clear : ArenaClear pool (loadWord after (Pool.arena pool)) capacity elemSize) :
    ∃ layout : PoolLayout, layout.pool = pool ∧
      layout.arena = loadWord after (Pool.arena pool) ∧ layout.capacity = capacity ∧
      layout.elemSize = elemSize ∧ Holds layout 0 after ⟨[], []⟩ := by
  obtain ⟨middle, arena, poolBlock, arenaBlock, rfl⟩ := makePool_made wordFits made poolMade
  have poolInside := allocates.inside heap Pool.bytes
  have arenaInside := allocates.inside middle (arenaRequest capacity elemSize)
  rw [poolBlock] at poolInside
  rw [arenaBlock] at arenaInside
  obtain ⟨nonzero, stored⟩ := storedPool_arena (by omega) arenaMade
  rw [stored] at clear ⊢
  let layout : PoolLayout := {
    pool := pool
    arena := arena
    capacity := capacity
    elemSize := elemSize
    wordFits := wordFits
    poolAddress := Nat.pos_of_ne_zero poolMade
    poolEnd := poolInside poolMade
    arenaAddress := Nat.pos_of_ne_zero nonzero
    arenaEnd := clear.1
    separate := clear.2 }
  exact ⟨layout, rfl, rfl, rfl, rfl, stored_holds layout memory sized⟩

theorem makePool_holds (allocates : Allocates malloc live) (wordFits : wordBytes ≤ elemSize)
    (sized : elemSize < 2 ^ 64) (fits : Arena.bytes + capacity * elemSize < 2 ^ 31)
    (made : bunuelMakePool malloc heap memory capacity elemSize = .ok (after, used, pool))
    (poolMade : pool ≠ 0) (arenaMade : loadWord after (Pool.arena pool) ≠ 0) :
    ∃ layout : PoolLayout, layout.pool = pool ∧
      layout.arena = loadWord after (Pool.arena pool) ∧ layout.capacity = capacity ∧
      layout.elemSize = elemSize ∧ Holds layout 0 after ⟨[], []⟩ :=
  makePool_layout allocates wordFits sized made poolMade arenaMade
    (makePool_clear allocates fits wordFits made poolMade arenaMade)

/-- A pool that was made, with its arena, serves every run of a client that keeps to the blocks
it has. -/
theorem pool_allocates {ops : List PoolOp} (allocates : Allocates malloc live)
    (wordFits : wordBytes ≤ elemSize) (sized : elemSize < 2 ^ 64)
    (fits : Arena.bytes + capacity * elemSize < 2 ^ 31)
    (made : bunuelMakePool malloc heap memory capacity elemSize = .ok (after, used, pool))
    (poolMade : pool ≠ 0) (arenaMade : loadWord after (Pool.arena pool) ≠ 0)
    (own : Along (poolStep pool) (OwnBlocks elemSize) (after, ⟨[], []⟩) ops) :
    Along (poolStep pool) (StepRight pool capacity elemSize) (after, ⟨[], []⟩) ops ∧
      ∃ final, run (poolStep pool) (after, ⟨[], []⟩) ops = some final ∧
        PoolSound pool (loadWord after (Pool.arena pool)) capacity elemSize final := by
  obtain ⟨layout, rfl, arena, rfl, rfl, initially⟩ :=
    makePool_holds allocates wordFits sized fits made poolMade arenaMade
  rw [← arena]
  have start : InOrder layout (after, ⟨[], []⟩) := ⟨0, initially⟩
  constructor
  · apply along_of_invariant (InOrder layout)
      (fun state op inOrder owned => (inOrder.step owned).1) ?_ start own
    intro state op next inOrder owned stepped
    obtain ⟨-, next', stepped', held⟩ := inOrder.step owned
    rw [stepped, Option.some.injEq] at stepped'
    exact stepped' ▸ held
  · obtain ⟨final, ran, bumped, held⟩ := run_inOrder start own
    exact ⟨final, ran, held.sound⟩

end MakePool

def freshStart (heap : List (Nat × Nat)) : Nat :=
  (heap.foldr (fun region top => max (region.1 + region.2) top) 1 + 15) / 16 * 16

def freshMalloc : Malloc (List (Nat × Nat)) := fun heap size =>
  if freshStart heap + size ≤ 2 ^ 64 then (freshStart heap, (freshStart heap, size) :: heap)
  else (0, heap)

theorem le_freshStart {heap : List (Nat × Nat)} {region : Nat × Nat} (member : region ∈ heap) :
    region.1 + region.2 ≤ freshStart heap := by
  have below : region.1 + region.2 ≤
      heap.foldr (fun region top => max (region.1 + region.2) top) 1 := by
    induction heap with
    | nil => simp at member
    | cons first rest ih =>
        rcases List.mem_cons.mp member with rfl | later
        · exact Nat.le_max_left _ _
        · exact Nat.le_trans (ih later) (Nat.le_max_right _ _)
  unfold freshStart
  omega

theorem freshStart_pos (heap : List (Nat × Nat)) : 0 < freshStart heap := by
  have one : 1 ≤ heap.foldr (fun region top => max (region.1 + region.2) top) 1 := by
    induction heap with
    | nil => exact Nat.le_refl 1
    | cons first rest ih => exact Nat.le_trans ih (Nat.le_max_right _ _)
  unfold freshStart
  omega

theorem freshMalloc_some {heap : List (Nat × Nat)} {size : Nat}
    (nonzero : (freshMalloc heap size).1 ≠ 0) :
    freshMalloc heap size = (freshStart heap, (freshStart heap, size) :: heap) ∧
      freshStart heap + size ≤ 2 ^ 64 := by
  unfold freshMalloc at *
  split at nonzero
  case isTrue room => exact ⟨if_pos room, room⟩
  case isFalse => exact absurd rfl nonzero

theorem freshMalloc_allocates : Allocates freshMalloc id where
  inside heap size nonzero := by
    obtain ⟨allocated, room⟩ := freshMalloc_some nonzero
    rw [allocated]
    exact room
  apart heap size nonzero region member := by
    rw [(freshMalloc_some nonzero).1]
    exact Or.inr (le_freshStart member)
  recorded heap size nonzero := by
    rw [(freshMalloc_some nonzero).1]
    rfl

theorem freshMalloc_aligned (heap : List (Nat × Nat)) (size : Nat) :
    16 ∣ (freshMalloc heap size).1 := by
  unfold freshMalloc
  split
  case isTrue => exact Nat.dvd_mul_left 16 _
  case isFalse => exact Nat.dvd_zero 16

def twoBlocks : Memory :=
  storeWord (storeWord (storeWord (storeWord (storeWord (fun _ => 0) 16 0) 32 8) 40 0) 48 2) 24 32

theorem pool_allocates_two :
    Along (poolStep 16) (StepRight 16 2 8) (twoBlocks, ⟨[], []⟩)
        [.take, .take, .write 60 7, .give 56, .take, .give 64, .take, .take] ∧
      ∃ final, run (poolStep 16) (twoBlocks, ⟨[], []⟩)
        [.take, .take, .write 60 7, .give 56, .take, .give 64, .take, .take] = some final ∧
        PoolSound 16 (loadWord twoBlocks (Pool.arena 16)) 2 8 final :=
  pool_allocates freshMalloc_allocates (by decide) (by decide) (by decide)
    (show bunuelMakePool freshMalloc [] (fun _ => 0) 2 8 = .ok (twoBlocks, [(32, 40), (16, 16)], 16)
      from rfl)
    (by decide) (by decide +kernel) (by decide +kernel)

end YakUnshorn
