import YakUnshorn.PoolRuns

/-!
Pools that are wiped. What a pool does depends on which blocks were bumped, given and taken,
and on nothing else that is in memory, so that a pool is as new after a wipe.
-/

namespace YakUnshorn

open ByteMemory StepRuns

inductive PoolCall
  | op (op : PoolOp)
  | wipe
  deriving Repr, DecidableEq

/-- A wipe takes all blocks back from the client. -/
def poolCallStep (pool : Nat) (state : PoolState) : PoolCall → Option PoolState
  | .op op => poolStep pool state op
  | .wipe =>
      match bunuelWipePool state.1 pool with
      | .error _ => none
      | .ok memory => some (memory, ⟨[], []⟩)

def OwnCalls (elemSize : Nat) (state : PoolState) : PoolCall → Prop
  | .op op => OwnBlocks elemSize state op
  | .wipe => True

/-- The block that a take returns, and the number of bumped blocks behind it. -/
def PoolLayout.takes (layout : PoolLayout) (bumped : Nat) (ledger : Ledger) : Nat × Nat :=
  match ledger.given with
  | newest :: _ => (newest, bumped)
  | [] => if bumped < layout.capacity then (layout.block bumped, bumped + 1) else (0, bumped)

def PoolLayout.advance (layout : PoolLayout) (bumped : Nat) (ledger : Ledger) :
    PoolOp → Nat × Ledger
  | .take =>
      let (block, more) := layout.takes bumped ledger
      (more, ledger.took block)
  | .give block => (bumped, ledger.gave block)
  | .write _ _ => (bumped, ledger)

def takeResult (pool : Nat) (state : PoolState) : PoolOp → List Nat
  | .take =>
      match bunuelTakePool state.1 pool with
      | .error _ => []
      | .ok (_, block) => [block]
  | _ => []

def takeResults (pool : Nat) : PoolState → List PoolOp → Option (List Nat)
  | _, [] => some []
  | state, op :: rest =>
      (poolStep pool state op).bind fun after =>
        (takeResults pool after rest).map (takeResult pool state op ++ ·)

namespace Holds

variable {layout : PoolLayout} {bumped : Nat} {memory : Memory} {ledger : Ledger}

theorem wipe (holds : Holds layout bumped memory ledger) :
    ∃ wiped, bunuelWipePool memory layout.pool = .ok wiped ∧ Holds layout 0 wiped ⟨[], []⟩ := by
  have zeroFits : 0 < 2 ^ 64 := by decide
  have unlisted : SameBytes Arena.bytes memory
      (storeWord memory (Pool.freeList layout.pool) 0) layout.arena :=
    sameBytes_storeWord layout.arena_apart_freeList
  obtain ⟨elemSize, -, capacity⟩ := unlisted.arena_eq
  have arena : loadWord (storeWord memory (Pool.freeList layout.pool) 0)
      (Pool.arena layout.pool) = layout.arena := by
    rw [loadWord_storeWord_apart, holds.arena]
    exact Or.inr (Nat.le_refl _)
  have emptied : SameBytes Pool.bytes (storeWord memory (Pool.freeList layout.pool) 0)
      (storeWord (storeWord memory (Pool.freeList layout.pool) 0)
        (Arena.length layout.arena) 0) layout.pool :=
    sameBytes_storeWord layout.pool_apart_length
  obtain ⟨freeList, kept⟩ := emptied.pool_eq
  refine ⟨storeWord (storeWord memory (Pool.freeList layout.pool) 0)
    (Arena.length layout.arena) 0, ?_, ?_⟩
  · simp only [bunuelWipePool, layout.pool_ne_zero, bunuelWipeArena, arena,
      Nat.ne_of_gt layout.arenaAddress, if_false]
  · exact {
      elemSize := by
        rw [loadWord_storeWord_apart, elemSize, holds.elemSize]
        exact Or.inl (Nat.le_refl _)
      length := loadWord_storeWord zeroFits
      capacity := by
        rw [loadWord_storeWord_apart, capacity, holds.capacity]
        exact Or.inr (Nat.le_refl _)
      arena := kept.trans arena
      freeList := by
        rw [freeList, loadWord_storeWord zeroFits]
        rfl
      bounded := Nat.zero_le _
      accounted := List.Perm.refl _ }

theorem takes (holds : Holds layout bumped memory ledger) :
    ∃ after, bunuelTakePool memory layout.pool =
        .ok (after, (layout.takes bumped ledger).1) ∧
      Holds layout (layout.takes bumped ledger).2 after
        (ledger.took (layout.takes bumped ledger).1) := by
  rcases given : ledger.given with _ | ⟨newest, older⟩
  · by_cases left : bumped < layout.capacity
    · obtain ⟨after, taken, next, -⟩ := holds.take_bumped given left
      simp only [PoolLayout.takes, given, if_pos left]
      exact ⟨after, taken, next⟩
    · have exhausted : bumped = layout.capacity := Nat.le_antisymm holds.bounded (by omega)
      simp only [PoolLayout.takes, given, if_neg left]
      exact ⟨memory, holds.take_exhausted given exhausted, holds⟩
  · obtain ⟨after, taken, next, -⟩ := holds.take_given given
    simp only [PoolLayout.takes, given]
    exact ⟨after, taken, next⟩

theorem advance (holds : Holds layout bumped memory ledger) {op : PoolOp}
    (own : OwnBlocks layout.elemSize (memory, ledger) op) :
    ∃ after, poolStep layout.pool (memory, ledger) op =
        some (after, (layout.advance bumped ledger op).2) ∧
      Holds layout (layout.advance bumped ledger op).1 after
        (layout.advance bumped ledger op).2 := by
  cases op with
  | take =>
      obtain ⟨after, taken, next⟩ := holds.takes
      exact ⟨after, by simp only [poolStep, taken, PoolLayout.advance], next⟩
  | give block =>
      obtain ⟨after, gave, next, -⟩ := holds.give own
      exact ⟨after, by simp only [poolStep, gave, PoolLayout.advance], next⟩
  | write address byte => exact ⟨_, rfl, holds.write own⟩

theorem takeResult_eq (holds : Holds layout bumped memory ledger) (op : PoolOp) :
    takeResult layout.pool (memory, ledger) op =
      if op = .take then [(layout.takes bumped ledger).1] else [] := by
  cases op with
  | take =>
      obtain ⟨after, taken, -⟩ := holds.takes
      simp only [takeResult, taken, if_true]
  | give block => rfl
  | write address byte => rfl

end Holds

theorem OwnCalls.step {layout : PoolLayout} {state : PoolState} {call : PoolCall}
    (own : OwnCalls layout.elemSize state call) (inOrder : InOrder layout state) :
    ∃ after, poolCallStep layout.pool state call = some after ∧ InOrder layout after := by
  cases call with
  | op op => exact (inOrder.step own).2
  | wipe =>
      obtain ⟨bumped, holds⟩ := inOrder
      obtain ⟨wiped, emptied, next⟩ := holds.wipe
      exact ⟨(wiped, ⟨[], []⟩), by simp only [poolCallStep, emptied], 0, next⟩

theorem InOrder.along {layout : PoolLayout} {good : PoolState → PoolCall → Prop}
    (gives : ∀ state call, InOrder layout state → good state call) {state : PoolState}
    {calls : List PoolCall} (inOrder : InOrder layout state)
    (own : Along (poolCallStep layout.pool) (OwnCalls layout.elemSize) state calls) :
    Along (poolCallStep layout.pool) good state calls := by
  refine along_of_invariant (InOrder layout) (fun state call held _ => gives state call held) ?_
    inOrder own
  intro state call next held owned stepped
  obtain ⟨next', stepped', kept⟩ := owned.step held
  rw [stepped, Option.some.injEq] at stepped'
  exact stepped' ▸ kept

structure PoolLayout.SameArena (layout other : PoolLayout) : Prop where
  arena : other.arena = layout.arena
  capacity : other.capacity = layout.capacity
  elemSize : other.elemSize = layout.elemSize

namespace PoolLayout.SameArena

variable {layout other : PoolLayout}

theorem takes_eq (same : layout.SameArena other) (bumped : Nat) (ledger : Ledger) :
    other.takes bumped ledger = layout.takes bumped ledger := by
  simp only [takes, block, same.arena, same.capacity, same.elemSize]

theorem advance_eq (same : layout.SameArena other) (bumped : Nat) (ledger : Ledger)
    (op : PoolOp) : other.advance bumped ledger op = layout.advance bumped ledger op := by
  cases op <;> simp only [advance, same.takes_eq]

/-- Two pools of one arena go on alike from the same ledger, whatever else their memories hold:
the client may do the same with both, and takes the same blocks. -/
theorem runs_alike (same : layout.SameArena other) {bumped : Nat} {memory otherMemory : Memory}
    {ledger : Ledger} {ops : List PoolOp} (holds : Holds layout bumped memory ledger)
    (otherHolds : Holds other bumped otherMemory ledger)
    (own : Along (poolStep layout.pool) (OwnBlocks layout.elemSize) (memory, ledger) ops) :
    Along (poolStep other.pool) (OwnBlocks layout.elemSize) (otherMemory, ledger) ops ∧
      ∃ blocks, takeResults layout.pool (memory, ledger) ops = some blocks ∧
        takeResults other.pool (otherMemory, ledger) ops = some blocks := by
  induction ops generalizing bumped memory otherMemory ledger with
  | nil => exact ⟨trivial, [], rfl, rfl⟩
  | cons op rest ih =>
      have ownOther : OwnBlocks other.elemSize (otherMemory, ledger) op := by
        rw [same.elemSize]
        cases op <;> exact own.1
      obtain ⟨after, stepped, next⟩ := holds.advance own.1
      obtain ⟨otherAfter, otherStepped, otherNext⟩ := otherHolds.advance ownOther
      have result := holds.takeResult_eq op
      have otherResult := otherHolds.takeResult_eq op
      rw [same.advance_eq] at otherStepped otherNext
      rw [same.takes_eq, ← result] at otherResult
      obtain ⟨allowed, blocks, results, otherResults⟩ := ih next otherNext (own.2 _ stepped)
      refine ⟨⟨same.elemSize ▸ ownOther, fun later steps => ?_⟩,
        takeResult layout.pool (memory, ledger) op ++ blocks, ?_, ?_⟩
      · rw [otherStepped, Option.some.injEq] at steps
        exact steps ▸ allowed
      · simp only [takeResults, stepped, Option.bind_some, results, Option.map_some]
      · simp only [takeResults, otherStepped, Option.bind_some, otherResults, Option.map_some,
          otherResult]

end PoolLayout.SameArena

section WipedPool

variable {Heap SecondHeap : Type} {malloc : Malloc Heap} {secondMalloc : Malloc SecondHeap}
  {live : Heap → List (Nat × Nat)} {secondLive : SecondHeap → List (Nat × Nat)}
  {heap used : Heap} {secondHeap secondUsed : SecondHeap}
  {memory after secondMemory fresh : Memory} {capacity elemSize pool freshPool : Nat}

/-- After a wipe a pool gives the blocks that a new pool with its arena gives, whatever was done
with it before. -/
theorem wiped_pool_as_new {earlier : List PoolOp} (allocates : Allocates malloc live)
    (secondAllocates : Allocates secondMalloc secondLive) (wordFits : wordBytes ≤ elemSize)
    (sized : elemSize < 2 ^ 64) (fits : Arena.bytes + capacity * elemSize < 2 ^ 31)
    (made : bunuelMakePool malloc heap memory capacity elemSize = .ok (after, used, pool))
    (poolMade : pool ≠ 0) (arenaMade : loadWord after (Pool.arena pool) ≠ 0)
    (own : Along (poolStep pool) (OwnBlocks elemSize) (after, ⟨[], []⟩) earlier)
    (freshMade : bunuelMakePool secondMalloc secondHeap secondMemory capacity elemSize =
      .ok (fresh, secondUsed, freshPool))
    (freshPoolMade : freshPool ≠ 0)
    (sameArena : loadWord fresh (Pool.arena freshPool) = loadWord after (Pool.arena pool)) :
    ∃ left ledger wiped, run (poolStep pool) (after, ⟨[], []⟩) earlier = some (left, ledger) ∧
      bunuelWipePool left pool = .ok wiped ∧
      ∀ later, Along (poolStep pool) (OwnBlocks elemSize) (wiped, ⟨[], []⟩) later →
        Along (poolStep freshPool) (OwnBlocks elemSize) (fresh, ⟨[], []⟩) later ∧
        ∃ blocks, takeResults pool (wiped, ⟨[], []⟩) later = some blocks ∧
          takeResults freshPool (fresh, ⟨[], []⟩) later = some blocks := by
  have freshArenaMade : loadWord fresh (Pool.arena freshPool) ≠ 0 := by
    rw [sameArena]
    exact arenaMade
  obtain ⟨freshLayout, rfl, freshArena, capacityEq, elemEq, freshHolds⟩ :=
    makePool_holds secondAllocates wordFits sized fits freshMade freshPoolMade freshArenaMade
  obtain ⟨layout, rfl, arena, rfl, rfl, initially⟩ :=
    makePool_holds allocates wordFits sized fits made poolMade arenaMade
  have same : layout.SameArena freshLayout :=
    ⟨freshArena.trans (sameArena.trans arena.symm), capacityEq, elemEq⟩
  obtain ⟨⟨left, ledger⟩, ran, bumped, holds⟩ := run_inOrder ⟨0, initially⟩ own
  obtain ⟨wiped, emptied, wipedHolds⟩ := holds.wipe
  exact ⟨left, ledger, wiped, ran, emptied, fun later owned =>
    same.runs_alike wipedHolds freshHolds owned⟩

end WipedPool

def freshBlocks : Memory :=
  storeWord (storeWord (storeWord (storeWord (storeWord (fun _ => 255) 16 0) 32 8) 40 0) 48 2)
    24 32

theorem wiped_pool_as_new_two :
    ∃ left ledger wiped,
      run (poolStep 16) (twoBlocks, ⟨[], []⟩) [.take, .take, .write 60 7, .give 56] =
        some (left, ledger) ∧
      bunuelWipePool left 16 = .ok wiped ∧
      ∀ later, Along (poolStep 16) (OwnBlocks 8) (wiped, ⟨[], []⟩) later →
        Along (poolStep 16) (OwnBlocks 8) (freshBlocks, ⟨[], []⟩) later ∧
        ∃ blocks, takeResults 16 (wiped, ⟨[], []⟩) later = some blocks ∧
          takeResults 16 (freshBlocks, ⟨[], []⟩) later = some blocks :=
  wiped_pool_as_new freshMalloc_allocates freshMalloc_allocates (by decide) (by decide)
    (by decide)
    (show bunuelMakePool freshMalloc [] (fun _ => 0) 2 8 = .ok (twoBlocks, [(32, 40), (16, 16)], 16)
      from rfl)
    (by decide) (by decide +kernel) (by decide +kernel)
    (show bunuelMakePool freshMalloc [] (fun _ => 255) 2 8 =
      .ok (freshBlocks, [(32, 40), (16, 16)], 16) from rfl)
    (by decide) (by decide +kernel)

end YakUnshorn
