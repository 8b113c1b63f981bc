import YakUnshorn.PoolWipes

/-!
Alignment of the blocks of a pool, which hold a link while they are free.
-/

namespace YakUnshorn

open ByteMemory StepRuns

/-- A take returns no block, or one that is aligned for a pointer. -/
def TakesAligned (pool : Nat) (state : PoolState) : PoolCall → Prop
  | .op .take => ∀ after block, bunuelTakePool state.1 pool = .ok (after, block) → block ≠ 0 →
      wordBytes ∣ block
  | _ => True

theorem Holds.takes_block {layout : PoolLayout} {bumped : Nat} {memory : Memory}
    {ledger : Ledger} (holds : Holds layout bumped memory ledger)
    (nonzero : (layout.takes bumped ledger).1 ≠ 0) :
    ∃ i < layout.capacity, (layout.takes bumped ledger).1 = layout.block i := by
  unfold PoolLayout.takes at *
  split at nonzero
  case h_1 newest older given => exact holds.mem_block (by simp [given])
  case h_2 given =>
    split at nonzero
    case isTrue left => exact ⟨bumped, left, by rw [if_pos left]⟩
    case isFalse => exact absurd rfl nonzero

theorem InOrder.takes_aligned {layout : PoolLayout} {state : PoolState}
    (inOrder : InOrder layout state)
    (aligned : ∀ i < layout.capacity, wordBytes ∣ layout.block i) (call : PoolCall) :
    TakesAligned layout.pool state call := by
  obtain ⟨bumped, holds⟩ := inOrder
  match call with
  | .op .take =>
      intro after block taken nonzero
      obtain ⟨next, exact, -⟩ := holds.takes
      rw [taken, Except.ok.injEq, Prod.mk.injEq] at exact
      rw [exact.2] at nonzero ⊢
      obtain ⟨i, bound, same⟩ := holds.takes_block nonzero
      exact same ▸ aligned i bound
  | .op (.give _) => trivial
  | .op (.write _ _) => trivial
  | .wipe => trivial

theorem PoolLayout.blocks_aligned_iff {layout : PoolLayout} (arena : 16 ∣ layout.arena) :
    (∀ i < layout.capacity, wordBytes ∣ layout.block i) ↔
      wordBytes ∣ layout.elemSize ∨ layout.capacity ≤ 1 := by
  have header : wordBytes ∣ Arena.data layout.arena := by
    unfold wordBytes Arena.data Arena.bytes
    omega
  constructor
  · intro aligned
    by_cases several : layout.capacity ≤ 1
    · exact Or.inr several
    · have second := aligned 1 (Nat.lt_of_not_le several)
      rw [PoolLayout.block, Nat.one_mul] at second
      exact Or.inl ((Nat.dvd_add_right header).mp second)
  · rintro (whole | single) i bound
    · exact Nat.dvd_add header (Nat.dvd_mul_left_of_dvd whole i)
    · rw [PoolLayout.block, show i = 0 by omega, Nat.zero_mul]
      exact header

theorem Holds.run_takes {layout : PoolLayout} {memory : Memory}
    (holds : Holds layout 0 memory ⟨[], []⟩) {n : Nat} (left : n ≤ layout.capacity) :
    ∃ after ledger, run (poolCallStep layout.pool) (memory, ⟨[], []⟩)
        (List.replicate n (.op .take)) = some (after, ledger) ∧
      ledger.given = [] ∧ Holds layout n after ledger := by
  induction n with
  | zero => exact ⟨memory, ⟨[], []⟩, rfl, rfl, holds⟩
  | succ n ih =>
      obtain ⟨middle, ledger, ran, given, held⟩ := ih (Nat.le_of_succ_le left)
      obtain ⟨after, taken, next, -⟩ := held.take_bumped given left
      refine ⟨after, ledger.took (layout.block n), ?_, ?_, next⟩
      · rw [List.replicate_succ', run_append, ran]
        simp [run, poolCallStep, poolStep, taken]
      · unfold Ledger.took
        split
        case isTrue => exact given
        case isFalse => rw [given, List.erase_nil]

theorem Holds.aligned_of_takes {layout : PoolLayout} {memory : Memory}
    (holds : Holds layout 0 memory ⟨[], []⟩)
    (aligned : ∀ calls, Along (poolCallStep layout.pool) (OwnCalls layout.elemSize)
        (memory, ⟨[], []⟩) calls →
      Along (poolCallStep layout.pool) (TakesAligned layout.pool) (memory, ⟨[], []⟩) calls)
    {i : Nat} (bound : i < layout.capacity) : wordBytes ∣ layout.block i := by
  obtain ⟨middle, ledger, ran, given, held⟩ := holds.run_takes (Nat.le_of_lt bound)
  obtain ⟨after, taken, -⟩ := held.take_bumped given bound
  have reached : Reaches (poolCallStep layout.pool) (OwnCalls layout.elemSize)
      (memory, ⟨[], []⟩) (middle, ledger) := by
    refine ⟨_, Along.of_forall fun call member state => ?_, ran⟩
    rw [(List.mem_replicate.mp member).2]
    trivial
  have own : OwnCalls layout.elemSize (middle, ledger) (.op .take) := trivial
  exact reached.good_after own aligned after _ taken (Nat.ne_of_gt (layout.block_range bound).1)

section MakePool

variable {Heap : Type} {malloc : Malloc Heap} {live : Heap → List (Nat × Nat)}
  {heap used : Heap} {memory after : Memory} {capacity elemSize pool : Nat}

theorem makePool_aligned (aligned : ∀ heap size, 16 ∣ (malloc heap size).1)
    (allocates : Allocates malloc live) (wordFits : wordBytes ≤ elemSize)
    (made : bunuelMakePool malloc heap memory capacity elemSize = .ok (after, used, pool))
    (poolMade : pool ≠ 0) (arenaMade : loadWord after (Pool.arena pool) ≠ 0) :
    16 ∣ loadWord after (Pool.arena pool) := by
  obtain ⟨middle, arena, poolBlock, arenaBlock, rfl⟩ := makePool_made wordFits made poolMade
  have whole := aligned middle (arenaRequest capacity elemSize)
  have inside := allocates.inside middle (arenaRequest capacity elemSize)
  rw [arenaBlock] at whole inside
  rwa [(storedPool_arena (by omega) arenaMade).2]

/-- The blocks of a pool whose arena lies clear of it are aligned in all runs exactly when the
size keeps them aligned, or there is only one. -/
theorem takes_aligned_iff (aligned : ∀ heap size, 16 ∣ (malloc heap size).1)
    (allocates : Allocates malloc live) (wordFits : wordBytes ≤ elemSize)
    (sized : elemSize < 2 ^ 64)
    (made : bunuelMakePool malloc heap memory capacity elemSize = .ok (after, used, pool))
    (poolMade : pool ≠ 0) (arenaMade : loadWord after (Pool.arena pool) ≠ 0)
    (clear : ArenaClear pool (loadWord after (Pool.arena pool)) capacity elemSize) :
    (∀ calls, Along (poolCallStep pool) (OwnCalls elemSize) (after, ⟨[], []⟩) calls →
        Along (poolCallStep pool) (TakesAligned pool) (after, ⟨[], []⟩) calls) ↔
      wordBytes ∣ elemSize ∨ capacity ≤ 1 := by
  have whole := makePool_aligned aligned allocates wordFits made poolMade arenaMade
  obtain ⟨layout, rfl, arena, rfl, rfl, holds⟩ :=
    makePool_layout allocates wordFits sized made poolMade arenaMade clear
  rw [← PoolLayout.blocks_aligned_iff (arena ▸ whole)]
  constructor
  · exact fun kept i bound => holds.aligned_of_takes kept bound
  · intro blocks calls own
    have start : InOrder layout (after, ⟨[], []⟩) := ⟨0, holds⟩
    exact start.along (fun _ call inOrder => inOrder.takes_aligned blocks call) own

end MakePool

theorem takes_aligned_iff_two :
    (∀ calls, Along (poolCallStep 16) (OwnCalls 8) (twoBlocks, ⟨[], []⟩) calls →
        Along (poolCallStep 16) (TakesAligned 16) (twoBlocks, ⟨[], []⟩) calls) ↔
      wordBytes ∣ 8 ∨ 2 ≤ 1 :=
  takes_aligned_iff freshMalloc_aligned freshMalloc_allocates (by decide) (by decide)
    (show bunuelMakePool freshMalloc [] (fun _ => 0) 2 8 = .ok (twoBlocks, [(32, 40), (16, 16)], 16)
      from rfl)
    (by decide) (by decide +kernel) (by unfold ArenaClear Apart; decide +kernel)

def twelveBytes : Memory := storedPool (fun _ => 0) 16 32 2 12

/-- Two blocks of twelve bytes: the second one is at 68. -/
theorem twelve_byte_blocks_misaligned :
    bunuelMakePool freshMalloc [] (fun _ => 0) 2 12 =
        .ok (twelveBytes, [(32, 48), (16, 16)], 16) ∧
      Along (poolCallStep 16) (OwnCalls 12) (twelveBytes, ⟨[], []⟩) [.op .take, .op .take] ∧
      ¬Along (poolCallStep 16) (TakesAligned 16) (twelveBytes, ⟨[], []⟩)
        [.op .take, .op .take] := by
  have first : bunuelTakePool twelveBytes 16 = .ok (storeWord twelveBytes 40 1, 56) := by rfl
  have second : bunuelTakePool (storeWord twelveBytes 40 1) 16 =
      .ok (storeWord (storeWord twelveBytes 40 1) 40 2, 68) := by rfl
  refine ⟨by rfl, Along.of_forall (by simp [OwnCalls, OwnBlocks]), ?_⟩
  rintro ⟨-, later⟩
  have stepped : poolCallStep 16 (twelveBytes, ⟨[], []⟩) (.op .take) =
      some (storeWord twelveBytes 40 1, ⟨[56], []⟩) := by
    simp [poolCallStep, poolStep, first, Ledger.took]
  have aligned := (later _ stepped).1 _ 68 second (by decide)
  revert aligned
  decide

end YakUnshorn
