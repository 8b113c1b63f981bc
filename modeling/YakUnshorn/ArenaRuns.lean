import YakUnshorn.PoolRuns

/-!
Runs that bump and wipe an arena, and the sizes for which its blocks stay inside of what was
asked of `malloc`.
-/

namespace YakUnshorn

open ByteMemory CMachine StepRuns

inductive ArenaOp
  | bump
  | wipe
  deriving Repr, DecidableEq

/-- The memory, and the blocks returned since the last wipe, newest first. -/
abbrev ArenaState := Memory × List Nat

def arenaStep (arena : Nat) (state : ArenaState) : ArenaOp → Option ArenaState
  | .bump =>
      match bunuelBumpArena state.1 arena with
      | .error _ => none
      | .ok (memory, block) => some (memory, if block = 0 then state.2 else block :: state.2)
  | .wipe =>
      match bunuelWipeArena state.1 arena with
      | .error _ => none
      | .ok memory => some (memory, [])

/-- A block lies in the bytes that `malloc` was asked for, apart from the others, and there is
none exactly when as many as the capacity have been returned. -/
def ArenaRight (arena capacity elemSize : Nat) (state : ArenaState) : ArenaOp → Prop
  | .bump => ∃ after block, bunuelBumpArena state.1 arena = .ok (after, block) ∧
      (block = 0 ↔ state.2.length = capacity) ∧
      (block ≠ 0 → arena ≤ block ∧
        block + elemSize ≤ arena + arenaRequest capacity elemSize ∧
        ∀ other ∈ state.2, Apart block elemSize other elemSize)
  | .wipe => ∃ after, bunuelWipeArena state.1 arena = .ok after

/-- The product and the header fit in an `int`; or the `int` comes out negative, so that nearly
the whole address space is asked for, and they fit in a `size_t`. -/
def ArenaFits (capacity elemSize : Nat) : Prop :=
  capacity * elemSize + Arena.bytes < 2 ^ 31 ∨
    2 ^ 31 ≤ (capacity * elemSize + Arena.bytes) % 2 ^ 32 ∧
      capacity * elemSize + Arena.bytes < 2 ^ 64

theorem arenaRequest_covers (capacity elemSize : Nat) :
    Arena.bytes + capacity * elemSize ≤ arenaRequest capacity elemSize ↔
      ArenaFits capacity elemSize := by
  unfold ArenaFits arenaRequest toSizeT toInt Arena.bytes
  generalize capacity * elemSize = product
  omega

def arenaBlock (arena elemSize i : Nat) : Nat := Arena.data arena + i * elemSize

/-- The members of the arena are in place, and the blocks returned are the ones that were
bumped. -/
structure ArenaHolds (arena capacity elemSize : Nat) (state : ArenaState) : Prop where
  sized : loadWord state.1 (Arena.elemSize arena) = elemSize
  counted : loadWord state.1 (Arena.length arena) = state.2.length
  capped : loadWord state.1 (Arena.capacity arena) = capacity
  bounded : state.2.length ≤ capacity
  bumped : ∀ block ∈ state.2, ∃ i < state.2.length, block = arenaBlock arena elemSize i

theorem arenaBlock_apart {arena elemSize i j : Nat} (before : i < j) :
    Apart (arenaBlock arena elemSize j) elemSize (arenaBlock arena elemSize i) elemSize := by
  have whole := Nat.mul_le_mul_right elemSize (Nat.succ_le_of_lt before)
  rw [Nat.succ_mul] at whole
  unfold Apart arenaBlock
  omega

namespace ArenaHolds

variable {arena capacity elemSize : Nat} {state : ArenaState}

theorem relength (holds : ArenaHolds arena capacity elemSize state) (blocks : List Nat)
    (fits : capacity < 2 ^ 64) (bounded : blocks.length ≤ capacity)
    (bumped : ∀ block ∈ blocks, ∃ i < blocks.length, block = arenaBlock arena elemSize i) :
    ArenaHolds arena capacity elemSize
      (storeWord state.1 (Arena.length arena) blocks.length, blocks) where
  sized := by
    rw [loadWord_storeWord_apart, holds.sized]
    exact Or.inl (Nat.le_refl _)
  counted := loadWord_storeWord (Nat.lt_of_le_of_lt bounded fits)
  capped := by
    rw [loadWord_storeWord_apart, holds.capped]
    exact Or.inr (Nat.le_refl _)
  bounded := bounded
  bumped := bumped

theorem bump (holds : ArenaHolds arena capacity elemSize state) (nonzero : arena ≠ 0)
    (left : state.2.length < capacity) :
    bunuelBumpArena state.1 arena =
      .ok (storeWord state.1 (Arena.length arena) (state.2.length + 1),
        (Arena.data arena + state.2.length * elemSize % 2 ^ 64) % 2 ^ 64) :=
  bumpArena_next nonzero holds.sized holds.counted holds.capped left

theorem bump_exhausted (holds : ArenaHolds arena capacity elemSize state) (nonzero : arena ≠ 0)
    (exhausted : state.2.length = capacity) :
    bunuelBumpArena state.1 arena = .ok (state.1, 0) :=
  bumpArena_full nonzero (holds.counted.trans exhausted) holds.capped

theorem bump_inside (holds : ArenaHolds arena capacity elemSize state) (nonzero : arena ≠ 0)
    (left : state.2.length < capacity)
    (inside : arenaBlock arena elemSize state.2.length < 2 ^ 64) :
    bunuelBumpArena state.1 arena =
      .ok (storeWord state.1 (Arena.length arena) (state.2.length + 1),
        arenaBlock arena elemSize state.2.length) := by
  have offset : state.2.length * elemSize < 2 ^ 64 := by
    unfold arenaBlock at inside
    omega
  rw [holds.bump nonzero left, Nat.mod_eq_of_lt offset]
  exact congrArg (fun block => Except.ok (_, block)) (Nat.mod_eq_of_lt inside)

theorem bumped_more (holds : ArenaHolds arena capacity elemSize state)
    (fits : capacity < 2 ^ 64) (left : state.2.length < capacity) :
    ArenaHolds arena capacity elemSize
      (storeWord state.1 (Arena.length arena) (state.2.length + 1),
        arenaBlock arena elemSize state.2.length :: state.2) := by
  apply holds.relength (arenaBlock arena elemSize state.2.length :: state.2) fits left
  intro block member
  rw [List.length_cons]
  rcases List.mem_cons.mp member with rfl | earlier
  · exact ⟨state.2.length, Nat.lt_succ_self _, rfl⟩
  · obtain ⟨i, bound, same⟩ := holds.bumped block earlier
    exact ⟨i, Nat.lt_succ_of_lt bound, same⟩

theorem step_bump (holds : ArenaHolds arena capacity elemSize state) (nonzero : arena ≠ 0)
    (fits : capacity < 2 ^ 64) (left : state.2.length < capacity)
    (inside : arenaBlock arena elemSize state.2.length < 2 ^ 64) :
    ∃ after, arenaStep arena state .bump = some after ∧
      ArenaHolds arena capacity elemSize after ∧ after.2.length = state.2.length + 1 := by
  have block : arenaBlock arena elemSize state.2.length ≠ 0 := by
    unfold arenaBlock Arena.data Arena.bytes
    omega
  refine ⟨_, ?_, holds.bumped_more fits left, rfl⟩
  simp only [arenaStep, holds.bump_inside nonzero left inside, if_neg block]

/-- Where the whole arena was asked for, every operation does well and keeps the members. -/
theorem step (holds : ArenaHolds arena capacity elemSize state) (nonzero : arena ≠ 0)
    (fits : capacity < 2 ^ 64) (inside : arena + arenaRequest capacity elemSize < 2 ^ 64)
    (covers : Arena.bytes + capacity * elemSize ≤ arenaRequest capacity elemSize)
    (op : ArenaOp) :
    ArenaRight arena capacity elemSize state op ∧
      ∃ after, arenaStep arena state op = some after ∧
        ArenaHolds arena capacity elemSize after := by
  cases op with
  | wipe =>
      have wiped : bunuelWipeArena state.1 arena =
          .ok (storeWord state.1 (Arena.length arena) 0) := if_neg nonzero
      have stepped : arenaStep arena state .wipe =
          some (storeWord state.1 (Arena.length arena) 0, []) := by
        simp only [arenaStep, wiped]
      exact ⟨⟨_, wiped⟩, _, stepped, holds.relength [] fits (Nat.zero_le _) (by simp)⟩
  | bump =>
      by_cases left : state.2.length < capacity
      · have whole := Nat.mul_le_mul_right elemSize (Nat.succ_le_of_lt left)
        rw [Nat.succ_mul] at whole
        have lower : arena < arenaBlock arena elemSize state.2.length := by
          unfold arenaBlock Arena.data Arena.bytes
          omega
        have upper : arenaBlock arena elemSize state.2.length + elemSize ≤
            arena + arenaRequest capacity elemSize := by
          unfold arenaBlock Arena.data
          omega
        have taken := holds.bump_inside nonzero left (by omega)
        obtain ⟨after, stepped, next, -⟩ := holds.step_bump nonzero fits left (by omega)
        refine ⟨⟨_, _, taken, ?_, fun _ => ⟨Nat.le_of_lt lower, upper, ?_⟩⟩, after, stepped, next⟩
        · exact iff_of_false (by omega) (Nat.ne_of_lt left)
        · intro other member
          obtain ⟨i, bound, rfl⟩ := holds.bumped other member
          exact arenaBlock_apart bound
      · have exhausted := Nat.le_antisymm holds.bounded (Nat.le_of_not_lt left)
        have taken := holds.bump_exhausted nonzero exhausted
        refine ⟨⟨_, _, taken, iff_of_true rfl exhausted, fun block => absurd rfl block⟩, state, ?_,
          holds⟩
        simp only [arenaStep, taken, if_true]

theorem run_bumps (holds : ArenaHolds arena capacity elemSize state) (nonzero : arena ≠ 0)
    (fits : capacity < 2 ^ 64) (empty : state.2 = []) {n : Nat} (left : n ≤ capacity)
    (inside : ∀ i < n, arenaBlock arena elemSize i < 2 ^ 64) :
    ∃ after, run (arenaStep arena) state (List.replicate n .bump) = some after ∧
      ArenaHolds arena capacity elemSize after ∧ after.2.length = n := by
  induction n with
  | zero => exact ⟨state, rfl, holds, by rw [empty, List.length_nil]⟩
  | succ n ih =>
      obtain ⟨middle, ran, held, count⟩ :=
        ih (Nat.le_of_succ_le left) fun i bound => inside i (Nat.lt_succ_of_lt bound)
      obtain ⟨after, stepped, next, more⟩ :=
        held.step_bump nonzero fits (count ▸ left) (count ▸ inside n (Nat.lt_succ_self n))
      refine ⟨after, ?_, next, count ▸ more⟩
      rw [List.replicate_succ', run_append, ran]
      simp [run, stepped]

theorem covers_of_right (holds : ArenaHolds arena capacity elemSize state) (nonzero : arena ≠ 0)
    (fits : capacity < 2 ^ 64) (empty : state.2 = [])
    (inside : arena + arenaRequest capacity elemSize < 2 ^ 64)
    (right : ∀ ops, Along (arenaStep arena) (ArenaRight arena capacity elemSize) state ops)
    {n : Nat} (left : n < capacity) :
    Arena.bytes + (n + 1) * elemSize ≤ arenaRequest capacity elemSize := by
  induction n with
  | zero =>
      obtain ⟨after, block, taken, null, within⟩ := (right [.bump]).1
      have unused : state.2.length = 0 := by rw [empty, List.length_nil]
      rw [holds.bump nonzero (unused ▸ left), unused, Except.ok.injEq, Prod.mk.injEq] at taken
      have stays := within (mt null.mp (by omega))
      unfold Arena.data Arena.bytes at *
      omega
  | succ n ih =>
      have covered := ih (Nat.lt_of_succ_lt left)
      have below : ∀ i < n + 1, arenaBlock arena elemSize i < 2 ^ 64 := by
        intro i bound
        have whole := Nat.mul_le_mul_right elemSize (Nat.le_of_lt bound)
        unfold arenaBlock Arena.data
        omega
      obtain ⟨middle, ran, held, count⟩ :=
        holds.run_bumps nonzero fits empty (Nat.le_of_lt left) below
      have along := right (List.replicate (n + 1) .bump ++ [.bump])
      obtain ⟨after, block, taken, null, within⟩ := ((along_append.mp along).2 _ ran).1
      have here : arenaBlock arena elemSize (n + 1) < 2 ^ 64 := by
        unfold arenaBlock Arena.data
        omega
      rw [held.bump_inside nonzero (count ▸ left) (count ▸ here), count, Except.ok.injEq,
        Prod.mk.injEq] at taken
      have stays := within (mt null.mp (by omega))
      rw [← taken.2] at stays
      unfold arenaBlock Arena.data at stays
      have whole : (n + 1 + 1) * elemSize = (n + 1) * elemSize + elemSize := Nat.succ_mul _ _
      omega

end ArenaHolds

section MakeArena

variable {Heap : Type} {malloc : Malloc Heap} {heap used : Heap} {memory after : Memory}
  {capacity elemSize arena : Nat}

theorem makeArena_holds (capacityFits : capacity < 2 ^ 64) (elemFits : elemSize < 2 ^ 64)
    (made : bunuelMakeArena malloc heap memory capacity elemSize = (after, used, arena))
    (nonzero : arena ≠ 0) : ArenaHolds arena capacity elemSize (after, []) := by
  rcases allocated : malloc heap (arenaRequest capacity elemSize) with ⟨address, rest⟩
  simp only [bunuelMakeArena_request, allocated] at made
  by_cases null : address = 0
  · rw [if_pos null, Prod.mk.injEq, Prod.mk.injEq] at made
    exact absurd made.2.2.symm nonzero
  simp only [if_neg null, Prod.mk.injEq] at made
  obtain ⟨rfl, -, rfl⟩ := made
  constructor
  case capped => exact loadWord_storeWord capacityFits
  case bounded => exact Nat.zero_le _
  case bumped => simp
  case' sized =>
      rw [loadWord_storeWord_apart, loadWord_storeWord_apart, loadWord_storeWord elemFits]
  case' counted => rw [loadWord_storeWord_apart, loadWord_storeWord (by decide), List.length_nil]
  all_goals
    unfold Apart wordBytes
    simp only [Arena.elemSize, Arena.length, Arena.capacity]
    omega

/-- The blocks of an arena that was made stay inside of it in all runs exactly when the whole
arena was asked for. -/
theorem arena_right_iff (capacityFits : capacity < 2 ^ 64) (elemFits : elemSize < 2 ^ 64)
    (made : bunuelMakeArena malloc heap memory capacity elemSize = (after, used, arena))
    (nonzero : arena ≠ 0) (inside : arena + arenaRequest capacity elemSize < 2 ^ 64) :
    (∀ ops, Along (arenaStep arena) (ArenaRight arena capacity elemSize) (after, []) ops) ↔
      ArenaFits capacity elemSize := by
  have holds := makeArena_holds capacityFits elemFits made nonzero
  rw [← arenaRequest_covers]
  constructor
  · intro right
    rcases capacity with _ | last
    · rw [arenaRequest_covers, ArenaFits, Nat.zero_mul]
      exact Or.inl (by decide)
    · exact holds.covers_of_right nonzero capacityFits rfl inside right (Nat.lt_succ_self last)
  · intro covers ops
    refine along_of_invariant (ArenaHolds arena capacity elemSize)
      (fun state op held _ => (held.step nonzero capacityFits inside covers op).1) ?_ holds
      (Along.of_forall fun _ _ _ => trivial)
    intro state op next held _ stepped
    obtain ⟨-, next', stepped', kept⟩ := held.step nonzero capacityFits inside covers op
    rw [stepped, Option.some.injEq] at stepped'
    exact stepped' ▸ kept

end MakeArena

def madeArena (capacity elemSize : Nat) : Memory :=
  storeWord (storeWord (storeWord (fun _ => 0) 16 elemSize) 24 0) 32 capacity

theorem arena_right_iff_three :
    (∀ ops, Along (arenaStep 16) (ArenaRight 16 3 12) (madeArena 3 12, []) ops) ↔
      ArenaFits 3 12 :=
  arena_right_iff (by decide) (by decide)
    (show bunuelMakeArena freshMalloc [] (fun _ => 0) 3 12 = (madeArena 3 12, [(16, 60)], 16)
      from rfl)
    (by decide) (by decide)

/-- `2 ^ 32` blocks of one byte: only the header is asked for, and the first block is behind
it. -/
theorem short_arena_overruns :
    bunuelMakeArena freshMalloc [] (fun _ => 0) (2 ^ 32) 1 =
        (madeArena (2 ^ 32) 1, [(16, 24)], 16) ∧
      bunuelBumpArena (madeArena (2 ^ 32) 1) 16 =
        .ok (storeWord (madeArena (2 ^ 32) 1) 24 1, 40) ∧
      ¬Along (arenaStep 16) (ArenaRight 16 (2 ^ 32) 1) (madeArena (2 ^ 32) 1, []) [.bump] := by
  have bumped : bunuelBumpArena (madeArena (2 ^ 32) 1) 16 =
      .ok (storeWord (madeArena (2 ^ 32) 1) 24 1, 40) := by rfl
  refine ⟨by rfl, bumped, ?_⟩
  rintro ⟨⟨after, block, taken, -, within⟩, -⟩
  rw [bumped, Except.ok.injEq, Prod.mk.injEq] at taken
  have upper := (within (by omega)).2.1
  rw [← taken.2, show arenaRequest (2 ^ 32) 1 = 24 from rfl] at upper
  omega

end YakUnshorn
