import YakUnshorn.PoolOverruns

/-!
What `bunuel_make_pool` leaves behind for every outcome of its two allocations, and whether the
pool can be used.
-/

namespace YakUnshorn

open ByteMemory StepRuns

def FindsArena (pool : Nat) (state : PoolState) : PoolCall → Prop
  | .op .take => bunuelTakePool state.1 pool ≠ .error .nullDereference
  | .op (.give _) => True
  | .op (.write _ _) => True
  | .wipe => bunuelWipePool state.1 pool ≠ .error .nullDereference

/-- A pool with an arena of the size asked for and no block in the free list, whose arena is
found in every run of a client that keeps to its own blocks. -/
structure PoolUsable (pool capacity elemSize : Nat) (memory : Memory) : Prop where
  made : loadWord memory (Pool.arena pool) ≠ 0
  capped : loadWord memory (Arena.capacity (loadWord memory (Pool.arena pool))) = capacity
  sized : loadWord memory (Arena.elemSize (loadWord memory (Pool.arena pool))) = elemSize
  noneFree : loadWord memory (Pool.freeList pool) = 0
  runs : ∀ calls, Along (poolCallStep pool) (OwnCalls elemSize) (memory, ⟨[], []⟩) calls →
    Along (poolCallStep pool) (FindsArena pool) (memory, ⟨[], []⟩) calls

theorem bumpArena_cases (memory : Memory) (arena : Nat) :
    (∃ fault, bunuelBumpArena memory arena = .error fault ∧
        (arena ≠ 0 → fault = .assertionFailed)) ∨
      bunuelBumpArena memory arena = .ok (memory, 0) ∨
      ∃ length block, bunuelBumpArena memory arena =
        .ok (storeWord memory (Arena.length arena) length, block) := by
  unfold bunuelBumpArena
  split
  case isTrue null => exact Or.inl ⟨_, rfl, absurd null⟩
  case isFalse =>
    simp only
    split
    case isTrue => exact Or.inl ⟨_, rfl, fun _ => rfl⟩
    case isFalse =>
      split
      case isTrue => exact Or.inr (Or.inl rfl)
      case isFalse => exact Or.inr (Or.inr ⟨_, _, rfl⟩)

theorem bumpArena_error {memory : Memory} {arena : Nat} (nonzero : arena ≠ 0) :
    bunuelBumpArena memory arena ≠ .error .nullDereference := by
  rcases bumpArena_cases memory arena with ⟨fault, failed, kind⟩ | full | ⟨length, next, taken⟩
  · rw [failed, kind nonzero]
    simp
  · simp [full]
  · simp [taken]

section Runs

variable {pool arena : Nat} {state : PoolState} {call : PoolCall}

theorem finds_arena (poolMade : pool ≠ 0) (arenaMade : arena ≠ 0)
    (there : loadWord state.1 (Pool.arena pool) = arena) : FindsArena pool state call := by
  match call with
  | .op .take =>
      simp only [FindsArena, bunuelTakePool, if_neg poolMade, there]
      split
      case isTrue => exact bumpArena_error arenaMade
      case isFalse => simp
  | .op (.give _) => trivial
  | .op (.write _ _) => trivial
  | .wipe =>
      have kept :
          loadWord (storeWord state.1 (Pool.freeList pool) 0) (Pool.arena pool) = arena := by
        rw [loadWord_storeWord_apart, there]
        exact Or.inr (Nat.le_refl _)
      simp only [FindsArena, bunuelWipePool, if_neg poolMade, bunuelWipeArena, kept,
        if_neg arenaMade]
      simp

end Runs

/-- What else is documented of `malloc`: its blocks are aligned for every type, and a request
that is refused takes nothing. -/
structure AllocatesAligned {Heap : Type} (malloc : Malloc Heap) (live : Heap → List (Nat × Nat)) :
    Prop extends Allocates malloc live where
  aligned : ∀ heap size, 16 ∣ (malloc heap size).1
  pointer : ∀ heap size, (malloc heap size).1 < 2 ^ 64
  refused : ∀ heap size, (malloc heap size).1 = 0 → live (malloc heap size).2 = live heap

/-- Nothing is made and nothing stays allocated, or the pool can be used. -/
def MadeCleanly {Heap : Type} (live : Heap → List (Nat × Nat)) (heap : Heap)
    (capacity elemSize : Nat) (result : Memory × Heap × Nat) : Prop :=
  result.2.2 = 0 ∧ live result.2.1 = live heap ∨
    result.2.2 ≠ 0 ∧ PoolUsable result.2.2 capacity elemSize result.1

theorem stored_usable (layout : PoolLayout) (memory : Memory) (sized : layout.elemSize < 2 ^ 64) :
    PoolUsable layout.pool layout.capacity layout.elemSize
      (storedPool memory layout.pool layout.arena layout.capacity layout.elemSize) := by
  have arenaMade : layout.arena ≠ 0 := Nat.ne_of_gt layout.arenaAddress
  have holds := stored_holds layout memory sized
  have start : InOrder layout
    (storedPool memory layout.pool layout.arena layout.capacity layout.elemSize, ⟨[], []⟩) :=
    ⟨0, holds⟩
  exact {
    made := by
      rw [holds.arena]
      exact arenaMade
    capped := by rw [holds.arena, holds.capacity]
    sized := by rw [holds.arena, holds.elemSize]
    noneFree := holds.freeList_null rfl
    runs := fun calls own =>
      start.along (fun state call inOrder =>
        finds_arena layout.pool_ne_zero arenaMade inOrder.choose_spec.arena) own }

/-- An arena that came out shorter than its header, right in front of the pool, puts its
capacity into the free list. -/
theorem apart_of_usable {memory : Memory} {pool arena capacity elemSize : Nat}
    (capacityFits : capacity < 2 ^ 64) (wordFits : wordBytes ≤ elemSize)
    (sized : elemSize < 2 ^ 64) (poolAligned : 16 ∣ pool) (arenaAligned : 16 ∣ arena)
    (arenaMade : arena ≠ 0)
    (separate : Apart arena (arenaRequest capacity elemSize) pool Pool.bytes)
    (usable : PoolUsable pool capacity elemSize
      (storedPool memory pool arena capacity elemSize)) :
    Apart arena Arena.bytes pool Pool.bytes := by
  by_contra overlap
  have freeList := usable.noneFree
  simp only [storedPool, if_neg arenaMade] at freeList
  have near : pool = arena ∨ pool = arena + 16 := by
    unfold Apart Arena.bytes Pool.bytes at overlap
    omega
  rcases near with rfl | behind
  · rw [loadWord_storeWord_apart, loadWord_storeWord_apart, loadWord_storeWord_apart] at freeList
    · have stored : loadWord (storeWord (storeWord memory (Pool.freeList pool) 0)
          (Arena.elemSize pool) elemSize) (Pool.freeList pool) = elemSize :=
        loadWord_storeWord sized
      unfold wordBytes at wordFits
      omega
    all_goals
      unfold Apart wordBytes Pool.freeList
      simp only [Pool.arena, Arena.length, Arena.capacity]
      omega
  · have here : Pool.freeList pool = Arena.capacity arena := behind
    rw [here, loadWord_storeWord_apart, loadWord_storeWord capacityFits] at freeList
    · rw [freeList, arena_size (by rw [Nat.zero_mul]; decide), Nat.zero_mul] at separate
      exact overlap separate
    · unfold Apart wordBytes Arena.capacity Pool.arena
      omega

section MakePool

variable {Heap : Type} {malloc : Malloc Heap} {live : Heap → List (Nat × Nat)} {heap : Heap}
  {memory : Memory} {capacity elemSize : Nat}

/-- A client of its own blocks finds a pool without an arena in the end, if they reach into the
pool. -/
theorem clear_of_usable {pool arena : Nat} (capacityFits : capacity < 2 ^ 64)
    (wordFits : wordBytes ≤ elemSize) (sized : elemSize < 2 ^ 64) (pointer : arena < 2 ^ 64)
    (poolMade : pool ≠ 0) (poolEnd : pool + Pool.bytes ≤ 2 ^ 64) (arenaMade : arena ≠ 0)
    (arenaAligned : 16 ∣ arena) (apart : Apart arena Arena.bytes pool Pool.bytes)
    (within : pool < arena → arena + Arena.bytes + capacity * elemSize ≤ 2 ^ 64)
    (usable : PoolUsable pool capacity elemSize
      (storedPool memory pool arena capacity elemSize)) :
    ArenaClear pool arena capacity elemSize := by
  by_contra unclear
  obtain ⟨there, freeList, elemSizeStored, lengthStored, capacityStored⟩ :=
    @storedPool_members memory pool arena capacity elemSize capacityFits sized pointer arenaMade
      apart
  have overlap : arena + Arena.bytes ≤ pool ∧ pool < Arena.data arena + capacity * elemSize := by
    unfold ArenaClear at unclear
    unfold Apart Pool.bytes Arena.bytes Arena.data at *
    unfold Arena.bytes
    omega
  have runsInto : RunsInto pool arena capacity elemSize :=
    ⟨wordFits, by omega, overlap.1, overlap.2, poolEnd⟩
  obtain ⟨after, reached, cleared⟩ := runsInto.null_arena_reached
    ⟨⟨there, elemSizeStored, capacityStored⟩, freeList, lengthStored⟩
  have own : OwnCalls elemSize after .wipe := trivial
  have found := reached.good_after own usable.runs
  apply found
  have kept :
      loadWord (storeWord after.1 (Pool.freeList pool) 0) (Pool.arena pool) = 0 := by
    rw [loadWord_storeWord_apart, cleared]
    exact Or.inr (Nat.le_refl _)
  simp only [bunuelWipePool, if_neg poolMade, bunuelWipeArena, kept, if_true]

/-- A pool is made cleanly when its own memory is refused, or the arena is not and lies clear of
the pool, with all its blocks. It is not made cleanly otherwise, unless the arena lies behind the
pool and runs over the end of the address space. -/
theorem made_cleanly_iff (allocates : AllocatesAligned malloc live)
    (capacityFits : capacity < 2 ^ 64) (wordFits : wordBytes ≤ elemSize)
    (sized : elemSize < 2 ^ 64) :
    let pool := (malloc heap Pool.bytes).1
    let arena := (malloc (malloc heap Pool.bytes).2 (arenaRequest capacity elemSize)).1
    let clean := pool = 0 ∨ arena ≠ 0 ∧ ArenaClear pool arena capacity elemSize
    ∃ result, bunuelMakePool malloc heap memory capacity elemSize = .ok result ∧
      (clean → MadeCleanly live heap capacity elemSize result) ∧
      ((pool < arena → arena + Arena.bytes + capacity * elemSize ≤ 2 ^ 64) →
        MadeCleanly live heap capacity elemSize result → clean) := by
  have poolAligned := allocates.aligned heap Pool.bytes
  have poolRefused := allocates.refused heap Pool.bytes
  have recorded := allocates.recorded heap Pool.bytes
  have poolInside := allocates.inside heap Pool.bytes
  rcases poolBlock : malloc heap Pool.bytes with ⟨pool, middle⟩
  rw [poolBlock] at poolAligned poolRefused recorded poolInside
  have arenaAligned := allocates.aligned middle (arenaRequest capacity elemSize)
  have pointer := allocates.pointer middle (arenaRequest capacity elemSize)
  have apart := allocates.apart middle (arenaRequest capacity elemSize)
  rcases arenaBlock : malloc middle (arenaRequest capacity elemSize) with ⟨arena, used⟩
  rw [arenaBlock] at arenaAligned pointer apart
  simp only [bunuelMakePool_eq malloc heap memory wordFits, poolBlock, arenaBlock]
  by_cases noPool : pool = 0
  · exact ⟨_, if_pos noPool, fun _ => Or.inl ⟨rfl, poolRefused noPool⟩, fun _ _ => Or.inl noPool⟩
  refine ⟨_, if_neg noPool, ?_, ?_⟩
  · rintro (null | ⟨arenaMade, clear⟩)
    · exact absurd null noPool
    · let layout : PoolLayout := {
        pool, arena, capacity, elemSize, wordFits
        poolAddress := Nat.pos_of_ne_zero noPool
        poolEnd := poolInside noPool
        arenaAddress := Nat.pos_of_ne_zero arenaMade
        arenaEnd := clear.1
        separate := clear.2 }
      exact Or.inr ⟨noPool, stored_usable layout memory sized⟩
  · rintro within (⟨null, -⟩ | ⟨-, usable⟩)
    · exact absurd null noPool
    · have arenaMade := (storedPool_arena (Nat.le_of_lt pointer) usable.made).1
      have separate := apart arenaMade (pool, Pool.bytes) (recorded noPool ▸ List.mem_cons_self)
      have header := apart_of_usable capacityFits wordFits sized poolAligned arenaAligned arenaMade
        separate usable
      exact Or.inr ⟨arenaMade, clear_of_usable capacityFits wordFits sized pointer noPool
        (poolInside noPool) arenaMade arenaAligned header within usable⟩

end MakePool

def limitedMalloc (limit : Nat) : Malloc (List (Nat × Nat)) := fun heap size =>
  if size ≤ limit ∧ freshStart heap + size < 2 ^ 64 then
    (freshStart heap, (freshStart heap, size) :: heap)
  else (0, heap)

theorem limitedMalloc_some {limit : Nat} {heap : List (Nat × Nat)} {size : Nat}
    (nonzero : (limitedMalloc limit heap size).1 ≠ 0) :
    limitedMalloc limit heap size = (freshStart heap, (freshStart heap, size) :: heap) ∧
      freshStart heap + size < 2 ^ 64 := by
  unfold limitedMalloc at *
  split at nonzero
  case isTrue room => exact ⟨if_pos room, room.2⟩
  case isFalse => exact absurd rfl nonzero

theorem limitedMalloc_allocates (limit : Nat) : AllocatesAligned (limitedMalloc limit) id where
  inside heap size nonzero := by
    obtain ⟨allocated, room⟩ := limitedMalloc_some nonzero
    rw [allocated]
    exact Nat.le_of_lt room
  apart heap size nonzero region member := by
    rw [(limitedMalloc_some nonzero).1]
    exact Or.inr (le_freshStart member)
  recorded heap size nonzero := by
    rw [(limitedMalloc_some nonzero).1]
    rfl
  aligned heap size := by
    unfold limitedMalloc
    split
    case isTrue => exact Nat.dvd_mul_left 16 _
    case isFalse => exact Nat.dvd_zero 16
  pointer heap size := by
    unfold limitedMalloc
    split
    case isTrue room => exact Nat.lt_of_le_of_lt (Nat.le_add_right _ _) room.2
    case isFalse => exact Nat.two_pow_pos 64
  refused heap size null := by
    unfold limitedMalloc at *
    split at null
    case isTrue => exact absurd null (Nat.ne_of_gt (freshStart_pos heap))
    case isFalse large => rw [if_neg large]

theorem made_cleanly_iff_three :
    let malloc := limitedMalloc (2 ^ 40)
    let pool := (malloc [] Pool.bytes).1
    let arena := (malloc (malloc [] Pool.bytes).2 (arenaRequest 3 16)).1
    let clean := pool = 0 ∨ arena ≠ 0 ∧ ArenaClear pool arena 3 16
    ∃ result, bunuelMakePool malloc [] (fun _ => 0) 3 16 = .ok result ∧
      (clean → MadeCleanly id [] 3 16 result) ∧
      ((pool < arena → arena + Arena.bytes + 3 * 16 ≤ 2 ^ 64) →
        MadeCleanly id [] 3 16 result → clean) :=
  made_cleanly_iff (limitedMalloc_allocates (2 ^ 40)) (by decide) (by decide) (by decide)

/-- `2 ^ 27` blocks of 16 bytes: the request is sign extended and refused, and the pool has no
arena. -/
theorem null_arena_pool :
    bunuelMakePool (limitedMalloc (2 ^ 40)) [] (fun _ => 0) (2 ^ 27) 16 =
        .ok (storedPool (fun _ => 0) 16 0 (2 ^ 27) 16, [(16, 16)], 16) ∧
      bunuelTakePool (storedPool (fun _ => 0) 16 0 (2 ^ 27) 16) 16 = .error .nullDereference ∧
      ¬MadeCleanly id [] (2 ^ 27) 16
        (storedPool (fun _ => 0) 16 0 (2 ^ 27) 16, [(16, 16)], 16) := by
  refine ⟨by rfl, by rfl, ?_⟩
  rintro (⟨null, -⟩ | ⟨-, usable⟩)
  · cases null
  · exact usable.made (by decide +kernel)

end YakUnshorn
