import YakUnshorn.Lib.ByteMemory
import YakUnshorn.Lib.CMachine

/-!
Arenas and pools of `bunuelib.c`, in a memory of bytes. The members of both structures
and the links of the free list are words of this memory.
-/

namespace YakUnshorn

open ByteMemory CMachine

/-- `sizeof(void*)` and `sizeof(size_t)` -/
def wordBytes : Nat := 8

def loadWord (memory : Memory) (address : Nat) : Nat := load memory address wordBytes

def storeWord (memory : Memory) (address value : Nat) : Memory :=
  store memory address wordBytes value

theorem loadWord_storeWord {memory : Memory} {address value : Nat} (fits : value < 2 ^ 64) :
    loadWord (storeWord memory address value) address = value :=
  load_store_of_lt (by simpa [wordBytes] using fits)

theorem loadWord_storeWord_apart {memory : Memory} {address value query : Nat}
    (apart : Apart query wordBytes address wordBytes) :
    loadWord (storeWord memory address value) query = loadWord memory query :=
  load_store_apart apart

theorem loadWord_lt (memory : Memory) (address : Nat) : loadWord memory address < 2 ^ 64 := by
  simpa [loadWord, wordBytes] using load_lt memory address wordBytes

/-- `malloc`, with a state of its own: the address of a new block, or 0. -/
abbrev Malloc (Heap : Type) := Heap → Nat → Nat × Heap

namespace Arena

def bytes : Nat := 24

def elemSize (arena : Nat) : Nat := arena

def length (arena : Nat) : Nat := arena + 8

def capacity (arena : Nat) : Nat := arena + 16

def data (arena : Nat) : Nat := arena + bytes

end Arena

namespace Pool

def bytes : Nat := 16

def freeList (pool : Nat) : Nat := pool

def arena (pool : Nat) : Nat := pool + 8

end Pool

section Allocation

variable {Heap : Type}

def bunuelMakeArena (malloc : Malloc Heap) (heap : Heap) (memory : Memory)
    (capacity elemSize : Nat) : Memory × Heap × Nat :=
  let size := toInt (capacity * elemSize % 2 ^ 64)
  let size := toInt ((toSizeT size + Arena.bytes) % 2 ^ 64)
  let (arena, heap) := malloc heap (toSizeT size)
  if arena = 0 then (memory, heap, 0)
  else
    let memory := storeWord memory (Arena.elemSize arena) elemSize
    let memory := storeWord memory (Arena.length arena) 0
    let memory := storeWord memory (Arena.capacity arena) capacity
    (memory, heap, arena)

/-- What `bunuel_make_arena` asks of `malloc`: the sum is taken in `size_t`, but kept in an
`int`. -/
def arenaRequest (capacity elemSize : Nat) : Nat :=
  toSizeT (toInt ((toSizeT (toInt (capacity * elemSize % 2 ^ 64)) + Arena.bytes) % 2 ^ 64))

theorem bunuelMakeArena_request (malloc : Malloc Heap) (heap : Heap)
    (memory : Memory) (capacity elemSize : Nat) :
    bunuelMakeArena malloc heap memory capacity elemSize =
      let (arena, heap) := malloc heap (arenaRequest capacity elemSize)
      if arena = 0 then (memory, heap, 0)
      else
        (storeWord (storeWord (storeWord memory (Arena.elemSize arena) elemSize)
          (Arena.length arena) 0) (Arena.capacity arena) capacity, heap, arena) := rfl

def bunuelWipeArena (memory : Memory) (arena : Nat) : Except Fault Memory :=
  if arena = 0 then .error .nullDereference
  else .ok (storeWord memory (Arena.length arena) 0)

/-- `bunuel_bump_arena`: the memory afterwards and the block, which is 0 when the arena is used
up. -/
def bunuelBumpArena (memory : Memory) (arena : Nat) : Except Fault (Memory × Nat) :=
  if arena = 0 then .error .nullDereference
  else
    let length := loadWord memory (Arena.length arena)
    let capacity := loadWord memory (Arena.capacity arena)
    if ¬length ≤ capacity then .error .assertionFailed
    else if capacity ≤ length then .ok (memory, 0)
    else
      let offset := length * loadWord memory (Arena.elemSize arena) % 2 ^ 64
      let block := (Arena.data arena + offset) % 2 ^ 64
      .ok (storeWord memory (Arena.length arena) ((length + 1) % 2 ^ 64), block)

def bunuelMakePool (malloc : Malloc Heap) (heap : Heap) (memory : Memory)
    (capacity elemSize : Nat) : Except Fault (Memory × Heap × Nat) :=
  if ¬wordBytes ≤ elemSize then .error .assertionFailed
  else if elemSize < wordBytes then .ok (memory, heap, 0)
  else
    let (pool, heap) := malloc heap Pool.bytes
    if pool = 0 then .ok (memory, heap, 0)
    else
      let memory := storeWord memory (Pool.freeList pool) 0
      let (memory, heap, arena) := bunuelMakeArena malloc heap memory capacity elemSize
      .ok (storeWord memory (Pool.arena pool) arena, heap, pool)

def bunuelWipePool (memory : Memory) (pool : Nat) : Except Fault Memory :=
  if pool = 0 then .error .nullDereference
  else
    let memory := storeWord memory (Pool.freeList pool) 0
    bunuelWipeArena memory (loadWord memory (Pool.arena pool))

def bunuelTakePool (memory : Memory) (pool : Nat) : Except Fault (Memory × Nat) :=
  if pool = 0 then .error .nullDereference
  else
    let freeList := loadWord memory (Pool.freeList pool)
    if freeList = 0 then bunuelBumpArena memory (loadWord memory (Pool.arena pool))
    else .ok (storeWord memory (Pool.freeList pool) (loadWord memory freeList), freeList)

def bunuelGivePool (memory : Memory) (pool elem : Nat) : Except Fault Memory :=
  if pool = 0 ∨ elem = 0 then .error .nullDereference
  else
    let memory := storeWord memory elem (loadWord memory (Pool.freeList pool))
    .ok (storeWord memory (Pool.freeList pool) elem)

theorem bumpArena_next {memory : Memory} {arena length capacity elemSize : Nat}
    (nonzero : arena ≠ 0) (sized : loadWord memory (Arena.elemSize arena) = elemSize)
    (counted : loadWord memory (Arena.length arena) = length)
    (capped : loadWord memory (Arena.capacity arena) = capacity) (left : length < capacity) :
    bunuelBumpArena memory arena =
      .ok (storeWord memory (Arena.length arena) (length + 1),
        (Arena.data arena + length * elemSize % 2 ^ 64) % 2 ^ 64) := by
  have fits : length + 1 < 2 ^ 64 := by
    have := loadWord_lt memory (Arena.capacity arena)
    omega
  simp only [bunuelBumpArena, if_neg nonzero, sized, counted, capped, Nat.le_of_lt left, not_true,
    if_false, Nat.not_le_of_lt left, Nat.mod_eq_of_lt fits]

theorem bumpArena_full {memory : Memory} {arena capacity : Nat} (nonzero : arena ≠ 0)
    (counted : loadWord memory (Arena.length arena) = capacity)
    (capped : loadWord memory (Arena.capacity arena) = capacity) :
    bunuelBumpArena memory arena = .ok (memory, 0) := by
  simp only [bunuelBumpArena, if_neg nonzero, counted, capped, Nat.le_refl, not_true, if_false,
    if_true]

theorem takePool_bumps {memory : Memory} {pool arena : Nat} (poolMade : pool ≠ 0)
    (noneFree : loadWord memory (Pool.freeList pool) = 0)
    (there : loadWord memory (Pool.arena pool) = arena) :
    bunuelTakePool memory pool = bunuelBumpArena memory arena := by
  rw [bunuelTakePool, if_neg poolMade, there]
  exact if_pos noneFree

/-- The memory that `bunuel_make_pool` leaves, with the arena it got, or with none. -/
def storedPool (memory : Memory) (pool arena capacity elemSize : Nat) : Memory :=
  let memory := storeWord memory (Pool.freeList pool) 0
  let memory :=
    if arena = 0 then memory
    else
      storeWord (storeWord (storeWord memory (Arena.elemSize arena) elemSize)
        (Arena.length arena) 0) (Arena.capacity arena) capacity
  storeWord memory (Pool.arena pool) arena

theorem bunuelMakePool_eq (malloc : Malloc Heap) (heap : Heap) (memory : Memory)
    {capacity elemSize : Nat} (wordFits : wordBytes ≤ elemSize) :
    bunuelMakePool malloc heap memory capacity elemSize =
      let (pool, middle) := malloc heap Pool.bytes
      if pool = 0 then .ok (memory, middle, 0)
      else
        let (arena, used) := malloc middle (arenaRequest capacity elemSize)
        .ok (storedPool memory pool arena capacity elemSize, used, pool) := by
  rcases poolBlock : malloc heap Pool.bytes with ⟨pool, middle⟩
  rcases arenaBlock : malloc middle (arenaRequest capacity elemSize) with ⟨arena, used⟩
  simp only [bunuelMakePool, wordFits, not_true, if_false, Nat.not_lt_of_le, poolBlock,
    bunuelMakeArena_request, arenaBlock]
  by_cases noArena : arena = 0
  · subst noArena
    rfl
  · simp only [storedPool, if_neg noArena]

theorem makePool_made {malloc : Malloc Heap} {heap used : Heap} {memory after : Memory}
    {capacity elemSize pool : Nat} (wordFits : wordBytes ≤ elemSize)
    (made : bunuelMakePool malloc heap memory capacity elemSize = .ok (after, used, pool))
    (poolMade : pool ≠ 0) :
    ∃ middle arena, malloc heap Pool.bytes = (pool, middle) ∧
      malloc middle (arenaRequest capacity elemSize) = (arena, used) ∧
      after = storedPool memory pool arena capacity elemSize := by
  rcases poolBlock : malloc heap Pool.bytes with ⟨poolAddress, middle⟩
  simp only [bunuelMakePool_eq malloc heap memory wordFits, poolBlock] at made
  by_cases noPool : poolAddress = 0
  · rw [if_pos noPool, Except.ok.injEq, Prod.mk.injEq, Prod.mk.injEq] at made
    exact absurd made.2.2.symm poolMade
  · simp only [if_neg noPool, Except.ok.injEq, Prod.mk.injEq] at made
    obtain ⟨rfl, rfl, rfl⟩ := made
    exact ⟨middle, _, rfl, rfl, rfl⟩

theorem storedPool_arena {memory : Memory} {pool arena capacity elemSize : Nat}
    (inside : arena ≤ 2 ^ 64)
    (made : loadWord (storedPool memory pool arena capacity elemSize) (Pool.arena pool) ≠ 0) :
    arena ≠ 0 ∧
      loadWord (storedPool memory pool arena capacity elemSize) (Pool.arena pool) = arena := by
  have stored : loadWord (storedPool memory pool arena capacity elemSize) (Pool.arena pool) =
      arena % 2 ^ 64 := load_store _ _ _ _
  rw [stored] at made ⊢
  omega

theorem storedPool_members {memory : Memory} {pool arena capacity elemSize : Nat}
    (capacityFits : capacity < 2 ^ 64) (sized : elemSize < 2 ^ 64) (pointer : arena < 2 ^ 64)
    (arenaMade : arena ≠ 0) (apart : Apart arena Arena.bytes pool Pool.bytes) :
    loadWord (storedPool memory pool arena capacity elemSize) (Pool.arena pool) = arena ∧
      loadWord (storedPool memory pool arena capacity elemSize) (Pool.freeList pool) = 0 ∧
      loadWord (storedPool memory pool arena capacity elemSize) (Arena.elemSize arena) =
        elemSize ∧
      loadWord (storedPool memory pool arena capacity elemSize) (Arena.length arena) = 0 ∧
      loadWord (storedPool memory pool arena capacity elemSize) (Arena.capacity arena) =
        capacity := by
  have zeroFits : 0 < 2 ^ 64 := by decide
  unfold Apart Arena.bytes Pool.bytes at apart
  simp only [storedPool, if_neg arenaMade]
  refine ⟨loadWord_storeWord pointer, ?_, ?_, ?_, ?_⟩
  · rw [loadWord_storeWord_apart, loadWord_storeWord_apart, loadWord_storeWord_apart,
      loadWord_storeWord_apart, loadWord_storeWord zeroFits]
    all_goals
      unfold Apart wordBytes Pool.freeList
      simp only [Pool.arena, Arena.elemSize, Arena.length, Arena.capacity]
      omega
  · rw [loadWord_storeWord_apart, loadWord_storeWord_apart, loadWord_storeWord_apart,
      loadWord_storeWord sized]
    all_goals
      unfold Apart wordBytes Arena.elemSize
      simp only [Pool.arena, Arena.length, Arena.capacity]
      omega
  · rw [loadWord_storeWord_apart, loadWord_storeWord_apart, loadWord_storeWord zeroFits]
    all_goals
      unfold Apart wordBytes Arena.length
      simp only [Pool.arena, Arena.capacity]
      omega
  · rw [loadWord_storeWord_apart, loadWord_storeWord capacityFits]
    unfold Apart wordBytes Arena.capacity Pool.arena
    omega

/-- What is documented of `malloc`: a block it returns lies in the address space, apart from all
blocks that are live. -/
structure Allocates (malloc : Malloc Heap) (live : Heap → List (Nat × Nat)) : Prop where
  inside : ∀ heap size, (malloc heap size).1 ≠ 0 → (malloc heap size).1 + size ≤ 2 ^ 64
  apart : ∀ heap size, (malloc heap size).1 ≠ 0 → ∀ region ∈ live heap,
    Apart (malloc heap size).1 size region.1 region.2
  recorded : ∀ heap size, (malloc heap size).1 ≠ 0 →
    live (malloc heap size).2 = ((malloc heap size).1, size) :: live heap

end Allocation

structure PoolLayout where
  pool : Nat
  arena : Nat
  capacity : Nat
  elemSize : Nat
  wordFits : wordBytes ≤ elemSize
  poolAddress : 0 < pool
  poolEnd : pool + Pool.bytes ≤ 2 ^ 64
  arenaAddress : 0 < arena
  arenaEnd : arena + Arena.bytes + capacity * elemSize ≤ 2 ^ 64
  separate : Apart pool Pool.bytes arena (Arena.bytes + capacity * elemSize)

namespace PoolLayout

def block (layout : PoolLayout) (i : Nat) : Nat := Arena.data layout.arena + i * layout.elemSize

variable {layout : PoolLayout} {i j : Nat}

theorem block_inside (bound : i < layout.capacity) :
    Arena.data layout.arena ≤ layout.block i ∧
      layout.block i + layout.elemSize ≤
        Arena.data layout.arena + layout.capacity * layout.elemSize := by
  have whole := Nat.mul_le_mul_right layout.elemSize (Nat.succ_le_of_lt bound)
  rw [Nat.succ_mul] at whole
  unfold block
  omega

theorem block_apart (different : i ≠ j) :
    Apart (layout.block i) layout.elemSize (layout.block j) layout.elemSize := by
  unfold Apart block
  rcases Nat.lt_or_gt_of_ne different with before | behind
  · have whole := Nat.mul_le_mul_right layout.elemSize (Nat.succ_le_of_lt before)
    rw [Nat.succ_mul] at whole
    omega
  · have whole := Nat.mul_le_mul_right layout.elemSize (Nat.succ_le_of_lt behind)
    rw [Nat.succ_mul] at whole
    omega

theorem block_injective : Function.Injective layout.block := by
  intro i j same
  by_contra different
  have apart := layout.block_apart different
  have := layout.wordFits
  unfold Apart wordBytes at *
  omega

theorem block_apart_members (bound : i < layout.capacity) :
    Apart (layout.block i) layout.elemSize layout.pool Pool.bytes ∧
      Apart (layout.block i) layout.elemSize layout.arena Arena.bytes := by
  obtain ⟨lower, upper⟩ := layout.block_inside bound
  have separate := layout.separate
  unfold Apart Arena.data at *
  omega

theorem pool_ne_zero (layout : PoolLayout) : layout.pool ≠ 0 :=
  Nat.ne_of_gt layout.poolAddress

theorem arena_apart_freeList (layout : PoolLayout) :
    Apart layout.arena Arena.bytes (Pool.freeList layout.pool) wordBytes := by
  have separate := layout.separate
  unfold Apart Pool.bytes at separate
  unfold Apart Pool.freeList wordBytes
  omega

theorem pool_apart_length (layout : PoolLayout) :
    Apart layout.pool Pool.bytes (Arena.length layout.arena) wordBytes := by
  have separate := layout.separate
  unfold Apart Arena.bytes at separate
  unfold Apart Arena.length wordBytes
  omega

theorem block_range (bound : i < layout.capacity) :
    0 < layout.block i ∧ layout.block i < 2 ^ 64 := by
  obtain ⟨lower, upper⟩ := layout.block_inside bound
  have wordFits := layout.wordFits
  have arenaAddress := layout.arenaAddress
  have arenaEnd := layout.arenaEnd
  unfold Arena.data wordBytes at *
  omega

theorem capacity_lt (layout : PoolLayout) : layout.capacity < 2 ^ 64 := by
  have wordFits := layout.wordFits
  have arenaAddress := layout.arenaAddress
  have arenaEnd := layout.arenaEnd
  have larger := Nat.le_mul_of_pos_right layout.capacity (Nat.lt_of_lt_of_le (by decide) wordFits)
  omega

end PoolLayout

end YakUnshorn
