import YakUnshorn.PoolWipes

/-!
What a client can do that keeps to its own blocks, where these run into the pool itself:
an arena that is too short for its blocks hands out the members of the pool.
-/

namespace YakUnshorn

open ByteMemory StepRuns

/-- The members of the pool and of its arena that a take goes by, apart from the free list and the
number of bumped blocks. -/
structure Members (pool arena capacity elemSize : Nat) (memory : Memory) : Prop where
  there : loadWord memory (Pool.arena pool) = arena
  sized : loadWord memory (Arena.elemSize arena) = elemSize
  capped : loadWord memory (Arena.capacity arena) = capacity

structure Unused (pool arena capacity elemSize : Nat) (memory : Memory) : Prop
    extends Members pool arena capacity elemSize memory where
  noneFree : loadWord memory (Pool.freeList pool) = 0
  noneBumped : loadWord memory (Arena.length arena) = 0

section Owning

variable {pool elemSize : Nat}

abbrev OwnReaches (pool elemSize : Nat) : PoolState → PoolState → Prop :=
  Reaches (poolCallStep pool) (OwnCalls elemSize)

theorem store_reaches {memory : Memory} {ledger : Ledger} {block : Nat}
    (member : block ∈ ledger.outstanding) {address width : Nat} (value : Nat)
    (lower : block ≤ address) (upper : address + width ≤ block + elemSize) :
    OwnReaches pool elemSize (memory, ledger) (store memory address width value, ledger) := by
  induction width generalizing memory address value with
  | zero => exact .refl _
  | succ width ih =>
      have own : OwnCalls elemSize (memory, ledger) (.op (.write address (UInt8.ofNat value))) :=
        ⟨block, member, lower, by omega⟩
      exact (Reaches.single own rfl).trans (ih (value / 256) (by omega) (by omega))

theorem take_reaches {memory after : Memory} {block : Nat} (ledger : Ledger)
    (taken : bunuelTakePool memory pool = .ok (after, block)) (nonzero : block ≠ 0) :
    OwnReaches pool elemSize (memory, ledger)
      (after, ⟨block :: ledger.outstanding, ledger.given.erase block⟩) := by
  have own : OwnCalls elemSize (memory, ledger) (.op .take) := trivial
  refine Reaches.single own ?_
  simp only [poolCallStep, poolStep, taken, Ledger.took, if_neg nonzero]

theorem wipe_reaches {memory after : Memory} (ledger : Ledger)
    (wiped : bunuelWipePool memory pool = .ok after) :
    OwnReaches pool elemSize (memory, ledger) (after, ⟨[], []⟩) := by
  have own : OwnCalls elemSize (memory, ledger) .wipe := trivial
  refine Reaches.single own ?_
  simp only [poolCallStep, wiped]

theorem take_listed {memory : Memory} {block : Nat} (poolMade : pool ≠ 0)
    (listed : loadWord memory (Pool.freeList pool) = block) (nonzero : block ≠ 0) :
    bunuelTakePool memory pool =
      .ok (storeWord memory (Pool.freeList pool) (loadWord memory block), block) := by
  simp only [bunuelTakePool, if_neg poolMade, listed, if_neg nonzero]

end Owning

theorem loadWord_lowByte {memory : Memory} {address value : Nat} (fits : value < 256)
    (zero : loadWord memory address = 0) :
    loadWord (store memory address 1 value) address = value := by
  have split (memory : Memory) : loadWord memory address =
      (memory address).toNat + 256 * load memory (address + 1) 7 := rfl
  have above : load (store memory address 1 value) (address + 1) 7 = load memory (address + 1) 7 :=
    load_store_apart (Or.inr (Nat.le_refl _))
  have lowest : (store memory address 1 value) address = UInt8.ofNat value :=
    Function.update_self _ _ _
  rw [split] at zero
  rw [split, above, lowest, UInt8.toNat_ofNat']
  omega

section Overrunning

variable {pool arena capacity elemSize : Nat} {memory : Memory}

theorem Members.store (members : Members pool arena capacity elemSize memory)
    {address width : Nat} (value : Nat)
    (arenaApart : Apart (Pool.arena pool) wordBytes address width)
    (sizeApart : Apart (Arena.elemSize arena) wordBytes address width)
    (capacityApart : Apart (Arena.capacity arena) wordBytes address width) :
    Members pool arena capacity elemSize (store memory address width value) where
  there := (load_store_apart arenaApart).trans members.there
  sized := (load_store_apart sizeApart).trans members.sized
  capped := (load_store_apart capacityApart).trans members.capped

structure RunsInto (pool arena capacity elemSize : Nat) : Prop where
  wordFits : wordBytes ≤ elemSize
  arenaAddress : 16 ≤ arena
  behind : arena + Arena.bytes ≤ pool
  overrun : pool < Arena.data arena + capacity * elemSize
  poolEnd : pool + Pool.bytes ≤ 2 ^ 64

namespace RunsInto

/-- After as many takes the client has all the blocks up to there, and the pool is as it was
otherwise. -/
theorem bumped_reached (runsInto : RunsInto pool arena capacity elemSize)
    (unused : Unused pool arena capacity elemSize memory) (ledger : Ledger) {count : Nat}
    (left : count ≤ capacity)
    (inFront : ∀ i < count, Arena.data arena + i * elemSize ≤ pool) :
    ∃ after taken, OwnReaches pool elemSize (memory, ledger) (after, taken) ∧
      Members pool arena capacity elemSize after ∧
      loadWord after (Pool.freeList pool) = 0 ∧ loadWord after (Arena.length arena) = count ∧
      loadWord after 1 = loadWord memory 1 ∧
      ∀ i < count, Arena.data arena + i * elemSize ∈ taken.outstanding := by
  have arenaAddress := runsInto.arenaAddress
  have behind := runsInto.behind
  have poolEnd := runsInto.poolEnd
  unfold Arena.bytes at behind
  unfold Pool.bytes at poolEnd
  induction count with
  | zero => exact ⟨memory, ledger, .refl _, unused.toMembers, unused.noneFree, unused.noneBumped,
      rfl,
      by simp⟩
  | succ count ih =>
      obtain ⟨between, owned, reached, members, noneFree, counted, low, all⟩ :=
        ih (by omega) fun i bound => inFront i (by omega)
      have inside := inFront count (Nat.lt_succ_self _)
      have fits : count + 1 < 2 ^ 64 := by
        have := loadWord_lt between (Arena.capacity arena)
        rw [members.capped] at this
        omega
      have bumped := bumpArena_next (by omega) members.sized counted members.capped left
      have offset : count * elemSize < 2 ^ 64 := by
        unfold Arena.data at inside
        omega
      rw [Nat.mod_eq_of_lt offset, Nat.mod_eq_of_lt (by omega)] at bumped
      have taken : bunuelTakePool between pool = _ :=
        (takePool_bumps (by omega) noneFree members.there).trans bumped
      have nonzero : Arena.data arena + count * elemSize ≠ 0 := by
        unfold Arena.data
        omega
      refine ⟨_, _, reached.trans (take_reaches owned taken nonzero), ?_, ?_,
        loadWord_storeWord fits, ?_, ?_⟩
      · apply members.store
        all_goals
          unfold Apart Arena.length wordBytes
          simp only [Pool.arena, Arena.elemSize, Arena.capacity]
          omega
      · rw [loadWord_storeWord_apart, noneFree]
        unfold Apart Arena.length Pool.freeList wordBytes
        omega
      · rw [loadWord_storeWord_apart, low]
        unfold Apart Arena.length wordBytes
        omega
      · intro i bound
        rcases Nat.lt_succ_iff_lt_or_eq.mp bound with earlier | rfl
        · exact List.mem_cons_of_mem _ (all i earlier)
        · exact List.mem_cons_self

/-- The client has the lowest byte of the free list, and so it can be given the block at 1. -/
theorem low_block_reached (runsInto : RunsInto pool arena capacity elemSize)
    (unused : Unused pool arena capacity elemSize memory) (ledger : Ledger) :
    ∃ after taken, OwnReaches pool elemSize (memory, ledger) (after, taken) ∧
      Members pool arena capacity elemSize after ∧
      loadWord after (Pool.freeList pool) = loadWord memory 1 ∧
      loadWord after 1 = loadWord memory 1 ∧ 1 ∈ taken.outstanding := by
  have arenaAddress := runsInto.arenaAddress
  have behind := runsInto.behind
  have overrun := runsInto.overrun
  have wordFits := runsInto.wordFits
  unfold Arena.bytes at behind
  unfold wordBytes at wordFits
  -- the block that holds the first byte of the pool
  let last := (pool - Arena.data arena) / elemSize
  have lastBelow : last * elemSize ≤ pool - Arena.data arena := Nat.div_mul_le_self _ _
  have lastReaches : pool - Arena.data arena < last * elemSize + elemSize :=
    Nat.lt_div_mul_add (by omega)
  have data : Arena.data arena ≤ pool := behind
  have left : last + 1 ≤ capacity := by
    by_contra beyond
    have all := Nat.mul_le_mul_right elemSize (Nat.le_of_lt_succ (Nat.lt_of_not_le beyond))
    omega
  obtain ⟨between, owned, reached, members, noneFree, -, low, all⟩ :=
    runsInto.bumped_reached unused ledger left fun i bound => by
      have earlier := Nat.mul_le_mul_right elemSize (Nat.le_of_lt_succ bound)
      omega
  have written : OwnReaches pool elemSize (between, owned)
      (store between (Pool.freeList pool) 1 1, owned) := by
    apply store_reaches (all last (Nat.lt_succ_self last))
    all_goals
      unfold Pool.freeList
      omega
  have lowKept : loadWord (store between (Pool.freeList pool) 1 1) 1 = loadWord memory 1 := by
    rw [← low]
    apply load_store_apart
    unfold Apart wordBytes Pool.freeList
    omega
  have taken := take_listed (by omega) (loadWord_lowByte (by decide) noneFree) Nat.one_ne_zero
  refine ⟨_, _, (reached.trans written).trans (take_reaches owned taken Nat.one_ne_zero),
    ?_, ?_, ?_, List.mem_cons_self⟩
  · refine Members.store (Members.store members 1 ?_ ?_ ?_) _ ?_ ?_ ?_
    all_goals
      unfold Apart wordBytes
      simp only [Pool.arena, Pool.freeList, Arena.elemSize, Arena.capacity]
      omega
  · rw [loadWord_storeWord (loadWord_lt _ _), lowKept]
  · rw [loadWord_storeWord_apart, lowKept]
    unfold Apart wordBytes Pool.freeList
    omega

theorem wiped (runsInto : RunsInto pool arena capacity elemSize)
    (members : Members pool arena capacity elemSize memory) :
    ∃ after, bunuelWipePool memory pool = .ok after ∧
      Unused pool arena capacity elemSize after ∧ loadWord after 1 = loadWord memory 1 := by
  have arenaAddress := runsInto.arenaAddress
  have behind := runsInto.behind
  unfold Arena.bytes at behind
  have there : loadWord (storeWord memory (Pool.freeList pool) 0) (Pool.arena pool) = arena := by
    rw [loadWord_storeWord_apart, members.there]
    exact Or.inr (Nat.le_refl _)
  refine ⟨storeWord (storeWord memory (Pool.freeList pool) 0) (Arena.length arena) 0, ?_, ?_, ?_⟩
  · simp only [bunuelWipePool, if_neg (show pool ≠ 0 by omega), there, bunuelWipeArena,
      if_neg (show arena ≠ 0 by omega)]
  · refine ⟨Members.store (Members.store members 0 ?_ ?_ ?_) 0 ?_ ?_ ?_, ?_,
      loadWord_storeWord (by decide)⟩
    case refine_7 =>
      rw [loadWord_storeWord_apart, loadWord_storeWord (by decide)]
      unfold Apart wordBytes Pool.freeList Arena.length
      omega
    all_goals
      unfold Apart wordBytes
      simp only [Pool.arena, Pool.freeList, Arena.elemSize, Arena.length, Arena.capacity]
      omega
  · rw [loadWord_storeWord_apart, loadWord_storeWord_apart]
    all_goals
      unfold Apart wordBytes
      simp only [Pool.freeList, Arena.length]
      omega

/-- With the block at 1 the client has the free list hand out the second member of the pool, and
overwrites it. -/
theorem null_arena_reached (runsInto : RunsInto pool arena capacity elemSize)
    (unused : Unused pool arena capacity elemSize memory) :
    ∃ after, OwnReaches pool elemSize (memory, ⟨[], []⟩) after ∧
      loadWord after.1 (Pool.arena pool) = 0 := by
  have arenaAddress := runsInto.arenaAddress
  have behind := runsInto.behind
  have wordFits := runsInto.wordFits
  have poolEnd := runsInto.poolEnd
  unfold Arena.bytes at behind
  unfold Pool.bytes at poolEnd
  obtain ⟨low, first, toLow, members, -, -, own⟩ := runsInto.low_block_reached unused ⟨[], []⟩
  have linked : OwnReaches pool elemSize (low, first)
      (storeWord low 1 (Pool.arena pool), first) :=
    store_reaches own _ (Nat.le_refl 1) (Nat.add_le_add_left wordFits 1)
  have linkedMembers : Members pool arena capacity elemSize
      (storeWord low 1 (Pool.arena pool)) := by
    apply members.store
    all_goals
      unfold Apart wordBytes
      simp only [Pool.arena, Arena.elemSize, Arena.capacity]
      omega
  obtain ⟨empty, wipes, again, link⟩ := runsInto.wiped linkedMembers
  rw [loadWord_storeWord (by unfold Pool.arena; omega)] at link
  obtain ⟨listed, second, toListed, -, head, -⟩ := runsInto.low_block_reached again ⟨[], []⟩
  have nonzero : Pool.arena pool ≠ 0 := Nat.succ_ne_zero _
  have taken := take_listed (by omega) (head.trans link) nonzero
  let popped := storeWord listed (Pool.freeList pool) (loadWord listed (Pool.arena pool))
  let third : Ledger := ⟨Pool.arena pool :: second.outstanding,
    second.given.erase (Pool.arena pool)⟩
  have owned : Pool.arena pool ∈ third.outstanding := List.mem_cons_self
  have cleared : OwnReaches pool elemSize (popped, third)
      (storeWord popped (Pool.arena pool) 0, third) :=
    store_reaches owned 0 (Nat.le_refl _) (Nat.add_le_add_left wordFits _)
  exact ⟨_, toLow.trans (linked.trans ((wipe_reaches first wipes).trans
    (toListed.trans ((take_reaches second taken nonzero).trans cleared)))),
    loadWord_storeWord (by decide)⟩

end RunsInto

end Overrunning

end YakUnshorn
