import YakUnshorn.PoolAlignment
import YakUnshorn.PoolDrops
import Mathlib.Data.List.Flatten
import Mathlib.Data.List.Pairwise

/-!
Programs with any number of pools, which are made, used and dropped in any order on one heap.
No pool sees what is done with another.
-/

namespace YakUnshorn

open ByteMemory StepRuns

def PoolLayout.regions (layout : PoolLayout) : List (Nat × Nat) :=
  [(layout.arena, Arena.bytes + layout.capacity * layout.elemSize), (layout.pool, Pool.bytes)]

section Footprints

variable {layout : PoolLayout} {bumped : Nat} {memory other : Memory} {ledger : Ledger}

theorem touches_freeList (value : Nat) :
    Touches layout.regions memory (storeWord memory (Pool.freeList layout.pool) value) := by
  refine touches_store (List.mem_cons_of_mem _ List.mem_cons_self) (Nat.le_refl _) ?_ value
  exact Nat.add_le_add_left (show wordBytes ≤ Pool.bytes by decide) _

theorem touches_length (value : Nat) :
    Touches layout.regions memory (storeWord memory (Arena.length layout.arena) value) := by
  refine touches_store List.mem_cons_self (Nat.le_add_right _ _) ?_ value
  unfold wordBytes Arena.bytes
  simp only
  omega

namespace Holds

theorem block_within (holds : Holds layout bumped memory ledger) {block : Nat}
    (member : block ∈ ledger.outstanding) :
    layout.arena ≤ block ∧ block + layout.elemSize ≤
      layout.arena + (Arena.bytes + layout.capacity * layout.elemSize) := by
  obtain ⟨lower, upper⟩ := holds.sound.inside block member
  unfold Arena.data at lower upper
  omega

theorem take_touches (holds : Holds layout bumped memory ledger) {block : Nat}
    (taken : bunuelTakePool memory layout.pool = .ok (other, block)) :
    Touches layout.regions memory other := by
  simp only [bunuelTakePool, if_neg layout.pool_ne_zero, holds.arena] at taken
  split at taken
  case isTrue =>
    rcases bumpArena_ok taken with rfl | ⟨length, rfl⟩
    · exact Touches.refl _ _
    · exact touches_length length
  case isFalse =>
    rw [Except.ok.injEq, Prod.mk.injEq] at taken
    rw [← taken.1]
    exact touches_freeList _

theorem give_touches (holds : Holds layout bumped memory ledger) {block : Nat}
    (member : block ∈ ledger.outstanding)
    (gave : bunuelGivePool memory layout.pool block = .ok other) :
    Touches layout.regions memory other := by
  obtain ⟨lower, upper⟩ := holds.block_within member
  have wordFits := layout.wordFits
  unfold bunuelGivePool at gave
  split at gave
  case isTrue => cases gave
  case isFalse =>
    rw [Except.ok.injEq] at gave
    rw [← gave]
    refine (touches_store List.mem_cons_self lower ?_ _).trans (touches_freeList block)
    omega

theorem wipe_touches (holds : Holds layout bumped memory ledger)
    (wiped : bunuelWipePool memory layout.pool = .ok other) :
    Touches layout.regions memory other := by
  simp only [bunuelWipePool, if_neg layout.pool_ne_zero, loadArena_freeList, holds.arena,
    bunuelWipeArena, if_neg (Nat.ne_of_gt layout.arenaAddress), Except.ok.injEq] at wiped
  rw [← wiped]
  exact (touches_freeList 0).trans (touches_length 0)

/-- A call changes nothing outside of the blocks of its pool. -/
theorem call_touches (holds : Holds layout bumped memory ledger) {call : PoolCall}
    {after : PoolState} (own : OwnCalls layout.elemSize (memory, ledger) call)
    (stepped : poolCallStep layout.pool (memory, ledger) call = some after) :
    Touches layout.regions memory after.1 := by
  cases call with
  | op op =>
      cases op with
      | take =>
          simp only [poolCallStep, poolStep] at stepped
          split at stepped
          case h_1 => cases stepped
          case h_2 taken =>
            rw [← Option.some.inj stepped]
            exact holds.take_touches taken
      | give block =>
          simp only [poolCallStep, poolStep] at stepped
          split at stepped
          case h_1 => cases stepped
          case h_2 gave =>
            rw [← Option.some.inj stepped]
            exact holds.give_touches own gave
      | write address byte =>
          obtain ⟨block, member, lower, upper⟩ := own
          obtain ⟨first, last⟩ := holds.block_within member
          rw [← Option.some.inj stepped]
          exact touches_update List.mem_cons_self (Nat.le_trans first lower)
            (Nat.lt_of_lt_of_le upper last) byte
  | wipe =>
      simp only [poolCallStep] at stepped
      split at stepped
      case h_1 => cases stepped
      case h_2 wiped =>
        rw [← Option.some.inj stepped]
        exact holds.wipe_touches wiped

theorem beside (holds : Holds layout bumped memory ledger)
    (spared : ∀ region ∈ layout.regions, SameBytes region.2 memory other region.1) :
    Holds layout bumped other ledger := by
  have poolSpared : SameBytes Pool.bytes memory other layout.pool :=
    spared (layout.pool, Pool.bytes) (List.mem_cons_of_mem _ List.mem_cons_self)
  have arenaSpared : SameBytes (Arena.bytes + layout.capacity * layout.elemSize) memory other
      layout.arena := spared _ List.mem_cons_self
  refine holds.frame poolSpared (fun offset bound => arenaSpared offset (by omega)) ?_
  intro block member offset bound
  obtain ⟨i, within, rfl⟩ := holds.mem_block (List.mem_append_left _ member)
  obtain ⟨lower, upper⟩ := layout.block_inside within
  have inner := arenaSpared (layout.block i + offset - layout.arena)
    (by unfold Arena.data at lower upper; omega)
  rwa [Nat.add_sub_cancel' (by unfold Arena.data at lower; omega)] at inner

end Holds

end Footprints

structure LivePool where
  pool : Nat
  arena : Nat
  capacity : Nat
  elemSize : Nat
  ledger : Ledger
  deriving Repr, DecidableEq

def LivePool.blocks (live : LivePool) : List (Nat × Nat) :=
  poolBlocks live.pool live.arena (arenaRequest live.capacity live.elemSize)

structure PoolWorld (Heap : Type) where
  memory : Memory
  heap : Heap
  pools : List LivePool

inductive WorldCall
  | make (capacity elemSize : Nat)
  | call (pool : Nat) (call : PoolCall)
  | drop (pool : Nat)
  deriving Repr, DecidableEq

section World

variable {Heap : Type}

def relist (pool : Nat) (ledger : Ledger) (pools : List LivePool) : List LivePool :=
  pools.map fun live => if live.pool = pool then { live with ledger := ledger } else live

def worldStep (malloc : Malloc Heap) (free : Free Heap) (world : PoolWorld Heap) :
    WorldCall → Option (PoolWorld Heap)
  | .make capacity elemSize =>
      match bunuelMakePool malloc world.heap world.memory capacity elemSize with
      | .error _ => none
      | .ok (memory, heap, pool) =>
          if pool = 0 then some ⟨memory, heap, world.pools⟩
          else
            let live := ⟨pool, loadWord memory (Pool.arena pool), capacity, elemSize, ⟨[], []⟩⟩
            some ⟨memory, heap, live :: world.pools⟩
  | .call pool call =>
      (world.pools.find? fun live => live.pool = pool).bind fun live =>
        (poolCallStep pool (world.memory, live.ledger) call).map fun after =>
          ⟨after.1, world.heap, relist pool after.2 world.pools⟩
  | .drop pool =>
      (bunuelDropPool free world.heap world.memory pool).map fun heap =>
        ⟨world.memory, heap, world.pools.eraseP fun live => live.pool = pool⟩

/-- The sizes of a new pool fit the `int` of its request. A pool is used only if it has an arena,
and then by its own blocks, and dropped only if it was made. -/
def ProperWorldCall (world : PoolWorld Heap) : WorldCall → Prop
  | .make capacity elemSize =>
      wordBytes ≤ elemSize ∧ elemSize < 2 ^ 64 ∧ Arena.bytes + capacity * elemSize < 2 ^ 31
  | .call pool call => ∃ live ∈ world.pools, live.pool = pool ∧ live.arena ≠ 0 ∧
      OwnCalls live.elemSize (world.memory, live.ledger) call
  | .drop pool => pool ∈ world.pools.map LivePool.pool

instance (elemSize : Nat) (state : PoolState) :
    (call : PoolCall) → Decidable (OwnCalls elemSize state call)
  | .op op => inferInstanceAs (Decidable (OwnBlocks elemSize state op))
  | .wipe => inferInstanceAs (Decidable True)

instance (world : PoolWorld Heap) : (call : WorldCall) → Decidable (ProperWorldCall world call)
  | .make _ _ => inferInstanceAs (Decidable (_ ∧ _ ∧ _))
  | .call pool call => inferInstanceAs (Decidable (∃ live ∈ world.pools, live.pool = pool ∧
      live.arena ≠ 0 ∧ OwnCalls live.elemSize (world.memory, live.ledger) call))
  | .drop _ => inferInstanceAs (Decidable (_ ∈ _))

structure LivePool.Laid (live : LivePool) (layout : PoolLayout) : Prop where
  pool : layout.pool = live.pool
  arena : layout.arena = live.arena
  capacity : layout.capacity = live.capacity
  elemSize : layout.elemSize = live.elemSize

structure LivePool.Kept (live : LivePool) (memory : Memory) : Prop where
  made : live.pool ≠ 0
  there : loadWord memory (Pool.arena live.pool) = live.arena
  fits : Arena.bytes + live.capacity * live.elemSize < 2 ^ 31
  unused : live.arena = 0 → live.ledger = ⟨[], []⟩
  holds : live.arena ≠ 0 →
    ∃ layout bumped, live.Laid layout ∧ Holds layout bumped memory live.ledger

def RegionsApart (first second : Nat × Nat) : Prop :=
  Apart first.1 first.2 second.1 second.2

/-- The heap holds the blocks of the pools and what it held before, and each pool is in order. -/
structure Together (live : Heap → List (Nat × Nat)) (initial : List (Nat × Nat))
    (world : PoolWorld Heap) : Prop where
  starts : Starts (live world.heap)
  allocated : (live world.heap).Perm (world.pools.flatMap LivePool.blocks ++ initial)
  apart : (world.pools.flatMap LivePool.blocks).Pairwise RegionsApart
  kept : ∀ pool ∈ world.pools, pool.Kept world.memory

theorem pool_mem_blocks (pool arena request : Nat) :
    (pool, Pool.bytes) ∈ poolBlocks pool arena request := by
  unfold poolBlocks
  split <;> simp

theorem LivePool.pool_mem (live : LivePool) : (live.pool, Pool.bytes) ∈ live.blocks :=
  pool_mem_blocks _ _ _

theorem LivePool.Laid.regions {one : LivePool} {layout : PoolLayout} (laid : one.Laid layout)
    (fits : Arena.bytes + one.capacity * one.elemSize < 2 ^ 31) :
    layout.regions = one.blocks := by
  have arenaMade : one.arena ≠ 0 := laid.arena ▸ Nat.ne_of_gt layout.arenaAddress
  unfold PoolLayout.regions LivePool.blocks poolBlocks
  rw [if_neg arenaMade, arena_size fits, laid.pool, laid.arena, laid.capacity, laid.elemSize]

theorem LivePool.Kept.beside {one : LivePool} {memory other : Memory} (kept : one.Kept memory)
    (spared : ∀ region ∈ one.blocks, SameBytes region.2 memory other region.1) :
    one.Kept other where
  made := kept.made
  there := by
    have poolSpared : SameBytes Pool.bytes memory other one.pool := spared _ one.pool_mem
    exact poolSpared.pool_eq.2.trans kept.there
  fits := kept.fits
  unused := kept.unused
  holds arenaMade := by
    obtain ⟨layout, bumped, laid, holds⟩ := kept.holds arenaMade
    exact ⟨layout, bumped, laid, holds.beside (laid.regions kept.fits ▸ spared)⟩

theorem relist_blocks (pool : Nat) (ledger : Ledger) (pools : List LivePool) :
    (relist pool ledger pools).flatMap LivePool.blocks = pools.flatMap LivePool.blocks := by
  unfold relist
  rw [List.flatMap_map]
  congr 1
  funext live
  split <;> rfl

section Steps

variable {malloc : Malloc Heap} {free : Free Heap} {live : Heap → List (Nat × Nat)}
  {initial : List (Nat × Nat)} {world : PoolWorld Heap}

theorem Together.distinct (together : Together live initial world) :
    (world.pools.map LivePool.pool).Nodup := by
  refine List.pairwise_map.mpr ((List.pairwise_flatMap.mp together.apart).2.imp ?_)
  intro one other apart same
  have beside := apart _ one.pool_mem _ other.pool_mem
  unfold RegionsApart Apart Pool.bytes at beside
  simp only at beside
  omega

theorem Together.same (together : Together live initial world) {one other : LivePool}
    (member : one ∈ world.pools) (otherMember : other ∈ world.pools)
    (samePool : one.pool = other.pool) : one = other :=
  List.inj_on_of_nodup_map together.distinct member otherMember samePool

theorem Together.others (together : Together live initial world) {one other : LivePool}
    (member : one ∈ world.pools) (otherMember : other ∈ world.pools)
    (different : one.pool ≠ other.pool) :
    ∀ region ∈ one.blocks, ∀ beside ∈ other.blocks, RegionsApart region beside := by
  have symmetric : Std.Symm fun one other : LivePool =>
      ∀ region ∈ one.blocks, ∀ beside ∈ other.blocks, RegionsApart region beside :=
    ⟨fun _ _ apart region mine beside theirs => (apart beside theirs region mine).symm⟩
  refine (List.pairwise_flatMap.mp together.apart).2.forall member otherMember ?_
  exact fun same => different (same ▸ rfl)

theorem Together.spares (together : Together live initial world) {one other : LivePool}
    (member : one ∈ world.pools) (otherMember : other ∈ world.pools)
    (different : one.pool ≠ other.pool) {memory : Memory}
    (touches : Touches one.blocks world.memory memory) :
    ∀ region ∈ other.blocks, SameBytes region.2 world.memory memory region.1 := by
  intro region within
  refine touches.spares fun mine touched => ?_
  exact together.others member otherMember different mine touched region within

theorem Together.call_step (together : Together live initial world) {pool : Nat}
    {call : PoolCall} (proper : ProperWorldCall world (.call pool call)) :
    ∃ one ∈ world.pools, one.pool = pool ∧
      ∃ after, worldStep malloc free world (.call pool call) = some after ∧
        Together live initial after ∧ Touches one.blocks world.memory after.memory := by
  obtain ⟨one, member, rfl, arenaMade, own⟩ := proper
  have kept := together.kept one member
  obtain ⟨layout, bumped, laid, holds⟩ := kept.holds arenaMade
  have found : world.pools.find? (fun live => live.pool = one.pool) = some one := by
    obtain ⟨other, found⟩ := Option.isSome_iff_exists.mp
      (List.find?_isSome.mpr ⟨one, member, decide_eq_true rfl⟩ :
        (world.pools.find? fun live => live.pool = one.pool).isSome)
    have samePool : other.pool = one.pool := by simpa using List.find?_some found
    rw [found, together.same (List.mem_of_find?_eq_some found) member samePool]
  rw [← laid.elemSize] at own
  obtain ⟨after, stepped, moreBumped, next⟩ := own.step ⟨bumped, holds⟩
  have touches := holds.call_touches own stepped
  rw [laid.regions kept.fits] at touches
  rw [laid.pool] at stepped
  refine ⟨one, member, rfl, ⟨after.1, world.heap, relist one.pool after.2 world.pools⟩, ?_, ?_,
    touches⟩
  · simp only [worldStep, found, Option.bind_some, stepped, Option.map_some]
  refine ⟨together.starts, ?_, ?_, ?_⟩
  · rw [relist_blocks]
    exact together.allocated
  · rw [relist_blocks]
    exact together.apart
  · intro relisted relistedMember
    obtain ⟨other, otherMember, rfl⟩ := List.mem_map.mp relistedMember
    by_cases samePool : other.pool = one.pool
    · obtain rfl := together.same otherMember member samePool
      rw [if_pos rfl]
      exact {
        made := kept.made
        there := by
          have named := next.arena
          rwa [laid.pool, laid.arena] at named
        fits := kept.fits
        unused := fun noArena => absurd noArena arenaMade
        holds := fun _ =>
          ⟨layout, moreBumped, ⟨laid.pool, laid.arena, laid.capacity, laid.elemSize⟩, next⟩ }
    · rw [if_neg samePool]
      exact (together.kept other otherMember).beside
        (together.spares member otherMember (Ne.symm samePool) touches)

theorem Together.drop_step (together : Together live initial world)
    (manages : Manages malloc free live) {pool : Nat}
    (proper : ProperWorldCall world (.drop pool)) :
    ∃ after, worldStep malloc free world (.drop pool) = some after ∧
      Together live initial after ∧ after.memory = world.memory := by
  obtain ⟨one, member, rfl⟩ := List.mem_map.mp proper
  have kept := together.kept one member
  have blocksPerm := (perm_eraseP together.distinct member).flatMap_right LivePool.blocks
  rw [List.flatMap_cons] at blocksPerm
  have allocated := together.allocated.trans (blocksPerm.append_right initial)
  have held : PoolOwned live one.pool one.arena (arenaRequest one.capacity one.elemSize)
      ((world.memory, one.ledger), world.heap) := by
    refine ⟨kept.there, together.starts, fun region within => allocated.mem_iff.mpr ?_⟩
    exact List.mem_append_left _ (List.mem_append_left _ within)
  have apart : one.arena = 0 ∨ Apart one.arena Arena.bytes one.pool Pool.bytes := by
    refine or_iff_not_imp_left.mpr fun arenaMade => ?_
    obtain ⟨layout, bumped, laid, -⟩ := kept.holds arenaMade
    have separate := layout.separate
    rw [laid.pool, laid.arena] at separate
    unfold Apart at separate ⊢
    omega
  obtain ⟨dropped, gave, perm⟩ := held.drop manages kept.made apart
  have left : (one.blocks ++ live dropped).Perm
      (one.blocks ++ ((world.pools.eraseP fun live => live.pool = one.pool).flatMap
        LivePool.blocks ++ initial)) := by
    rw [← List.append_assoc]
    exact perm.symm.trans allocated
  refine ⟨⟨world.memory, dropped, world.pools.eraseP fun live => live.pool = one.pool⟩, ?_, ?_, rfl⟩
  · simp only [worldStep, gave, Option.map_some]
  exact {
    starts := by
      have starts := together.starts.of_perm perm
      unfold Starts at starts
      rw [List.map_append] at starts
      exact starts.of_append_right
    allocated := (List.perm_append_left_iff _).mp left
    apart := together.apart.sublist (List.eraseP_sublist.flatMap _)
    kept := fun other otherMember => together.kept other (List.mem_of_mem_eraseP otherMember) }

end Steps

section Creation

variable {malloc : Malloc Heap} {free : Free Heap} {live : Heap → List (Nat × Nat)}
  {initial : List (Nat × Nat)} {heap used : Heap} {memory made : Memory}
  {pool arena request capacity elemSize : Nat} {world : PoolWorld Heap}

theorem storedPool_touches (header : Arena.bytes ≤ request) :
    Touches (poolBlocks pool arena request) memory
      (storedPool memory pool arena capacity elemSize) := by
  have poolMember := pool_mem_blocks pool arena request
  have listed (memory : Memory) :
      Touches (poolBlocks pool arena request) memory (storeWord memory (Pool.freeList pool) 0) :=
    touches_store poolMember (Nat.le_refl _)
      (Nat.add_le_add_left (show wordBytes ≤ Pool.bytes by decide) pool) 0
  have named (memory : Memory) :
      Touches (poolBlocks pool arena request) memory (storeWord memory (Pool.arena pool) arena) :=
    touches_store poolMember (Nat.le_add_right _ _) (Nat.le_refl _) arena
  refine ((listed memory).trans ?_).trans (named _)
  split
  case isTrue => exact Touches.refl _ _
  case isFalse arenaMade =>
    have arenaMember : (arena, request) ∈ poolBlocks pool arena request := by
      unfold poolBlocks
      rw [if_neg arenaMade]
      exact List.mem_cons_self
    have sized (memory : Memory) (offset value : Nat) (within : offset + wordBytes ≤ Arena.bytes) :
        Touches (poolBlocks pool arena request) memory
          (storeWord memory (arena + offset) value) :=
      touches_store arenaMember (Nat.le_add_right _ _) (by simp only; omega) value
    exact ((sized _ 0 elemSize (by decide)).trans (sized _ 8 0 (by decide))).trans
      (sized _ 16 capacity (by decide))

/-- The blocks of a new pool lie apart from each other and from all that is live, and nothing
else is written. -/
theorem makePool_apart (manages : Manages malloc free live) (wordFits : wordBytes ≤ elemSize)
    (header : Arena.bytes ≤ arenaRequest capacity elemSize)
    (created : bunuelMakePool malloc heap memory capacity elemSize = .ok (made, used, pool))
    (poolMade : pool ≠ 0) (there : loadWord made (Pool.arena pool) = arena) :
    (poolBlocks pool arena (arenaRequest capacity elemSize)).Pairwise RegionsApart ∧
      (∀ region ∈ poolBlocks pool arena (arenaRequest capacity elemSize), ∀ other ∈ live heap,
        RegionsApart region other) ∧
      Touches (poolBlocks pool arena (arenaRequest capacity elemSize)) memory made := by
  obtain ⟨middle, block, poolBlock, arenaBlock, rfl, named, poolLive⟩ :=
    makePool_parts manages wordFits created poolMade
  obtain rfl : block = arena := named.symm.trans there
  have poolApart := manages.apart heap Pool.bytes
  rw [poolBlock] at poolApart
  replace poolApart : ∀ other ∈ live heap, RegionsApart (pool, Pool.bytes) other :=
    poolApart poolMade
  have arenaApart := manages.apart middle (arenaRequest capacity elemSize)
  rw [arenaBlock, poolLive] at arenaApart
  rw [← and_assoc]
  refine ⟨?_, storedPool_touches header⟩
  generalize arenaRequest capacity elemSize = request at arenaApart
  unfold poolBlocks
  split
  case isTrue =>
    refine ⟨List.pairwise_singleton _ _, fun region member => ?_⟩
    rw [List.mem_singleton.mp member]
    exact poolApart
  case isFalse arenaMade =>
    replace arenaApart : ∀ other ∈ (pool, Pool.bytes) :: live heap,
        RegionsApart (block, request) other := arenaApart arenaMade
    obtain ⟨besidePool, besideLive⟩ := List.forall_mem_cons.mp arenaApart
    refine ⟨List.pairwise_pair.mpr besidePool, fun region member => ?_⟩
    rcases List.mem_pair.mp member with rfl | rfl
    · exact besideLive
    · exact poolApart

theorem makePool_outcome (malloc : Malloc Heap) (heap : Heap) (memory : Memory)
    (capacity : Nat) (wordFits : wordBytes ≤ elemSize) :
    (malloc heap Pool.bytes).1 = 0 ∧ bunuelMakePool malloc heap memory capacity elemSize =
        .ok (memory, (malloc heap Pool.bytes).2, 0) ∨
      ∃ made used pool, pool ≠ 0 ∧
        bunuelMakePool malloc heap memory capacity elemSize = .ok (made, used, pool) := by
  rw [bunuelMakePool_eq malloc heap memory wordFits]
  rcases malloc heap Pool.bytes with ⟨pool, middle⟩
  by_cases noPool : pool = 0
  · exact Or.inl ⟨noPool, if_pos noPool⟩
  · exact Or.inr ⟨_, _, pool, noPool, if_neg noPool⟩

theorem Together.make_step (together : Together live initial world)
    (manages : Manages malloc free live)
    (proper : ProperWorldCall world (.make capacity elemSize)) :
    ∃ after, worldStep malloc free world (.make capacity elemSize) = some after ∧
      Together live initial after ∧
      ∀ one ∈ world.pools, ∀ region ∈ one.blocks,
        SameBytes region.2 world.memory after.memory region.1 := by
  obtain ⟨wordFits, sized, fits⟩ := proper
  rcases makePool_outcome malloc world.heap world.memory capacity wordFits with
    ⟨refused, created⟩ | ⟨made, used, pool, poolMade, created⟩
  · have same := manages.refused world.heap Pool.bytes refused
    refine ⟨⟨world.memory, (malloc world.heap Pool.bytes).2, world.pools⟩, ?_, ?_, ?_⟩
    · simp only [worldStep, created, if_true]
    · exact ⟨same ▸ together.starts, same ▸ together.allocated, together.apart, together.kept⟩
    · exact fun one member region within offset bound => rfl
  · have header : Arena.bytes ≤ arenaRequest capacity elemSize := by
      rw [arena_size fits]
      exact Nat.le_add_right _ _
    obtain ⟨_, -, acquired, rfl, owned⟩ :=
      makePool_owned manages together.starts wordFits header created poolMade ⟨[], []⟩
    obtain ⟨own, besides, touches⟩ :=
      makePool_apart manages wordFits header created poolMade rfl
    have living : ∀ region ∈ world.pools.flatMap LivePool.blocks, region ∈ live world.heap :=
      fun region member => together.allocated.mem_iff.mpr (List.mem_append_left _ member)
    have spared : ∀ one ∈ world.pools, ∀ region ∈ one.blocks,
        SameBytes region.2 world.memory made region.1 := by
      intro one member region within
      refine touches.spares fun mine new => besides mine new region ?_
      exact living region (List.mem_flatMap.mpr ⟨one, member, within⟩)
    let one : LivePool :=
      ⟨pool, loadWord made (Pool.arena pool), capacity, elemSize, ⟨[], []⟩⟩
    refine ⟨⟨made, used, one :: world.pools⟩, ?_, ?_, spared⟩
    · simp only [worldStep, created, if_neg poolMade, one]
    exact {
      starts := owned.starts
      allocated := by
        rw [acquired, List.flatMap_cons, List.append_assoc]
        exact together.allocated.append_left _
      apart := by
        rw [List.flatMap_cons]
        exact List.pairwise_append.mpr ⟨own, together.apart, fun region new other old =>
          besides region new other (living other old)⟩
      kept := by
        refine List.forall_mem_cons.mpr ⟨?_, fun one member =>
          (together.kept one member).beside (spared one member)⟩
        exact {
          made := poolMade
          there := rfl
          fits := fits
          unused := fun _ => rfl
          holds := fun arenaMade => by
            obtain ⟨layout, poolSame, arenaSame, capacitySame, elemSame, holds⟩ :=
              makePool_holds manages.toAllocates wordFits sized fits created poolMade arenaMade
            exact ⟨layout, 0, ⟨poolSame, arenaSame, capacitySame, elemSame⟩, holds⟩ } }

end Creation

def LeavesOthers (malloc : Malloc Heap) (free : Free Heap) (world : PoolWorld Heap)
    (call : WorldCall) : Prop :=
  ∀ after, worldStep malloc free world call = some after → ∀ other ∈ world.pools,
    (∀ inner, call ≠ .call other.pool inner) → ∀ block ∈ other.ledger.outstanding,
      SameBytes other.elemSize world.memory after.memory block

section Together

variable {malloc : Malloc Heap} {free : Free Heap} {live : Heap → List (Nat × Nat)}
  {initial : List (Nat × Nat)} {heap : Heap} {memory : Memory} {world : PoolWorld Heap}

theorem LivePool.Kept.within {one : LivePool} (kept : one.Kept memory) {block : Nat}
    (member : block ∈ one.ledger.outstanding) :
    ∃ region ∈ one.blocks, region.1 ≤ block ∧ block + one.elemSize ≤ region.1 + region.2 := by
  by_cases noArena : one.arena = 0
  · rw [kept.unused noArena] at member
    cases member
  obtain ⟨layout, bumped, laid, holds⟩ := kept.holds noArena
  rw [← laid.regions kept.fits, ← laid.elemSize]
  exact ⟨_, List.mem_cons_self, holds.block_within member⟩

theorem LivePool.Kept.outstanding {one : LivePool} {other : Memory} (kept : one.Kept memory)
    (spared : ∀ region ∈ one.blocks, SameBytes region.2 memory other region.1) :
    ∀ block ∈ one.ledger.outstanding, SameBytes one.elemSize memory other block := by
  intro block member offset bound
  obtain ⟨region, regionMember, lower, upper⟩ := kept.within member
  have inner := spared region regionMember (block + offset - region.1) (by omega)
  rwa [Nat.add_sub_cancel' (by omega)] at inner

theorem Together.step (together : Together live initial world)
    (manages : Manages malloc free live) {call : WorldCall} (proper : ProperWorldCall world call) :
    (∃ after, worldStep malloc free world call = some after ∧ Together live initial after) ∧
      LeavesOthers malloc free world call := by
  cases call with
  | make capacity elemSize =>
      obtain ⟨after, stepped, next, spared⟩ := together.make_step manages proper
      refine ⟨⟨after, stepped, next⟩, fun other same one member _ => ?_⟩
      obtain rfl := Option.some.inj (stepped.symm.trans same)
      exact (together.kept one member).outstanding (spared one member)
  | call pool call =>
      obtain ⟨one, member, rfl, after, stepped, next, touches⟩ := together.call_step proper
      refine ⟨⟨after, stepped, next⟩, fun other same beside besideMember different => ?_⟩
      obtain rfl := Option.some.inj (stepped.symm.trans same)
      have apart : one.pool ≠ beside.pool := fun samePool => different call (samePool ▸ rfl)
      exact (together.kept beside besideMember).outstanding
        (together.spares member besideMember apart touches)
  | drop pool =>
      obtain ⟨after, stepped, next, unchanged⟩ := together.drop_step manages proper
      refine ⟨⟨after, stepped, next⟩, fun other same one member _ block outstanding => ?_⟩
      obtain rfl := Option.some.inj (stepped.symm.trans same)
      rw [unchanged]
      exact fun offset bound => rfl

def BlocksApart (one other : LivePool) : Prop :=
  ∀ block ∈ one.ledger.outstanding, ∀ otherBlock ∈ other.ledger.outstanding,
    Apart block one.elemSize otherBlock other.elemSize

theorem Together.blocks_apart (together : Together live initial world) :
    world.pools.Pairwise BlocksApart := by
  refine (List.pairwise_flatMap.mp together.apart).2.imp_of_mem ?_
  intro one other member otherMember apart block mine otherBlock theirs
  obtain ⟨region, within, lower, upper⟩ := (together.kept one member).within mine
  obtain ⟨beside, otherWithin, otherLower, otherUpper⟩ :=
    (together.kept other otherMember).within theirs
  have regionsApart := apart region within beside otherWithin
  unfold RegionsApart at regionsApart
  unfold Apart at regionsApart ⊢
  omega

theorem pools_side_by_side (manages : Manages malloc free live) (starts : Starts (live heap))
    {calls : List WorldCall}
    (proper : Along (worldStep malloc free) ProperWorldCall ⟨memory, heap, []⟩ calls) :
    Along (worldStep malloc free) (LeavesOthers malloc free) ⟨memory, heap, []⟩ calls ∧
      ∃ after, run (worldStep malloc free) ⟨memory, heap, []⟩ calls = some after ∧
        (live after.heap).Perm (after.pools.flatMap LivePool.blocks ++ live heap) ∧
        after.pools.Pairwise BlocksApart ∧
        ∀ one ∈ after.pools, one.arena ≠ 0 →
          PoolSound one.pool one.arena one.capacity one.elemSize (after.memory, one.ledger) := by
  have initially : Together live (live heap) ⟨memory, heap, []⟩ :=
    ⟨starts, List.Perm.refl _, List.Pairwise.nil, by simp⟩
  refine ⟨?_, ?_⟩
  · refine along_of_invariant (Together live (live heap)) ?_ ?_ initially proper
    · exact fun _ _ together proper => (together.step manages proper).2
    · intro before call after together proper stepped
      obtain ⟨⟨next, nextStepped, held⟩, -⟩ := together.step manages proper
      exact Option.some.inj (nextStepped.symm.trans stepped) ▸ held
  obtain ⟨after, ran, together⟩ := run_invariant (Together live (live heap))
    (fun _ _ together proper => (together.step manages proper).1) initially proper
  refine ⟨after, ran, together.allocated, together.blocks_apart, ?_⟩
  intro one member arenaMade
  obtain ⟨layout, bumped, laid, holds⟩ := (together.kept one member).holds arenaMade
  have sound := holds.sound
  rwa [laid.pool, laid.arena, laid.capacity, laid.elemSize] at sound

end Together

end World

def threePools : List WorldCall :=
  [.make 2 8, .make 1 16, .call 32 (.op .take), .call 128 (.op .take), .call 32 (.op (.write 90 7)),
    .call 128 (.op (.give 184)), .drop 32, .call 128 (.op .take), .make 3 8]

theorem pools_side_by_side_three :
    ∃ after, run (worldStep (roomyMalloc (2 ^ 40)) listFree) ⟨fun _ => 0, [], []⟩ threePools =
        some after ∧
      after.heap.Perm (after.pools.flatMap LivePool.blocks) ∧
      after.pools.Pairwise BlocksApart := by
  have proper : Along (worldStep (roomyMalloc (2 ^ 40)) listFree) ProperWorldCall
      ⟨fun _ => 0, [], []⟩ threePools := by decide +kernel
  obtain ⟨-, after, ran, allocated, apart, -⟩ :=
    pools_side_by_side (roomyMalloc_manages (2 ^ 40)) (show Starts (id []) from List.nodup_nil)
      proper
  exact ⟨after, ran, by simpa using allocated, apart⟩

end YakUnshorn
