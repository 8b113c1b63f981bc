import YakUnshorn.PoolCreation
import Mathlib.Data.List.Perm.Basic

/-!
What `bunuel_drop_pool` gives back: the blocks that `bunuel_make_pool` allocated, and no other,
whatever was done with the pool and on the heap in between.
-/

namespace YakUnshorn

open ByteMemory StepRuns

/-- `free`, on the heap of `malloc`: nothing when the call is undefined. -/
abbrev Free (Heap : Type) := Heap → Nat → Option Heap

section Drops

variable {Heap : Type}

def bunuelDropArena (free : Free Heap) (heap : Heap) (arena : Nat) : Option Heap :=
  free heap arena

/-- `bunuel_drop_pool`, with no result when its assertion fails. -/
def bunuelDropPool (free : Free Heap) (heap : Heap) (memory : Memory) (pool : Nat) :
    Option Heap :=
  if pool = 0 then none
  else
    (bunuelDropArena free heap (loadWord memory (Pool.arena pool))).bind fun heap =>
      free heap pool

def SparesPool (pool : Nat) (_ : PoolState) : PoolCall → Prop
  | .op .take => True
  | .op (.give block) => Apart block wordBytes pool Pool.bytes
  | .op (.write address _) => address < pool ∨ pool + Pool.bytes ≤ address
  | .wipe => True

inductive LifeCall
  | pool (call : PoolCall)
  | malloc (size : Nat)
  | free (address : Nat)
  deriving Repr, DecidableEq

def lifeStep (malloc : Malloc Heap) (free : Free Heap) (pool : Nat) (state : PoolState × Heap) :
    LifeCall → Option (PoolState × Heap)
  | .pool call => (poolCallStep pool state.1 call).map fun after => (after, state.2)
  | .malloc size => some (state.1, (malloc state.2 size).2)
  | .free address => (free state.2 address).map fun after => (state.1, after)

/-- The program stays off the members of the pool, and frees neither the pool nor its arena. -/
def SparesLife (pool : Nat) (state : PoolState × Heap) : LifeCall → Prop
  | .pool call => SparesPool pool state.1 call
  | .malloc _ => True
  | .free address =>
      address ≠ 0 → address ≠ pool ∧ address ≠ loadWord state.1.1 (Pool.arena pool)

instance (pool : Nat) (state : PoolState) :
    (call : PoolCall) → Decidable (SparesPool pool state call)
  | .op .take => inferInstanceAs (Decidable True)
  | .op (.give _) => inferInstanceAs (Decidable (_ ∨ _))
  | .op (.write _ _) => inferInstanceAs (Decidable (_ ∨ _))
  | .wipe => inferInstanceAs (Decidable True)

instance (pool : Nat) (state : PoolState × Heap) :
    (call : LifeCall) → Decidable (SparesLife pool state call)
  | .pool call => inferInstanceAs (Decidable (SparesPool pool state.1 call))
  | .malloc _ => inferInstanceAs (Decidable True)
  | .free _ => inferInstanceAs (Decidable (_ → _ ∧ _))

/-- What is documented of `malloc` and `free` together: no two live blocks start at one address,
and a block that is freed is not live any more. -/
structure Manages (malloc : Malloc Heap) (free : Free Heap) (live : Heap → List (Nat × Nat)) :
    Prop extends AllocatesAligned malloc live where
  unique : ∀ heap size, (malloc heap size).1 ≠ 0 →
    (malloc heap size).1 ∉ (live heap).map Prod.fst
  null : ∀ heap, free heap 0 = some heap
  freed : ∀ heap address, address ≠ 0 → address ∈ (live heap).map Prod.fst →
    ∃ after, free heap address = some after ∧
      live after = (live heap).eraseP fun region => region.1 = address
  foreign : ∀ heap address, address ≠ 0 → address ∉ (live heap).map Prod.fst →
    free heap address = none

def Starts (blocks : List (Nat × Nat)) : Prop := (blocks.map Prod.fst).Nodup

theorem Starts.of_perm {blocks others : List (Nat × Nat)} (starts : Starts blocks)
    (perm : blocks.Perm others) : Starts others :=
  (perm.map Prod.fst).nodup_iff.mp starts

theorem perm_eraseP {Item : Type} {key : Item → Nat} {items : List Item} {item : Item}
    (distinct : (items.map key).Nodup) (member : item ∈ items) :
    items.Perm (item :: items.eraseP fun other => key other = key item) := by
  obtain ⟨found, before, behind, -, same, split, erased⟩ :=
    List.exists_of_eraseP (p := fun other => key other = key item) member (by simp)
  have here : found = item := by
    have there : found ∈ items := by simp [split]
    exact List.inj_on_of_nodup_map distinct there member (by simpa using same)
  rw [erased, split, here]
  exact List.perm_middle

section Managed

variable {malloc : Malloc Heap} {free : Free Heap} {live : Heap → List (Nat × Nat)} {heap : Heap}
  {blocks : List (Nat × Nat)}

structure Owned (live : Heap → List (Nat × Nat)) (blocks : List (Nat × Nat)) (heap : Heap) :
    Prop where
  starts : Starts (live heap)
  within : blocks ⊆ live heap

theorem Manages.frees (manages : Manages malloc free live) {region : Nat × Nat}
    (starts : Starts (live heap)) (member : region ∈ live heap) (made : region.1 ≠ 0) :
    ∃ after, free heap region.1 = some after ∧ (live heap).Perm (region :: live after) := by
  obtain ⟨after, freed, left⟩ := manages.freed heap region.1 made (List.mem_map_of_mem member)
  refine ⟨after, freed, ?_⟩
  rw [left]
  exact perm_eraseP starts member

theorem Owned.allocate (owned : Owned live blocks heap) (manages : Manages malloc free live)
    (size : Nat) : Owned live blocks (malloc heap size).2 := by
  by_cases refused : (malloc heap size).1 = 0
  · have same := manages.refused heap size refused
    exact ⟨by rw [same]; exact owned.starts, by rw [same]; exact owned.within⟩
  · have recorded := manages.recorded heap size refused
    constructor
    · rw [recorded]
      exact List.nodup_cons.mpr ⟨manages.unique heap size refused, owned.starts⟩
    · rw [recorded]
      exact fun region member => List.mem_cons_of_mem _ (owned.within member)

theorem Owned.release (owned : Owned live blocks heap) (manages : Manages malloc free live)
    {address : Nat} {after : Heap}
    (others : address ≠ 0 → ∀ region ∈ blocks, region.1 ≠ address)
    (freed : free heap address = some after) : Owned live blocks after := by
  by_cases null : address = 0
  · rw [null, manages.null, Option.some.injEq] at freed
    exact freed ▸ owned
  by_cases member : address ∈ (live heap).map Prod.fst
  · obtain ⟨next, released, left⟩ := manages.freed heap address null member
    obtain rfl : next = after := Option.some.inj (released.symm.trans freed)
    constructor
    · rw [left]
      exact (List.eraseP_sublist.map Prod.fst).nodup owned.starts
    · rw [left]
      intro region kept
      have spared := others null region kept
      rw [List.mem_eraseP_of_neg (by simpa using spared)]
      exact owned.within kept
  · rw [manages.foreign heap address null member] at freed
    cases freed

end Managed

def poolBlocks (pool arena request : Nat) : List (Nat × Nat) :=
  if arena = 0 then [(pool, Pool.bytes)] else [(arena, request), (pool, Pool.bytes)]

theorem poolBlocks_start {pool arena request : Nat} {region : Nat × Nat}
    (member : region ∈ poolBlocks pool arena request) :
    region.1 = pool ∨ region.1 = arena := by
  unfold poolBlocks at member
  split at member
  case isTrue =>
    rw [List.mem_singleton.mp member]
    exact Or.inl rfl
  case isFalse =>
    rcases List.mem_pair.mp member with rfl | rfl
    · exact Or.inr rfl
    · exact Or.inl rfl

theorem bumpArena_ok {memory after : Memory} {arena block : Nat}
    (bumped : bunuelBumpArena memory arena = .ok (after, block)) :
    after = memory ∨ ∃ length, after = storeWord memory (Arena.length arena) length := by
  rcases bumpArena_cases memory arena with ⟨fault, failed, -⟩ | full | ⟨length, next, taken⟩
  · rw [failed] at bumped
    cases bumped
  · rw [full, Except.ok.injEq, Prod.mk.injEq] at bumped
    exact Or.inl bumped.1.symm
  · rw [taken, Except.ok.injEq, Prod.mk.injEq] at bumped
    exact Or.inr ⟨length, bumped.1.symm⟩

section Keeping

variable {pool arena : Nat} {state : PoolState} {call : PoolCall}

theorem loadArena_storeWord {memory : Memory} {address value : Nat}
    (spared : Apart address wordBytes (Pool.arena pool) wordBytes) :
    loadWord (storeWord memory address value) (Pool.arena pool) =
      loadWord memory (Pool.arena pool) :=
  loadWord_storeWord_apart spared.symm

theorem loadArena_freeList {memory : Memory} {value : Nat} :
    loadWord (storeWord memory (Pool.freeList pool) value) (Pool.arena pool) =
      loadWord memory (Pool.arena pool) :=
  loadArena_storeWord (Or.inl (Nat.le_refl _))

theorem length_apart_arena (apart : Apart arena Arena.bytes pool Pool.bytes) :
    Apart (Arena.length arena) wordBytes (Pool.arena pool) wordBytes := by
  unfold Apart Arena.bytes Pool.bytes at apart
  unfold Apart Arena.length Pool.arena wordBytes
  omega

theorem takePool_keeps {memory after : Memory} {block : Nat}
    (apart : Apart (loadWord memory (Pool.arena pool)) Arena.bytes pool Pool.bytes)
    (taken : bunuelTakePool memory pool = .ok (after, block)) :
    loadWord after (Pool.arena pool) = loadWord memory (Pool.arena pool) := by
  unfold bunuelTakePool at taken
  split at taken
  case isTrue => cases taken
  case isFalse =>
    simp only at taken
    split at taken
    case isTrue =>
      rcases bumpArena_ok taken with rfl | ⟨length, rfl⟩
      · rfl
      · exact loadArena_storeWord (length_apart_arena apart)
    case isFalse =>
      rw [Except.ok.injEq, Prod.mk.injEq] at taken
      rw [← taken.1, loadArena_freeList]

theorem givePool_keeps {memory after : Memory} {block : Nat}
    (spared : Apart block wordBytes pool Pool.bytes)
    (gave : bunuelGivePool memory pool block = .ok after) :
    loadWord after (Pool.arena pool) = loadWord memory (Pool.arena pool) := by
  unfold bunuelGivePool at gave
  split at gave
  case isTrue => cases gave
  case isFalse =>
    rw [Except.ok.injEq] at gave
    rw [← gave, loadArena_freeList, loadArena_storeWord]
    unfold Apart Pool.bytes at spared
    unfold Apart Pool.arena wordBytes at *
    omega

theorem wipePool_keeps {memory after : Memory}
    (apart : Apart (loadWord memory (Pool.arena pool)) Arena.bytes pool Pool.bytes)
    (wiped : bunuelWipePool memory pool = .ok after) :
    loadWord after (Pool.arena pool) = loadWord memory (Pool.arena pool) := by
  simp only [bunuelWipePool, loadArena_freeList, bunuelWipeArena] at wiped
  split at wiped
  case isTrue => cases wiped
  case isFalse =>
    split at wiped
    case isTrue => cases wiped
    case isFalse =>
      rw [Except.ok.injEq] at wiped
      rw [← wiped, loadArena_storeWord (length_apart_arena apart), loadArena_freeList]

theorem writes_keep {memory : Memory} {address : Nat} {byte : UInt8}
    (spared : address < pool ∨ pool + Pool.bytes ≤ address) :
    loadWord (Function.update memory address byte) (Pool.arena pool) =
      loadWord memory (Pool.arena pool) := by
  apply load_congr
  intro offset bound
  apply Function.update_of_ne
  unfold Pool.bytes at spared
  unfold Pool.arena
  unfold wordBytes at bound
  omega

theorem keeps_arena (apart : Apart arena Arena.bytes pool Pool.bytes)
    (there : loadWord state.1 (Pool.arena pool) = arena) (spares : SparesPool pool state call)
    {after : PoolState} (stepped : poolCallStep pool state call = some after) :
    loadWord after.1 (Pool.arena pool) = arena := by
  rw [← there] at apart ⊢
  cases call with
  | op op =>
      cases op with
      | take =>
          simp only [poolCallStep, poolStep] at stepped
          split at stepped
          case h_1 => cases stepped
          case h_2 taken =>
            rw [← Option.some.inj stepped]
            exact takePool_keeps apart taken
      | give block =>
          simp only [poolCallStep, poolStep] at stepped
          split at stepped
          case h_1 => cases stepped
          case h_2 gave =>
            rw [← Option.some.inj stepped]
            exact givePool_keeps spares gave
      | write address byte =>
          rw [← Option.some.inj stepped]
          exact writes_keep spares
  | wipe =>
      simp only [poolCallStep] at stepped
      split at stepped
      case h_1 => cases stepped
      case h_2 wiped =>
        rw [← Option.some.inj stepped]
        exact wipePool_keeps apart wiped

theorem keeps_no_arena {after : PoolState}
    (none : loadWord state.1 (Pool.arena pool) = 0) (spares : SparesPool pool state call)
    (stepped : poolCallStep pool state call = some after) :
    loadWord after.1 (Pool.arena pool) = 0 := by
  cases call with
  | op op =>
      cases op with
      | take =>
          simp only [poolCallStep, poolStep, bunuelTakePool, none, bunuelBumpArena,
            if_true] at stepped
          split at stepped
          case h_1 => cases stepped
          case h_2 memory block taken =>
            rw [← Option.some.inj stepped]
            split at taken
            case isTrue => cases taken
            case isFalse =>
              split at taken
              case isTrue => cases taken
              case isFalse =>
                rw [Except.ok.injEq, Prod.mk.injEq] at taken
                rw [← taken.1, loadArena_freeList, none]
      | give block =>
          simp only [poolCallStep, poolStep] at stepped
          split at stepped
          case h_1 => cases stepped
          case h_2 gave =>
            rw [← Option.some.inj stepped]
            exact (givePool_keeps spares gave).trans none
      | write address byte =>
          rw [← Option.some.inj stepped]
          exact (writes_keep spares).trans none
  | wipe =>
      simp only [poolCallStep, bunuelWipePool, loadArena_freeList, none, bunuelWipeArena,
        if_true] at stepped
      split at stepped
      case h_1 => cases stepped
      case h_2 wiped =>
        split at wiped <;> cases wiped

end Keeping

structure PoolOwned (live : Heap → List (Nat × Nat)) (pool arena request : Nat)
    (state : PoolState × Heap) : Prop where
  there : loadWord state.1.1 (Pool.arena pool) = arena
  owned : Owned live (poolBlocks pool arena request) state.2

section Life

variable {malloc : Malloc Heap} {free : Free Heap} {live : Heap → List (Nat × Nat)}
  {heap used : Heap} {memory made : Memory} {pool arena request capacity elemSize : Nat}
  {state after : PoolState × Heap} {call : LifeCall}

theorem PoolOwned.step (held : PoolOwned live pool arena request state)
    (manages : Manages malloc free live)
    (apart : arena = 0 ∨ Apart arena Arena.bytes pool Pool.bytes)
    (spares : SparesLife pool state call)
    (stepped : lifeStep malloc free pool state call = some after) :
    PoolOwned live pool arena request after := by
  obtain ⟨there, owned⟩ := held
  cases call with
  | pool call =>
      obtain ⟨next, ran, rfl⟩ := Option.map_eq_some_iff.mp stepped
      refine ⟨?_, owned⟩
      rcases apart with rfl | apart
      · exact keeps_no_arena there spares ran
      · exact keeps_arena apart there spares ran
  | malloc size =>
      rw [← Option.some.inj stepped]
      exact ⟨there, owned.allocate manages size⟩
  | free address =>
      obtain ⟨next, freed, rfl⟩ := Option.map_eq_some_iff.mp stepped
      refine ⟨there, owned.release manages ?_ freed⟩
      intro nonnull region member
      obtain ⟨notPool, notArena⟩ := spares nonnull
      rw [there] at notArena
      rcases poolBlocks_start member with start | start
      · exact start ▸ notPool.symm
      · exact start ▸ notArena.symm

theorem PoolOwned.drop (held : PoolOwned live pool arena request state)
    (manages : Manages malloc free live) (poolMade : pool ≠ 0)
    (apart : arena = 0 ∨ Apart arena Arena.bytes pool Pool.bytes) :
    ∃ dropped, bunuelDropPool free state.2 state.1.1 pool = some dropped ∧
      (live state.2).Perm (poolBlocks pool arena request ++ live dropped) := by
  obtain ⟨there, starts, within⟩ := held
  unfold bunuelDropPool bunuelDropArena
  rw [if_neg poolMade, there]
  unfold poolBlocks at within ⊢
  by_cases noArena : arena = 0
  · rw [if_pos noArena] at within ⊢
    obtain ⟨dropped, freed, perm⟩ := manages.frees starts (within List.mem_cons_self) poolMade
    exact ⟨dropped, by rw [noArena, manages.null]; exact freed, perm⟩
  · rw [if_neg noArena] at within ⊢
    obtain ⟨middle, freedArena, permArena⟩ :=
      manages.frees starts (within List.mem_cons_self) noArena
    have left : Starts (live middle) := (List.nodup_cons.mp (starts.of_perm permArena)).2
    have poolLive : (pool, Pool.bytes) ∈ live middle := by
      have member := permArena.mem_iff.mp (within (List.mem_cons_of_mem _ List.mem_cons_self))
      rcases List.mem_cons.mp member with same | later
      · have overlap := apart.resolve_left noArena
        have here : pool = arena := congrArg Prod.fst same
        unfold Apart Arena.bytes Pool.bytes at overlap
        omega
      · exact later
    obtain ⟨dropped, freedPool, permPool⟩ := manages.frees left poolLive poolMade
    refine ⟨dropped, ?_, permArena.trans (permPool.cons _)⟩
    rw [freedArena]
    exact freedPool

theorem makePool_parts (manages : Manages malloc free live) (wordFits : wordBytes ≤ elemSize)
    (created : bunuelMakePool malloc heap memory capacity elemSize = .ok (made, used, pool))
    (poolMade : pool ≠ 0) :
    ∃ middle arena, malloc heap Pool.bytes = (pool, middle) ∧
      malloc middle (arenaRequest capacity elemSize) = (arena, used) ∧
      made = storedPool memory pool arena capacity elemSize ∧
      loadWord made (Pool.arena pool) = arena ∧
      live middle = (pool, Pool.bytes) :: live heap := by
  obtain ⟨middle, arena, poolBlock, arenaBlock, rfl⟩ := makePool_made wordFits created poolMade
  have pointer := manages.pointer middle (arenaRequest capacity elemSize)
  have poolLive := manages.recorded heap Pool.bytes
  rw [arenaBlock] at pointer
  rw [poolBlock] at poolLive
  exact ⟨middle, arena, poolBlock, arenaBlock, rfl, loadWord_storeWord pointer, poolLive poolMade⟩

theorem makePool_owned (manages : Manages malloc free live) (starts : Starts (live heap))
    (wordFits : wordBytes ≤ elemSize) (header : Arena.bytes ≤ arenaRequest capacity elemSize)
    (created : bunuelMakePool malloc heap memory capacity elemSize = .ok (made, used, pool))
    (poolMade : pool ≠ 0) (ledger : Ledger) :
    ∃ arena, (arena = 0 ∨ Apart arena Arena.bytes pool Pool.bytes) ∧
      live used = poolBlocks pool arena (arenaRequest capacity elemSize) ++ live heap ∧
      PoolOwned live pool arena (arenaRequest capacity elemSize) ((made, ledger), used) := by
  obtain ⟨middle, arena, poolBlock, arenaBlock, -, there, poolLive⟩ :=
    makePool_parts manages wordFits created poolMade
  have apart := manages.apart middle (arenaRequest capacity elemSize)
  have refused := manages.refused middle (arenaRequest capacity elemSize)
  have recorded := manages.recorded middle (arenaRequest capacity elemSize)
  have poolStarts := (Owned.mk starts (List.nil_subset _)).allocate manages Pool.bytes
  rw [poolBlock] at poolStarts
  have usedStarts := poolStarts.allocate manages (arenaRequest capacity elemSize)
  rw [arenaBlock] at apart refused recorded usedStarts
  have acquired : live used = poolBlocks pool arena (arenaRequest capacity elemSize) ++
      live heap := by
    unfold poolBlocks
    by_cases noArena : arena = 0
    · rw [if_pos noArena, refused noArena, poolLive]
      rfl
    · rw [if_neg noArena, recorded noArena, poolLive]
      rfl
  refine ⟨arena, ?_, acquired, there, usedStarts.starts, ?_⟩
  · refine or_iff_not_imp_left.mpr fun arenaMade => ?_
    have separate := apart arenaMade (pool, Pool.bytes) (poolLive ▸ List.mem_cons_self)
    unfold Apart at separate ⊢
    omega
  · rw [acquired]
    exact List.subset_append_left _ _

/-- What `bunuel_make_pool` allocates is given back by `bunuel_drop_pool` at any later time, if
the `int` has not cut the request short of the header of the arena. -/
theorem drop_pool_gives_back (manages : Manages malloc free live) (starts : Starts (live heap))
    (wordFits : wordBytes ≤ elemSize) (header : Arena.bytes ≤ arenaRequest capacity elemSize)
    (created : bunuelMakePool malloc heap memory capacity elemSize = .ok (made, used, pool))
    (poolMade : pool ≠ 0) :
    ∃ blocks, live used = blocks ++ live heap ∧
      ∀ calls later,
        Along (lifeStep malloc free pool) (SparesLife pool) ((made, ⟨[], []⟩), used) calls →
        run (lifeStep malloc free pool) ((made, ⟨[], []⟩), used) calls = some later →
        ∃ dropped, bunuelDropPool free later.2 later.1.1 pool = some dropped ∧
          (live later.2).Perm (blocks ++ live dropped) := by
  obtain ⟨arena, apart, acquired, initially⟩ :=
    makePool_owned manages starts wordFits header created poolMade ⟨[], []⟩
  refine ⟨_, acquired, fun calls later spares ran => ?_⟩
  have held := invariant_of_run (PoolOwned live pool arena (arenaRequest capacity elemSize))
    (fun _ _ _ held spared stepped => held.step manages apart spared stepped) initially spares ran
  exact held.drop manages poolMade apart

end Life

end Drops

def roomyMalloc (limit : Nat) : Malloc (List (Nat × Nat)) := fun heap size =>
  let start := freshStart heap + 16
  if size ≤ limit ∧ start + size < 2 ^ 64 then (start, (start, size) :: heap)
  else (0, heap)

def listFree : Free (List (Nat × Nat)) := fun heap address =>
  if address = 0 then some heap
  else if address ∈ heap.map Prod.fst then
    some (heap.eraseP fun region => region.1 = address)
  else none

theorem roomyMalloc_some {limit : Nat} {heap : List (Nat × Nat)} {size : Nat}
    (nonzero : (roomyMalloc limit heap size).1 ≠ 0) :
    roomyMalloc limit heap size = (freshStart heap + 16, (freshStart heap + 16, size) :: heap) ∧
      freshStart heap + 16 + size < 2 ^ 64 := by
  unfold roomyMalloc at *
  simp only at nonzero
  split at nonzero
  case isTrue room => exact ⟨if_pos room, room.2⟩
  case isFalse => exact absurd rfl nonzero

theorem roomyMalloc_manages (limit : Nat) : Manages (roomyMalloc limit) listFree id where
  inside heap size nonzero := by
    obtain ⟨allocated, room⟩ := roomyMalloc_some nonzero
    rw [allocated]
    exact Nat.le_of_lt room
  apart heap size nonzero region member := by
    rw [(roomyMalloc_some nonzero).1]
    exact Or.inr (Nat.le_trans (le_freshStart member) (Nat.le_add_right _ _))
  recorded heap size nonzero := by
    rw [(roomyMalloc_some nonzero).1]
    rfl
  aligned heap size := by
    unfold roomyMalloc
    simp only
    split
    case isTrue => exact Nat.dvd_add (Nat.dvd_mul_left 16 _) (Nat.dvd_refl 16)
    case isFalse => exact Nat.dvd_zero 16
  pointer heap size := by
    unfold roomyMalloc
    simp only
    split
    case isTrue room => exact Nat.lt_of_le_of_lt (Nat.le_add_right _ _) room.2
    case isFalse => exact Nat.two_pow_pos 64
  refused heap size null := by
    unfold roomyMalloc at *
    simp only at null ⊢
    split at null
    case isTrue => simp at null
    case isFalse large => rw [if_neg large]
  unique heap size nonzero := by
    rw [(roomyMalloc_some nonzero).1]
    intro listed
    obtain ⟨region, member, same⟩ := List.mem_map.mp listed
    have below : region.1 + region.2 ≤ freshStart heap := le_freshStart member
    simp only at same
    omega
  null heap := rfl
  freed heap address nonnull member := ⟨_, (if_neg nonnull).trans (if_pos member), rfl⟩
  foreign heap address nonnull absent := (if_neg nonnull).trans (if_neg absent)

def busyLife : List LifeCall :=
  [.pool (.op .take), .malloc 5, .pool (.op (.write 90 7)), .malloc 9, .free 128,
    .pool (.op (.give 88)), .pool .wipe, .free 0]

theorem drop_pool_gives_back_one :
    ∃ later dropped, run (lifeStep (roomyMalloc (2 ^ 40)) listFree 32)
        ((storedPool (fun _ => 0) 32 64 2 8, ⟨[], []⟩), [(64, 40), (32, 16)]) busyLife =
          some later ∧
      bunuelDropPool listFree later.2 later.1.1 32 = some dropped ∧
      later.2.Perm ([(64, 40), (32, 16)] ++ dropped) := by
  obtain ⟨blocks, acquired, drops⟩ :=
    drop_pool_gives_back (roomyMalloc_manages (2 ^ 40)) (show Starts (id []) from List.nodup_nil)
      (show wordBytes ≤ 8 by decide) (show Arena.bytes ≤ arenaRequest 2 8 by decide)
      (show bunuelMakePool (roomyMalloc (2 ^ 40)) [] (fun _ => 0) 2 8 =
        .ok (storedPool (fun _ => 0) 32 64 2 8, [(64, 40), (32, 16)], 32) from rfl) (by decide)
  rw [id, id, List.append_nil] at acquired
  subst acquired
  obtain ⟨later, ran⟩ := Option.isSome_iff_exists.mp
    (show (run (lifeStep (roomyMalloc (2 ^ 40)) listFree 32)
      ((storedPool (fun _ => 0) 32 64 2 8, ⟨[], []⟩), [(64, 40), (32, 16)]) busyLife).isSome by
        decide +kernel)
  obtain ⟨dropped, gave, perm⟩ := drops busyLife later (by decide +kernel) ran
  exact ⟨later, dropped, ran, gave, perm⟩

end YakUnshorn
