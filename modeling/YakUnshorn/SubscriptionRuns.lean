import YakUnshorn.SubscriptionLinks
import YakUnshorn.Lib.Runs

/-!
Runs of `oxi_subscribe_events` and `oxi_unsubscribe` against what they are for: a
registry that knows, for each topic, the live subscriptions from newest to oldest.
-/

namespace YakUnshorn

open CMachine LinkedChain StepRuns

/-- The live subscriptions of each topic, newest first, and all ids handed out so far. -/
structure Registry where
  live : Fin topicsCount → List Entry
  used : List Int

namespace Registry

def empty : Registry := ⟨fun _ => [], []⟩

def subscribe (registry : Registry) (type : Fin topicsCount) (entry : Entry) : Registry where
  live := Function.update registry.live type (entry :: registry.live type)
  used := entry.id :: registry.used

def unsubscribe (registry : Registry) (id : Nat) : Registry where
  live := fun topic => (registry.live topic).filter fun entry => toSizeT entry.id ≠ id
  used := registry.used

def HasId (registry : Registry) (id : Nat) : Prop :=
  ∃ topic, ∃ entry ∈ registry.live topic, toSizeT entry.id = id

instance (registry : Registry) (id : Nat) : Decidable (registry.HasId id) :=
  inferInstanceAs (Decidable (∃ topic, ∃ entry ∈ registry.live topic, toSizeT entry.id = id))

def liveIds (registry : Registry) : List Int :=
  (List.finRange topicsCount).flatMap fun topic => (registry.live topic).map Entry.id

def liveCount (registry : Registry) : Nat := registry.liveIds.length

theorem mem_liveIds (registry : Registry) (id : Int) :
    id ∈ registry.liveIds ↔ ∃ topic, ∃ entry ∈ registry.live topic, entry.id = id := by
  simp [liveIds]

theorem mem_liveIds_subscribe (registry : Registry) (type : Fin topicsCount) (entry : Entry)
    (id : Int) :
    id ∈ (registry.subscribe type entry).liveIds ↔ entry.id = id ∨ id ∈ registry.liveIds := by
  simp only [mem_liveIds, subscribe]
  constructor
  · rintro ⟨topic, found, member, same⟩
    rcases mem_push member with ⟨new, -⟩ | old
    · exact Or.inl (new ▸ same)
    · exact Or.inr ⟨topic, found, old, same⟩
  · rintro (same | ⟨topic, found, member, same⟩)
    · exact ⟨type, entry, by simp, same⟩
    · exact ⟨topic, found, mem_push_of_mem member, same⟩

theorem mem_liveIds_unsubscribe (registry : Registry) (id : Nat) (query : Int) :
    query ∈ (registry.unsubscribe id).liveIds ↔
      query ∈ registry.liveIds ∧ toSizeT query ≠ id := by
  simp only [mem_liveIds, unsubscribe, List.mem_filter, decide_eq_true_eq]
  constructor
  · rintro ⟨topic, found, ⟨member, other⟩, rfl⟩
    exact ⟨⟨topic, found, member, rfl⟩, other⟩
  · rintro ⟨⟨topic, found, member, rfl⟩, other⟩
    exact ⟨topic, found, ⟨member, other⟩, rfl⟩

end Registry

inductive SubOp
  | subscribe (id : Int) (type : Fin topicsCount) (callback userData : Pointer)
  | unsubscribe (id : Nat)
  deriving Repr, DecidableEq

inductive SubResult
  | subscribed (id : Int)
  | unsubscribed (done : Bool)
  deriving Repr, DecidableEq

def subCall (system : OxEventSystem) : SubOp → Except Fault (OxEventSystem × SubResult)
  | .subscribe id type callback userData =>
      let (after, result) := oxiSubscribeEvents system id type callback userData
      .ok (after, .subscribed result)
  | .unsubscribe id =>
      match oxiUnsubscribe system id with
      | .error fault => .error fault
      | .ok (after, done) => .ok (after, .unsubscribed done)

def Registry.call (registry : Registry) : SubOp → Registry × SubResult
  | .subscribe id type callback userData =>
      (registry.subscribe type ⟨id, callback, userData⟩, .subscribed id)
  | .unsubscribe id => (registry.unsubscribe id, .unsubscribed (decide (registry.HasId id)))

abbrev SubState := OxEventSystem × Registry

def subFresh : SubState := (oxiMakeEventSystem, Registry.empty)

def subStep (state : SubState) (op : SubOp) : Option SubState :=
  match subCall state.1 op with
  | .error _ => none
  | .ok (after, _) => some (after, (state.2.call op).1)

def Presents (system : OxEventSystem) (registry : Registry) : Prop :=
  ∀ topic, ∃ nodes, Chain (links system.items) (system.topics topic) nodes ∧
    nodes.map (fun slot => (system.items slot).entry) = registry.live topic

/-- The call returns, with the right result, and the topics are right afterwards. -/
def CallCorrect (state : SubState) (op : SubOp) : Prop :=
  ∃ after, subCall state.1 op = .ok (after, (state.2.call op).2) ∧
    Presents after (state.2.call op).1

/-- `rand` gives a fresh id, and no more than `subMax` subscriptions come to be live. -/
def Admissible (state : SubState) : SubOp → Prop
  | .subscribe id _ _ _ =>
      0 < id ∧ id ≤ randMax ∧ id ∉ state.2.used ∧ state.2.liveCount < subMax
  | .unsubscribe _ => True

instance (state : SubState) : (op : SubOp) → Decidable (Admissible state op)
  | .subscribe id _ _ _ =>
      inferInstanceAs (Decidable (0 < id ∧ id ≤ randMax ∧ id ∉ state.2.used ∧
        state.2.liveCount < subMax))
  | .unsubscribe _ => inferInstanceAs (Decidable True)

def NextSlotUnlinked (system : OxEventSystem) : Prop :=
  ∀ topic, ∀ slot : SubSlot, slot.val = system.count →
    ¬Visits (links system.items) (system.topics topic) slot

theorem Linked.nextSlotUnlinked_iff {system : OxEventSystem}
    {nodes : Fin topicsCount → List SubSlot} (linked : Linked system nodes)
    (room : system.count < subMax) :
    NextSlotUnlinked system ↔ ∀ topic, ⟨system.count, room⟩ ∉ nodes topic := by
  constructor
  · intro unlinked topic inside
    exact unlinked topic _ rfl (((linked.chains topic).visits_iff _).mpr inside)
  · intro outside topic slot here visited
    have same : slot = ⟨system.count, room⟩ := Fin.ext here
    subst same
    exact outside topic (((linked.chains topic).visits_iff _).mp visited)

/-- A subscribe finds the slot it fills unlinked, and an unsubscribe of a live id finds it to
be the oldest of its topic and not the newest. -/
def Undisturbed (state : SubState) : SubOp → Prop
  | .subscribe _ _ _ _ => NextSlotUnlinked state.1
  | .unsubscribe id => ∀ topic newer entry older,
      state.2.live topic = newer ++ entry :: older → toSizeT entry.id = id →
        newer ≠ [] ∧ older = []

/-- The chains hold the live subscriptions, and the store holds nothing else. -/
structure Synced (state : SubState) (nodes : Fin topicsCount → List SubSlot) : Prop where
  linked : Linked state.1 nodes
  presented : ∀ topic, (nodes topic).map (fun slot => (state.1.items slot).entry) =
    state.2.live topic
  covered : ∀ slot : SubSlot, slot.val < state.1.count →
    (state.1.items slot).id ∈ state.2.liveIds
  used : ∀ id ∈ state.2.liveIds, id ∈ state.2.used

theorem synced_fresh : Synced subFresh fun _ => [] where
  linked := linked_fresh
  presented _ := rfl
  covered slot inUse := absurd inUse (Nat.not_lt_zero _)
  used id member := by
    obtain ⟨_, _, inside, _⟩ := (Registry.mem_liveIds _ _).mp member
    exact absurd inside List.not_mem_nil

namespace Synced

variable {state : SubState} {nodes : Fin topicsCount → List SubSlot}

theorem presents (synced : Synced state nodes) : Presents state.1 state.2 :=
  fun topic => ⟨nodes topic, synced.linked.chains topic, synced.presented topic⟩

theorem idFree (synced : Synced state nodes) {id : Int} (fresh : id ∉ state.2.used) :
    state.1.IdFree id := by
  intro slot inUse same
  exact fresh (same ▸ synced.used _ (synced.covered slot inUse))

theorem room (synced : Synced state nodes) (below : state.2.liveCount < subMax) :
    state.1.count < subMax := by
  have bound : state.1.count ≤ state.2.liveIds.length := by
    apply FixedSet.count_le_of_keys _ OxSubscription.id
    · intro i j iInUse jInUse same
      exact synced.linked.distinct i j iInUse jInUse ((oxSubEq_iff _ _).mpr same)
    · exact synced.covered
  exact Nat.lt_of_le_of_lt bound below

theorem subscribe (synced : Synced state nodes) {id : Int} (type : Fin topicsCount)
    (callback userData : Pointer) (lower : 0 ≤ id) (upper : id ≤ randMax)
    (fresh : id ∉ state.2.used) (room : state.1.count < subMax)
    (unlinked : ∀ topic, ⟨state.1.count, room⟩ ∉ nodes topic) :
    Synced ((oxiSubscribeEvents state.1 id type callback userData).1,
        state.2.subscribe type ⟨id, callback, userData⟩)
      (Function.update nodes type (⟨state.1.count, room⟩ :: nodes type)) := by
  have free := synced.idFree fresh
  have linked := synced.linked.subscribe type callback userData free lower upper room unlinked
  have items := oxiSubscribeEvents_items type callback userData free room
  have count : (oxiSubscribeEvents state.1 id type callback userData).1.count =
      state.1.count + 1 := by
    rw [oxiSubscribeEvents_room type callback userData free room]
  generalize (oxiSubscribeEvents state.1 id type callback userData).1 = after at *
  refine ⟨linked, ?_, ?_, ?_⟩
  · intro topic
    have old : (nodes topic).map (fun slot => (after.items slot).entry) = state.2.live topic := by
      rw [← synced.presented topic]
      apply List.map_congr_left
      intro slot member
      rw [items, Function.update_of_ne]
      rintro rfl
      exact unlinked topic member
    simp only [Registry.subscribe, Function.update_apply]
    split
    case isTrue same =>
      subst same
      rw [List.map_cons, old, items, Function.update_self]
      rfl
    case isFalse => exact old
  · intro slot inUse
    rw [Registry.mem_liveIds_subscribe]
    rw [count] at inUse
    rw [items, Function.update_apply]
    split
    case isTrue => exact Or.inl rfl
    case isFalse different =>
      right
      apply synced.covered
      have : slot.val ≠ state.1.count := fun same => different (Fin.ext same)
      omega
  · intro query member
    rcases (Registry.mem_liveIds_subscribe _ _ _ _).mp member with new | old
    · exact List.mem_cons.mpr (Or.inl new.symm)
    · exact List.mem_cons_of_mem _ (synced.used query old)

theorem node_of_liveId (synced : Synced state nodes) {id : Int} (live : id ∈ state.2.liveIds) :
    ∃ topic, ∃ slot ∈ nodes topic, (state.1.items slot).id = id := by
  obtain ⟨topic, entry, member, same⟩ := (Registry.mem_liveIds _ _).mp live
  rw [← synced.presented topic] at member
  obtain ⟨slot, slotMember, rfl⟩ := List.mem_map.mp member
  exact ⟨topic, slot, slotMember, same⟩

theorem unsubscribe_live (synced : Synced state nodes) (id : Nat) (topic : Fin topicsCount) :
    (state.2.unsubscribe id).live topic =
      (withoutId state.1.items id (nodes topic)).map fun slot => (state.1.items slot).entry := by
  change (state.2.live topic).filter _ = _
  rw [← synced.presented topic, List.filter_map]
  rfl

theorem unsubscribe (synced : Synced state nodes) {id : Nat} {here : Fin topicsCount}
    (front : List SubSlot) (prev : SubSlot) {sub : SubSlot}
    (shape : nodes here = front ++ [prev, sub])
    (matched : toSizeT (state.1.items sub).id = id) :
    ∃ after, oxiUnsubscribe state.1 id = .ok (after, true) ∧
      ∃ nodes, Synced (after, state.2.unsubscribe id) nodes := by
  have member : sub ∈ nodes here := by simp [shape]
  obtain ⟨after, returned, linked, entries, membership⟩ :=
    synced.linked.unsubscribe_found shape matched
  refine ⟨after, returned, _, linked, ?_, ?_, ?_⟩
  · intro topic
    have left : Function.update nodes here (front ++ prev :: [].tail) topic =
        withoutId state.1.items id (nodes topic) := by
      rw [Function.update_apply]
      split
      case isTrue same =>
        subst same
        have behind : nodes topic = (front ++ [prev]) ++ sub :: [] := by simpa using shape
        rw [synced.linked.withoutId_here behind matched]
        simp
      case isFalse other => rw [synced.linked.withoutId_other member matched other]
    rw [left, synced.unsubscribe_live]
    apply List.map_congr_left
    intro slot slotMember
    obtain ⟨slotOld, unmatched⟩ := List.mem_filter.mp slotMember
    apply entries topic slot slotOld
    rintro rfl
    simp [matched] at unmatched
  · intro slot inUse
    have here : after.subscriptionSet.Member oxSubEq (after.items slot) :=
      ⟨slot, inUse, oxSubEq_equivalence.refl _⟩
    obtain ⟨⟨origin, originInUse, same⟩, different⟩ := (membership _).mp here
    rw [Registry.mem_liveIds_unsubscribe, ← (oxSubEq_iff _ _).mp same]
    have covered := synced.covered origin originInUse
    refine ⟨covered, fun again => ?_⟩
    obtain ⟨topic, slot', slotMember, slotId⟩ := synced.node_of_liveId covered
    have same' := (synced.linked.match_unique slotMember member (by rw [slotId, again]) matched).1
    rw [oxSubEq_iff] at same
    rw [← same', slotId] at different
    exact different same
  · intro query queryMember
    exact synced.used query ((Registry.mem_liveIds_unsubscribe _ _ _).mp queryMember).1

theorem not_presents_of_visited (synced : Synced state nodes) {id : Int}
    {type topic : Fin topicsCount} {callback userData : Pointer} (fresh : id ∉ state.2.used)
    (room : state.1.count < subMax) (inside : ⟨state.1.count, room⟩ ∈ nodes topic) :
    ¬Presents (oxiSubscribeEvents state.1 id type callback userData).1
      (state.2.subscribe type ⟨id, callback, userData⟩) := by
  intro presents
  have free := synced.idFree fresh
  have items := oxiSubscribeEvents_items type callback userData free room
  have topics := oxiSubscribeEvents_topics type callback userData free room
  have linksAfter := oxiSubscribeEvents_links type callback userData free room
  generalize (oxiSubscribeEvents state.1 id type callback userData).1 = after at *
  have chain := synced.linked.chains topic
  obtain ⟨passed, chainAfter, entries⟩ := presents topic
  rw [linksAfter, topics, Function.update_apply] at chainAfter
  split at chainAfter
  case isTrue same =>
    subst same
    exact chain.push_mem_not_ends inside ⟨passed, chainAfter⟩
  case isFalse other =>
    obtain ⟨front, back, split, unlinked⟩ := List.eq_append_cons_of_mem inside
    rw [split, chain_split] at chain
    have visited : Visits (Function.update (links state.1.items) ⟨state.1.count, room⟩
        (state.1.topics type)) (state.1.topics topic) ⟨state.1.count, room⟩ :=
      ⟨front, chain.1.update_of_notMem unlinked _⟩
    have passes := (chainAfter.visits_iff _).mp visited
    have listed : (after.items ⟨state.1.count, room⟩).entry ∈
        (state.2.subscribe type ⟨id, callback, userData⟩).live topic := by
      rw [← entries]
      exact List.mem_map_of_mem passes
    have stillLive : Entry.mk id callback userData ∈ state.2.live topic := by
      simpa [items, Registry.subscribe, other, OxSubscription.entry] using listed
    exact fresh (synced.used id ((Registry.mem_liveIds _ _).mpr ⟨topic, _, stillLive, rfl⟩))

theorem undisturbed_iff (synced : Synced state nodes) {id : Nat} {here : Fin topicsCount}
    {newer older : List SubSlot} {sub : SubSlot} (shape : nodes here = newer ++ sub :: older)
    (matched : toSizeT (state.1.items sub).id = id) :
    Undisturbed state (.unsubscribe id) ↔ newer ≠ [] ∧ older = [] := by
  have member : sub ∈ nodes here := by simp [shape]
  constructor
  · intro undisturbed
    have listed := synced.presented here
    rw [shape, List.map_append, List.map_cons] at listed
    have ends := undisturbed here _ _ _ listed.symm matched
    simpa using ends
  · rintro ⟨someNewer, noOlder⟩ topic newer' entry older' listed entryMatch
    rw [← synced.presented topic] at listed
    obtain ⟨front, rest, split, frontEq, restEq⟩ := List.map_eq_append_iff.mp listed
    obtain ⟨slot, back, rfl, slotEq, backEq⟩ := List.map_eq_cons_iff.mp restEq
    have slotMember : slot ∈ nodes topic := by simp [split]
    have slotMatch : toSizeT (state.1.items slot).id = id := by
      rw [← entryMatch, ← slotEq]
      rfl
    obtain ⟨rfl, rfl⟩ := synced.linked.match_unique slotMember member slotMatch matched
    have chain := synced.linked.chains topic
    have oneWay := chain
    rw [shape, chain_split] at oneWay
    rw [split, chain_split] at chain
    have sameBack : back = older := chain.2.unique oneWay.2
    rw [shape, sameBack] at split
    have sameFront : newer = front := List.append_cancel_right split
    rw [← frontEq, ← backEq, ← sameFront, sameBack]
    simpa using ⟨someNewer, noOlder⟩

theorem hasId_iff (synced : Synced state nodes) (id : Nat) :
    state.2.HasId id ↔ ∃ topic, ∃ slot ∈ nodes topic, toSizeT (state.1.items slot).id = id := by
  simp only [Registry.HasId, ← synced.presented, List.mem_map]
  constructor
  · rintro ⟨topic, _, ⟨slot, member, rfl⟩, same⟩
    exact ⟨topic, slot, member, same⟩
  · rintro ⟨topic, slot, member, same⟩
    exact ⟨topic, _, ⟨slot, member, rfl⟩, same⟩

theorem unsubscribe_unknown (synced : Synced state nodes) {id : Nat}
    (unknown : ¬state.2.HasId id) :
    oxiUnsubscribe state.1 id = .ok (state.1, false) ∧ state.2.unsubscribe id = state.2 := by
  constructor
  · apply synced.linked.unsubscribe_absent
    intro topic slot member same
    exact unknown ((synced.hasId_iff id).mpr ⟨topic, slot, member, same⟩)
  · have kept (topic : Fin topicsCount) :
        ((state.2.live topic).filter fun entry => toSizeT entry.id ≠ id) = state.2.live topic := by
      rw [List.filter_eq_self]
      intro entry member
      simp only [ne_eq, decide_not, Bool.not_eq_eq_eq_not, Bool.not_true, decide_eq_false_iff_not]
      exact fun same => unknown ⟨topic, entry, member, same⟩
    simp only [Registry.unsubscribe, kept]

theorem callCorrect_iff (synced : Synced state nodes) (op : SubOp)
    (admissible : Admissible state op) : CallCorrect state op ↔ Undisturbed state op := by
  cases op with
  | subscribe id type callback userData =>
      obtain ⟨positive, upper, fresh, below⟩ := admissible
      have room := synced.room below
      have result : (oxiSubscribeEvents state.1 id type callback userData).2 = id := by
        rw [oxiSubscribeEvents_room type callback userData (synced.idFree fresh) room]
      change _ ↔ NextSlotUnlinked state.1
      rw [synced.linked.nextSlotUnlinked_iff room]
      constructor
      · rintro ⟨after, called, presents⟩ topic inside
        simp only [subCall, Registry.call, result, Except.ok.injEq, Prod.mk.injEq, and_true]
          at called
        subst called
        exact synced.not_presents_of_visited fresh room inside presents
      · intro unlinked
        have kept := synced.subscribe type callback userData (Int.le_of_lt positive) upper fresh
          room unlinked
        exact ⟨_, by simp only [subCall, result, Registry.call], kept.presents⟩
  | unsubscribe id =>
      by_cases known : state.2.HasId id
      · obtain ⟨here, sub, member, matched⟩ := (synced.hasId_iff id).mp known
        obtain ⟨newer, older, shape⟩ := List.append_of_mem member
        rw [synced.undisturbed_iff shape matched]
        rcases List.eq_nil_or_concat newer with rfl | ⟨front, prev, rfl⟩
        · have faults := synced.linked.unsubscribe_head (by simpa using shape) matched
          simp [CallCorrect, subCall, faults]
        · have behind : nodes here = front ++ prev :: sub :: older := by simpa using shape
          constructor
          · rintro ⟨after, called, presents⟩
            refine ⟨by simp, ?_⟩
            obtain ⟨returned, succeeded, linked, _⟩ :=
              synced.linked.unsubscribe_found behind matched
            obtain ⟨passed, chain, entries⟩ := presents here
            simp only [subCall, succeeded, Except.ok.injEq, Prod.mk.injEq] at called
            rw [← called.1] at chain entries
            have visited := chain.unique (linked.chains here)
            rw [Function.update_self] at visited
            have lengths := congrArg List.length entries
            simp only [Registry.call, synced.unsubscribe_live, List.length_map, visited,
              synced.linked.withoutId_here shape matched, List.length_append, List.length_concat,
              List.length_cons, List.length_tail] at lengths
            exact List.length_eq_zero_iff.mp (by omega)
          · rintro ⟨-, rfl⟩
            obtain ⟨after, returned, nodes', kept⟩ := synced.unsubscribe front prev behind matched
            refine ⟨after, ?_, kept.presents⟩
            simp only [subCall, returned, Registry.call, known, decide_true]
      · obtain ⟨returned, unchanged⟩ := synced.unsubscribe_unknown known
        constructor
        · rintro - topic newer entry older listed entryMatch
          exact absurd ⟨topic, entry, by simp [listed], entryMatch⟩ known
        · rintro -
          refine ⟨state.1, by simp [subCall, returned, Registry.call, known], ?_⟩
          simpa only [Registry.call, unchanged] using synced.presents

theorem step (synced : Synced state nodes) (op : SubOp) (admissible : Admissible state op)
    (undisturbed : Undisturbed state op) (after : SubState)
    (stepped : subStep state op = some after) : ∃ nodes, Synced after nodes := by
  cases op with
  | subscribe id type callback userData =>
      obtain ⟨positive, upper, fresh, below⟩ := admissible
      have room := synced.room below
      have unlinked := (synced.linked.nextSlotUnlinked_iff room).mp undisturbed
      have kept := synced.subscribe type callback userData (Int.le_of_lt positive) upper fresh
        room unlinked
      have same : _ = after := Option.some.inj stepped
      exact ⟨_, same ▸ kept⟩
  | unsubscribe id =>
      by_cases known : state.2.HasId id
      · obtain ⟨here, sub, member, matched⟩ := (synced.hasId_iff id).mp known
        obtain ⟨newer, older, shape⟩ := List.append_of_mem member
        obtain ⟨someNewer, rfl⟩ := (synced.undisturbed_iff shape matched).mp undisturbed
        obtain ⟨front, prev, rfl⟩ := (List.eq_nil_or_concat newer).resolve_left someNewer
        obtain ⟨system, returned, nodes', kept⟩ :=
          synced.unsubscribe front prev (by simpa using shape) matched
        simp only [subStep, subCall, returned, Option.some.injEq] at stepped
        exact ⟨nodes', stepped ▸ kept⟩
      · obtain ⟨returned, unchanged⟩ := synced.unsubscribe_unknown known
        simp only [subStep, subCall, returned, Registry.call, unchanged, Option.some.injEq]
          at stepped
        exact ⟨nodes, stepped ▸ synced⟩

end Synced

/-- Over a whole run of admissible calls, every call does what it is for exactly when none of
them is disturbed: every subscribe fills a slot that no topic links to, and every unsubscribe
of a live id is of the oldest subscription of a topic that has a newer one. -/
theorem calls_correct_iff_undisturbed (ops : List SubOp)
    (admissible : Along subStep Admissible subFresh ops) :
    Along subStep CallCorrect subFresh ops ↔ Along subStep Undisturbed subFresh ops := by
  have correct (state : SubState) (op : SubOp) (inStep : ∃ nodes, Synced state nodes)
      (within : Admissible state op) : CallCorrect state op ↔ Undisturbed state op := by
    obtain ⟨nodes, synced⟩ := inStep
    exact synced.callCorrect_iff op within
  have keeps (state : SubState) (op : SubOp) (after : SubState)
      (inStep : ∃ nodes, Synced state nodes) (within : Admissible state op)
      (undisturbed : Undisturbed state op) (stepped : subStep state op = some after) :
      ∃ nodes, Synced after nodes := by
    obtain ⟨nodes, synced⟩ := inStep
    exact synced.step op within undisturbed after stepped
  exact along_iff _ correct keeps ⟨_, synced_fresh⟩ admissible

theorem calls_correct_iff_undisturbed_four :
    let ops : List SubOp :=
      [.subscribe 11 OxEventType.quit.topic 0x10 0, .subscribe 12 OxEventType.quit.topic 0x20 0,
        .subscribe 13 OxEventType.keyUp.topic 0x30 7, .unsubscribe 11]
    Along subStep CallCorrect subFresh ops ↔ Along subStep Undisturbed subFresh ops :=
  calls_correct_iff_undisturbed _ (by decide)

theorem run_of_callsCorrect {state : SubState} {ops : List SubOp}
    (correct : Along subStep CallCorrect state ops) :
    ∃ after, run subStep state ops = some after := by
  have returns : ∀ state op, True → CallCorrect state op →
      ∃ after, subStep state op = some after ∧ True := by
    rintro state op - ⟨system, returned, -⟩
    exact ⟨_, by simp only [subStep, returned]; rfl, trivial⟩
  obtain ⟨after, ran, -⟩ := run_invariant _ returns trivial correct
  exact ⟨after, ran⟩

theorem unsubscribe_newest_faults :
    let ops : List SubOp := [.subscribe 11 OxEventType.quit.topic 0x10 0, .unsubscribe 11]
    Along subStep Admissible subFresh ops ∧ ¬Along subStep CallCorrect subFresh ops := by
  refine ⟨by decide, fun correct => ?_⟩
  obtain ⟨after, ran⟩ := run_of_callsCorrect correct
  have faults : (run subStep subFresh
      [.subscribe 11 OxEventType.quit.topic 0x10 0, .unsubscribe 11]).isNone = true := by decide
  rw [ran] at faults
  simp at faults

end YakUnshorn
