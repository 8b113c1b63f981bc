import YakUnshorn.DeliveryRuns

/-!
Runs of `oxi_subscribe_events` with whatever ids `rand` gives, repeated ones and 0
included, up to the full store and beyond.
-/

namespace YakUnshorn

open CMachine LinkedChain

structure Draw extends SubscribeCall where
  id : Int
  deriving Repr, DecidableEq

def Draw.entry (draw : Draw) : Entry := ⟨draw.id, draw.callback, draw.userData⟩

def subscribeDrawn (system : OxEventSystem) (draw : Draw) : OxEventSystem × Int :=
  oxiSubscribeEvents system draw.id draw.type draw.callback draw.userData

def subscribeAll (system : OxEventSystem) (draws : List Draw) : OxEventSystem :=
  draws.foldl (fun system draw => (subscribeDrawn system draw).1) system

structure Unchanged (before after : OxEventSystem) : Prop where
  topics : after.topics = before.topics
  count : after.count = before.count
  stored : ∀ slot : SubSlot, slot.val < before.count → after.items slot = before.items slot

def slotOf (system : OxEventSystem) (id : Int) : Option SubSlot :=
  system.subscriptionSet.index oxSubEq ⟨id, 0, 0, none⟩

theorem index_eq_slotOf (system : OxEventSystem) (sub : OxSubscription) :
    system.subscriptionSet.index oxSubEq sub = slotOf system sub.id :=
  FixedSet.index_congr _ fun _ => rfl

theorem slotOf_none_iff (system : OxEventSystem) (id : Int) :
    slotOf system id = none ↔ system.IdFree id := by
  rw [slotOf, FixedSet.index_eq_none_iff]
  simp [oxSubEq, OxEventSystem.IdFree]

theorem slotOf_some {system : OxEventSystem} {id : Int} {slot : SubSlot}
    (found : slotOf system id = some slot) :
    slot.val < system.count ∧ (system.items slot).id = id := by
  obtain ⟨inUse, same, -⟩ := FixedSet.index_some found
  exact ⟨inUse, (oxSubEq_iff _ _).mp same⟩

theorem slotOf_stored {system : OxEventSystem}
    (distinct : system.subscriptionSet.Distinct oxSubEq) {slot : SubSlot}
    (inUse : slot.val < system.count) : slotOf system (system.items slot).id = some slot := by
  cases found : slotOf system (system.items slot).id with
  | none => exact absurd rfl ((slotOf_none_iff system _).mp found slot inUse)
  | some other =>
      obtain ⟨otherInUse, same⟩ := slotOf_some found
      rw [distinct other slot otherInUse inUse ((oxSubEq_iff _ _).mpr same)]

theorem slotOf_congr {before after : OxEventSystem}
    (same : after.subscriptionSet = before.subscriptionSet) (id : Int) :
    slotOf after id = slotOf before id := by
  rw [slotOf, slotOf, same]

section Step

variable {system : OxEventSystem} {draw : Draw}

@[simp] theorem subscribeAll_nil (system : OxEventSystem) : subscribeAll system [] = system := rfl

@[simp] theorem subscribeAll_cons (system : OxEventSystem) (draw : Draw) (rest : List Draw) :
    subscribeAll system (draw :: rest) = subscribeAll (subscribeDrawn system draw).1 rest := rfl

theorem subscribeAll_append (system : OxEventSystem) (first second : List Draw) :
    subscribeAll system (first ++ second) = subscribeAll (subscribeAll system first) second :=
  List.foldl_append

theorem subscribeAll_concat (system : OxEventSystem) (draws : List Draw) (draw : Draw) :
    subscribeAll system (draws ++ [draw]) =
      (subscribeDrawn (subscribeAll system draws) draw).1 := by
  simp [subscribeAll]

theorem subscribeDrawn_result (system : OxEventSystem) (draw : Draw) :
    (subscribeDrawn system draw).2 = draw.id := by
  rw [subscribeDrawn, oxiSubscribeEvents_eq]

/-- An id that is already stored only turns the topic to the subscription that has it. -/
theorem subscribeDrawn_stored {slot : SubSlot} (found : slotOf system draw.id = some slot) :
    (subscribeDrawn system draw).1 =
      { system with topics := Function.update system.topics draw.type (some slot) } := by
  have present : system.subscriptionSet.index oxSubEq
      ⟨draw.id, draw.callback, draw.userData, system.topics draw.type⟩ = some slot := by
    rw [index_eq_slotOf]
    exact found
  rw [subscribeDrawn, oxiSubscribeEvents_eq, FixedSet.add_present present]

theorem subscribeDrawn_room (free : system.IdFree draw.id) (room : system.count < subMax) :
    (subscribeDrawn system draw).1 =
      { topics := Function.update system.topics draw.type (some ⟨system.count, room⟩)
        subscriptionSet :=
          { items := Function.update system.items ⟨system.count, room⟩
              ⟨draw.id, draw.callback, draw.userData, system.topics draw.type⟩
            count := system.count + 1
            countBound := room } } := by
  rw [subscribeDrawn, oxiSubscribeEvents_room _ _ _ free room]

/-- With a full store a new id only empties the topic. -/
theorem subscribeDrawn_full (free : system.IdFree draw.id) (full : system.count = subMax) :
    (subscribeDrawn system draw).1 =
      { system with topics := Function.update system.topics draw.type none } := by
  rw [subscribeDrawn, oxiSubscribeEvents_full _ _ _ free full]

theorem subscribeDrawn_cases (system : OxEventSystem) (draw : Draw) :
    (∃ slot, slotOf system draw.id = some slot) ∨
      (system.IdFree draw.id ∧ system.count < subMax) ∨
      (system.IdFree draw.id ∧ system.count = subMax) := by
  rw [← slotOf_none_iff]
  exact FixedSet.add_cases oxSubEq system.subscriptionSet ⟨draw.id, 0, 0, none⟩

theorem subscribeDrawn_items (system : OxEventSystem) (draw : Draw) {slot : SubSlot}
    (inUse : slot.val < system.count) :
    (subscribeDrawn system draw).1.items slot = system.items slot :=
  oxiSubscribeEvents_stored _ _ _ system draw.id inUse

theorem subscribeDrawn_count (system : OxEventSystem) (draw : Draw) :
    system.count ≤ (subscribeDrawn system draw).1.count :=
  count_le_oxiSubscribeEvents _ _ _ system draw.id

theorem subscribeDrawn_topics (system : OxEventSystem) (draw : Draw) {topic : Fin topicsCount}
    (other : topic ≠ draw.type) :
    (subscribeDrawn system draw).1.topics topic = system.topics topic := by
  rw [subscribeDrawn, oxiSubscribeEvents_eq]
  exact Function.update_of_ne other _ _

theorem subscribeDrawn_new (free : system.IdFree draw.id) (room : system.count < subMax) :
    (subscribeDrawn system draw).1.items ⟨system.count, room⟩ =
      ⟨draw.id, draw.callback, draw.userData, system.topics draw.type⟩ := by
  rw [subscribeDrawn_room free room]
  exact Function.update_self ..

end Step

/-- Links lead to slots that were filled earlier, and no id is stored twice. -/
structure Descending (system : OxEventSystem) : Prop where
  heads : ∀ topic slot, system.topics topic = some slot → slot.val < system.count
  links : ∀ slot : SubSlot, slot.val < system.count → ∀ next,
    links system.items slot = some next → next.val < slot.val
  distinct : system.subscriptionSet.Distinct oxSubEq

theorem descending_fresh : Descending oxiMakeEventSystem where
  heads topic slot head := by simp [oxiMakeEventSystem] at head
  links slot inUse := absurd inUse (Nat.not_lt_zero _)
  distinct := FixedSet.distinct_zeroed _ _

theorem Remaining.subscribeDrawn {system : OxEventSystem} {cursor : Option SubSlot}
    {entries : List Entry} (remaining : Remaining system cursor entries) (draw : Draw) :
    Remaining (subscribeDrawn system draw).1 cursor entries :=
  remaining.subscribe draw.id draw.type draw.callback draw.userData

theorem Remaining.pushed {system : OxEventSystem} {draw : Draw} {entries : List Entry}
    (remaining : Remaining system (system.topics draw.type) entries)
    (free : system.IdFree draw.id) (room : system.count < subMax) :
    let after := (YakUnshorn.subscribeDrawn system draw).1
    Remaining after (after.topics draw.type) (draw.entry :: entries) := by
  intro after
  obtain ⟨nodes, chain, inUse, listed⟩ := remaining.subscribeDrawn draw
  have new : after.items ⟨system.count, room⟩ =
      ⟨draw.id, draw.callback, draw.userData, system.topics draw.type⟩ :=
    subscribeDrawn_new free room
  refine ⟨⟨system.count, room⟩ :: nodes, ⟨?_, ?_⟩, ?_, ?_⟩
  · simp [after, subscribeDrawn_room free room]
  · rw [links, new]
    exact chain
  · intro slot member
    rcases List.mem_cons.mp member with rfl | old
    · simp [after, subscribeDrawn_room free room]
    · exact inUse slot old
  · rw [List.map_cons, listed, new]
    rfl

namespace Descending

variable {system : OxEventSystem}

theorem subscribeDrawn (descending : Descending system) (draw : Draw) :
    Descending (subscribeDrawn system draw).1 := by
  rcases subscribeDrawn_cases system draw with ⟨found, stored⟩ | ⟨free, room⟩ | ⟨free, full⟩
  · rw [subscribeDrawn_stored stored]
    refine ⟨fun topic slot head => ?_, descending.links, descending.distinct⟩
    simp only [Function.update_apply] at head
    split at head
    · rw [← Option.some.inj head]
      exact (slotOf_some stored).1
    · exact descending.heads topic slot head
  · refine ⟨?_, ?_, ?_⟩
    · rw [subscribeDrawn_room free room]
      intro topic slot head
      simp only [Function.update_apply] at head
      split at head
      · rw [← Option.some.inj head]
        exact Nat.lt_succ_self _
      · exact Nat.lt_succ_of_lt (descending.heads topic slot head)
    · intro slot inUse next link
      rw [subscribeDrawn_room free room] at inUse
      have bound : slot.val < system.count + 1 := inUse
      by_cases old : slot.val < system.count
      · rw [YakUnshorn.links, subscribeDrawn_items system draw old] at link
        exact descending.links slot old next link
      · obtain rfl : slot = ⟨system.count, room⟩ := Fin.ext (by simp only; omega)
        rw [YakUnshorn.links, subscribeDrawn_new free room] at link
        exact descending.heads draw.type next link
    · rw [YakUnshorn.subscribeDrawn, oxiSubscribeEvents_set]
      exact FixedSet.distinct_add oxSubEq_equivalence descending.distinct
        (index_of_idFree draw.callback draw.userData free _) room
  · rw [subscribeDrawn_full free full]
    refine ⟨fun topic slot head => ?_, descending.links, descending.distinct⟩
    simp only [Function.update_apply] at head
    split at head
    · simp at head
    · exact descending.heads topic slot head

theorem subscribeAll (descending : Descending system) (draws : List Draw) :
    Descending (subscribeAll system draws) := by
  induction draws generalizing system with
  | nil => exact descending
  | cons draw rest ih => exact ih (descending.subscribeDrawn draw)

theorem remaining (descending : Descending system) (topic : Fin topicsCount) :
    ∃ entries, Remaining system (system.topics topic) entries := by
  cases head : system.topics topic with
  | none => exact ⟨[], [], rfl, by simp, rfl⟩
  | some slot =>
      obtain ⟨nodes, chain, inUse⟩ := chain_of_decreasing Fin.val (fun slot inUse next link =>
        have less := descending.links slot inUse next link
        ⟨Nat.lt_trans less inUse, less⟩) slot (descending.heads topic slot head)
      exact ⟨_, nodes, chain, inUse, rfl⟩

theorem visits_inUse (descending : Descending system) {topic : Fin topicsCount} {slot : SubSlot}
    (visited : Visits (YakUnshorn.links system.items) (system.topics topic) slot) :
    slot.val < system.count := by
  obtain ⟨entries, nodes, chain, inUse, -⟩ := descending.remaining topic
  exact inUse slot ((chain.visits_iff slot).mp visited)

theorem slotOf_head (descending : Descending system) {topic : Fin topicsCount} {head : SubSlot}
    (isHead : system.topics topic = some head) {id : Int} (same : (system.items head).id = id) :
    slotOf system id = some head := by
  rw [← same]
  exact slotOf_stored descending.distinct (descending.heads topic head isHead)

theorem unsubscribe_unknown (descending : Descending system) {id : Nat}
    (unknown : ∀ topic slot, Visits (YakUnshorn.links system.items) (system.topics topic) slot →
      toSizeT (system.items slot).id ≠ id) : oxiUnsubscribe system id = .ok (system, false) := by
  apply unsubscribe_unmatched
  intro topic
  obtain ⟨entries, nodes, chain, -, -⟩ := descending.remaining topic
  exact ⟨nodes, chain, fun slot member => unknown topic slot ((chain.visits_iff slot).mpr member)⟩

end Descending

theorem subscribeDrawn_stored_id {system : OxEventSystem} {draw : Draw} {slot : SubSlot}
    (inUse : slot.val < (subscribeDrawn system draw).1.count) :
    slot.val < system.count ∨ ((subscribeDrawn system draw).1.items slot).id = draw.id := by
  rcases subscribeDrawn_cases system draw with ⟨found, stored⟩ | ⟨free, room⟩ | ⟨free, full⟩
  · rw [subscribeDrawn_stored stored] at inUse
    exact Or.inl inUse
  · rw [subscribeDrawn_room free room] at inUse
    have bound : slot.val < system.count + 1 := inUse
    by_cases old : slot.val < system.count
    · exact Or.inl old
    · obtain rfl : slot = ⟨system.count, room⟩ := Fin.ext (by simp only; omega)
      exact Or.inr (by rw [subscribeDrawn_new free room])
  · rw [subscribeDrawn_full free full] at inUse
    exact Or.inl inUse

theorem subscribeAll_stored_ids (held : Int → Prop) {system : OxEventSystem} {draws : List Draw}
    (initially : ∀ slot : SubSlot, slot.val < system.count → held (system.items slot).id)
    (drawn : ∀ draw ∈ draws, held draw.id) (slot : SubSlot)
    (inUse : slot.val < (subscribeAll system draws).count) :
    held ((subscribeAll system draws).items slot).id := by
  induction draws generalizing system with
  | nil => exact initially slot inUse
  | cons draw rest ih =>
      refine ih (fun query queryInUse => ?_)
        (fun later member => drawn later (by simp [member])) inUse
      rcases subscribeDrawn_stored_id queryInUse with old | new
      · rw [subscribeDrawn_items system draw old]
        exact initially query old
      · rw [new]
        exact drawn draw (by simp)

theorem subscribeAll_fresh_idFree {draws : List Draw} {id : Int}
    (fresh : id ∉ draws.map Draw.id) : (subscribeAll oxiMakeEventSystem draws).IdFree id := by
  intro slot inUse
  refine subscribeAll_stored_ids (· ≠ id) ?_ ?_ slot inUse
  · exact fun slot inUse => absurd inUse (Nat.not_lt_zero _)
  · rintro draw member rfl
    exact fresh (List.mem_map_of_mem member)

/-- After any run of subscribe calls, an id that no walk over a topic comes to is looked for in vain
and nothing is written. -/
theorem unsubscribe_unknown_id (draws : List Draw) (id : Nat)
    (unknown : ∀ topic slot,
      Visits (links (subscribeAll oxiMakeEventSystem draws).items)
          ((subscribeAll oxiMakeEventSystem draws).topics topic) slot →
        toSizeT ((subscribeAll oxiMakeEventSystem draws).items slot).id ≠ id) :
    oxiUnsubscribe (subscribeAll oxiMakeEventSystem draws) id =
      .ok (subscribeAll oxiMakeEventSystem draws, false) :=
  (descending_fresh.subscribeAll draws).unsubscribe_unknown unknown

theorem unsubscribe_unknown_id_colliding :
    let system := subscribeAll oxiMakeEventSystem
      [⟨⟨OxEventType.quit.topic, 0x10, 0⟩, 11⟩, ⟨⟨OxEventType.keyUp.topic, 0x20, 0⟩, 11⟩]
    oxiUnsubscribe system 12 = .ok (system, false) := by
  apply unsubscribe_unknown_id
  intro topic slot visited
  have inUse := (descending_fresh.subscribeAll _).visits_inUse visited
  refine subscribeAll_stored_ids (fun id => toSizeT id ≠ 12) ?_ (by decide) slot inUse
  exact fun slot inUse => absurd inUse (Nat.not_lt_zero _)

section AnyIds

/-- What a subscribe call is for, as long as the store has room. -/
def SubscribesRight (system : OxEventSystem) (draw : Draw) : Prop :=
  let after := (subscribeDrawn system draw).1
  let result := (subscribeDrawn system draw).2
  (result = 0 ∧ Unchanged system after) ∨
    (result ≠ 0 ∧ system.IdFree result ∧ ∃ lists : Fin topicsCount → List Entry,
      (∀ topic, Remaining system (system.topics topic) (lists topic)) ∧
      ∀ topic, Remaining after (after.topics topic)
        (Function.update lists draw.type
          (⟨result, draw.callback, draw.userData⟩ :: lists draw.type) topic))

namespace Descending

variable {system : OxEventSystem} {draw : Draw}

theorem subscribesRight (descending : Descending system) (nonzero : draw.id ≠ 0)
    (free : system.IdFree draw.id) (room : system.count < subMax) :
    SubscribesRight system draw := by
  choose lists before using descending.remaining
  refine Or.inr ⟨by rwa [subscribeDrawn_result], by rwa [subscribeDrawn_result], lists, before, ?_⟩
  intro topic
  rw [subscribeDrawn_result, Function.update_apply]
  split
  case isTrue same =>
    subst same
    exact (before draw.type).pushed free room
  case isFalse other =>
    rw [subscribeDrawn_topics system draw other]
    exact (before topic).subscribeDrawn draw

theorem unchanged_iff (descending : Descending system) (room : system.count < subMax) :
    Unchanged system (YakUnshorn.subscribeDrawn system draw).1 ↔
      ∃ head, system.topics draw.type = some head ∧ (system.items head).id = draw.id := by
  constructor
  · intro unchanged
    cases found : slotOf system draw.id with
    | none =>
        have free := (slotOf_none_iff system draw.id).mp found
        have grown := unchanged.count
        rw [subscribeDrawn_room free room] at grown
        exact absurd grown (Nat.succ_ne_self _)
    | some slot =>
        have turned := congrFun unchanged.topics draw.type
        simp only [subscribeDrawn_stored found, Function.update_self] at turned
        exact ⟨slot, turned.symm, (slotOf_some found).2⟩
  · rintro ⟨head, isHead, same⟩
    have found := descending.slotOf_head isHead same
    refine ⟨?_, ?_, fun slot inUse => subscribeDrawn_items system draw inUse⟩
    · rw [subscribeDrawn_stored found, ← isHead, Function.update_eq_self]
    · rw [subscribeDrawn_stored found]

theorem subscribesRight_iff (descending : Descending system) (room : system.count < subMax) :
    SubscribesRight system draw ↔
      (draw.id ≠ 0 ∧ system.IdFree draw.id) ∨
        (draw.id = 0 ∧ ∃ head, system.topics draw.type = some head ∧
          (system.items head).id = draw.id) := by
  rw [← descending.unchanged_iff room]
  constructor
  · rintro (⟨zero, unchanged⟩ | ⟨nonzero, free, -⟩)
    · exact Or.inr ⟨(subscribeDrawn_result system draw).symm.trans zero, unchanged⟩
    · rw [subscribeDrawn_result] at nonzero free
      exact Or.inl ⟨nonzero, free⟩
  · rintro (⟨nonzero, free⟩ | ⟨zero, unchanged⟩)
    · exact descending.subscribesRight nonzero free room
    · exact Or.inl ⟨(subscribeDrawn_result system draw).trans zero, unchanged⟩

end Descending

/-- In every state that subscribe calls lead to, whatever their ids, a further call does what it is
for exactly when its id is new and not 0, or is 0 and already that of the newest subscription of
the topic. -/
theorem subscribes_right_iff (draws : List Draw) (draw : Draw)
    (room : (subscribeAll oxiMakeEventSystem draws).count < subMax) :
    let system := subscribeAll oxiMakeEventSystem draws
    SubscribesRight system draw ↔
      (draw.id ≠ 0 ∧ system.IdFree draw.id) ∨
        (draw.id = 0 ∧ ∃ head, system.topics draw.type = some head ∧
          (system.items head).id = draw.id) :=
  (descending_fresh.subscribeAll draws).subscribesRight_iff room

theorem subscribes_right_iff_second :
    let system := subscribeAll oxiMakeEventSystem [⟨⟨OxEventType.quit.topic, 0x10, 0⟩, 11⟩]
    let draw : Draw := ⟨⟨OxEventType.quit.topic, 0x20, 7⟩, 12⟩
    SubscribesRight system draw ↔
      (draw.id ≠ 0 ∧ system.IdFree draw.id) ∨
        (draw.id = 0 ∧ ∃ head, system.topics draw.type = some head ∧
          (system.items head).id = draw.id) :=
  subscribes_right_iff _ _ (by decide)

theorem subscribe_repeated_id_wrong :
    let system := subscribeAll oxiMakeEventSystem [⟨⟨OxEventType.quit.topic, 0x10, 0⟩, 11⟩]
    system.count < subMax ∧ ¬SubscribesRight system ⟨⟨OxEventType.keyUp.topic, 0x20, 7⟩, 11⟩ := by
  intro system
  have room : system.count < subMax := by decide
  refine ⟨room, fun right => ?_⟩
  rcases ((descending_fresh.subscribeAll _).subscribesRight_iff room).mp right with
    ⟨-, free⟩ | ⟨zero, -⟩
  · exact free ⟨0, by decide⟩ (by decide) (by decide)
  · exact absurd zero (by decide)

end AnyIds

section DistinctIds

def madeFor (draws : List Draw) (topic : Fin topicsCount) : List Entry :=
  ((draws.filter fun draw => draw.type = topic).map Draw.entry).reverse

theorem madeFor_concat (draws : List Draw) (draw : Draw) (topic : Fin topicsCount) :
    madeFor (draws ++ [draw]) topic =
      if draw.type = topic then draw.entry :: madeFor draws topic else madeFor draws topic := by
  by_cases same : draw.type = topic <;> simp [madeFor, same]

theorem fresh_of_nodup_concat {draws : List Draw} {draw : Draw}
    (distinct : ((draws ++ [draw]).map Draw.id).Nodup) :
    (draws.map Draw.id).Nodup ∧ draw.id ∉ draws.map Draw.id := by
  rw [List.map_append, List.nodup_append] at distinct
  exact ⟨distinct.1, fun again => distinct.2.2 _ again _ (by simp) rfl⟩

theorem subscribeAll_within {draws : List Draw} (distinct : (draws.map Draw.id).Nodup)
    (within : draws.length ≤ subMax) :
    let system := subscribeAll oxiMakeEventSystem draws
    system.count = draws.length ∧
      ∀ topic, Remaining system (system.topics topic) (madeFor draws topic) := by
  induction draws using List.reverseRecOn with
  | nil => exact ⟨rfl, fun topic => ⟨[], rfl, by simp, rfl⟩⟩
  | append_singleton draws draw ih =>
      rw [List.length_append, List.length_singleton] at within
      obtain ⟨distinctBefore, fresh⟩ := fresh_of_nodup_concat distinct
      obtain ⟨count, lists⟩ := ih distinctBefore (by omega)
      have free := subscribeAll_fresh_idFree fresh
      have room : (subscribeAll oxiMakeEventSystem draws).count < subMax := by omega
      rw [subscribeAll_concat]
      refine ⟨?_, fun topic => ?_⟩
      · rw [subscribeDrawn_room free room, List.length_append, ← count]
        rfl
      · rw [madeFor_concat]
        split
        case isTrue same =>
          subst same
          exact (lists draw.type).pushed free room
        case isFalse other =>
          rw [subscribeDrawn_topics _ draw (Ne.symm other)]
          exact (lists topic).subscribeDrawn draw

end DistinctIds

section Exhaustion

theorem full_refuses_iff {system : OxEventSystem} {draw : Draw} (free : system.IdFree draw.id)
    (full : system.count = subMax) :
    (subscribeDrawn system draw).2 = 0 ∧ Unchanged system (subscribeDrawn system draw).1 ↔
      draw.id = 0 ∧ system.topics draw.type = none := by
  have after := subscribeDrawn_full free full
  rw [subscribeDrawn_result]
  refine and_congr_right fun _ => ⟨fun unchanged => ?_, fun empty => ⟨?_, ?_, ?_⟩⟩
  · have emptied := congrFun unchanged.topics draw.type
    simp only [after, Function.update_self] at emptied
    exact emptied.symm
  · rw [after, ← empty, Function.update_eq_self]
  · rw [after]
  · intro slot inUse
    exact subscribeDrawn_items system draw inUse

/-- Once the store is full, a call with a new id is refused and leaves everything alone only if the
id is 0 and the topic has no subscription to lose. -/
theorem full_store_refuses_iff (draws : List Draw) (draw : Draw)
    (full : (subscribeAll oxiMakeEventSystem draws).count = subMax)
    (fresh : draw.id ∉ draws.map Draw.id) :
    let system := subscribeAll oxiMakeEventSystem draws
    (subscribeDrawn system draw).2 = 0 ∧ Unchanged system (subscribeDrawn system draw).1 ↔
      draw.id = 0 ∧ system.topics draw.type = none :=
  full_refuses_iff (subscribeAll_fresh_idFree fresh) full

def countedDraws (n : Nat) : List Draw :=
  (List.range n).map fun i : Nat => ⟨⟨OxEventType.quit.topic, 0x10, 0⟩, i + 1⟩

theorem countedDraws_ids (n : Nat) (id : Int) :
    id ∈ (countedDraws n).map Draw.id ↔ 0 < id ∧ id ≤ n := by
  simp only [countedDraws, List.map_map, List.mem_map, List.mem_range, Function.comp_apply]
  constructor
  · rintro ⟨i, bound, rfl⟩
    omega
  · rintro ⟨lower, upper⟩
    exact ⟨(id - 1).toNat, by omega, by omega⟩

theorem countedDraws_distinct (n : Nat) : ((countedDraws n).map Draw.id).Nodup := by
  rw [countedDraws, List.map_map]
  refine (List.nodup_range).map fun i j same => ?_
  simp only [Function.comp_apply] at same
  omega

theorem countedDraws_fill :
    (subscribeAll oxiMakeEventSystem (countedDraws subMax)).count = subMax := by
  rw [(subscribeAll_within (countedDraws_distinct subMax) (by simp [countedDraws])).1]
  simp [countedDraws]

theorem full_store_refuses_iff_next :
    let system := subscribeAll oxiMakeEventSystem (countedDraws subMax)
    let draw : Draw := ⟨⟨OxEventType.keyUp.topic, 0x20, 7⟩, 2000⟩
    (subscribeDrawn system draw).2 = 0 ∧ Unchanged system (subscribeDrawn system draw).1 ↔
      draw.id = 0 ∧ system.topics draw.type = none :=
  full_store_refuses_iff _ _ countedDraws_fill (by rw [countedDraws_ids]; decide)

theorem full_store_accepts :
    let system := subscribeAll oxiMakeEventSystem (countedDraws subMax)
    let draw : Draw := ⟨⟨OxEventType.quit.topic, 0x20, 7⟩, 2000⟩
    system.count = subMax ∧ draw.id ∉ (countedDraws subMax).map Draw.id ∧
      ¬((subscribeDrawn system draw).2 = 0 ∧
        Unchanged system (subscribeDrawn system draw).1) := by
  have fresh : (2000 : Int) ∉ (countedDraws subMax).map Draw.id := by
    rw [countedDraws_ids]
    decide
  refine ⟨countedDraws_fill, fresh, ?_⟩
  intro refused
  obtain ⟨zero, -⟩ :=
    (full_refuses_iff (subscribeAll_fresh_idFree fresh) countedDraws_fill).mp refused
  exact absurd zero (by decide)

end Exhaustion

end YakUnshorn
