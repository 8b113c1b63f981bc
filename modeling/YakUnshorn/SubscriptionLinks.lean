import YakUnshorn.Subscriptions
import Mathlib.Data.Fintype.Basic

/-!
The links between subscriptions while every chain ends and no linked node is
overwritten, and what subscribing and unsubscribing do to them.
-/

namespace YakUnshorn

open CMachine LinkedChain

/-- What a subscription says, apart from its place in the store. -/
structure Entry where
  id : Int
  callback : Pointer
  userData : Pointer
  deriving Repr, DecidableEq

def OxSubscription.entry (sub : OxSubscription) : Entry := ⟨sub.id, sub.callback, sub.userData⟩

namespace OxEventSystem

abbrev items (system : OxEventSystem) : SubStore := system.subscriptionSet.items

abbrev count (system : OxEventSystem) : Nat := system.subscriptionSet.count

def IdFree (system : OxEventSystem) (id : Int) : Prop :=
  ∀ slot : SubSlot, slot.val < system.count → (system.items slot).id ≠ id

end OxEventSystem

/-- `nodes` are the chains of the topics, no two of their nodes have one id, and every one of
them stands for a stored subscription. The node itself may lie outside the part of the store
that is in use: its subscription has then been moved, and the node is what it left behind. -/
structure Linked (system : OxEventSystem) (nodes : Fin topicsCount → List SubSlot) : Prop where
  chains : ∀ topic, Chain (links system.items) (system.topics topic) (nodes topic)
  apart : ∀ first second left right, left ∈ nodes first → right ∈ nodes second →
    (system.items left).id = (system.items right).id → left = right ∧ first = second
  stored : ∀ topic, ∀ slot ∈ nodes topic,
    system.subscriptionSet.Member oxSubEq (system.items slot)
  ranged : ∀ topic, ∀ slot ∈ nodes topic,
    0 ≤ (system.items slot).id ∧ (system.items slot).id ≤ randMax
  distinct : system.subscriptionSet.Distinct oxSubEq

theorem linked_fresh : Linked oxiMakeEventSystem fun _ => [] where
  chains _ := rfl
  apart := by simp
  stored := by simp
  ranged := by simp
  distinct := FixedSet.distinct_zeroed _ _

theorem setNext_entry (items : SubStore) (slot query : SubSlot) (link : Option SubSlot) :
    (setNext items slot link query).entry = (items query).entry := by
  simp only [setNext, Function.update_apply]
  split
  case isTrue same => rw [same]; rfl
  case isFalse => rfl

section Subscribe

variable {system : OxEventSystem} {nodes : Fin topicsCount → List SubSlot}
  {id : Int} (type : Fin topicsCount) (callback userData : Pointer)

theorem oxiSubscribeEvents_eq (system : OxEventSystem) (id : Int) :
    oxiSubscribeEvents system id type callback userData =
      let added :=
        system.subscriptionSet.add oxSubEq ⟨id, callback, userData, system.topics type⟩
      ({ topics := Function.update system.topics type added.2, subscriptionSet := added.1 },
        id) := by
  have available := system.subscriptionSet.avail_nonneg
  simp only [oxiSubscribeEvents, available, ↓reduceIte]

theorem oxiSubscribeEvents_set (system : OxEventSystem) (id : Int) :
    (oxiSubscribeEvents system id type callback userData).1.subscriptionSet =
      (system.subscriptionSet.add oxSubEq ⟨id, callback, userData, system.topics type⟩).1 := by
  rw [oxiSubscribeEvents_eq]

theorem count_le_oxiSubscribeEvents (system : OxEventSystem) (id : Int) :
    system.count ≤ (oxiSubscribeEvents system id type callback userData).1.count := by
  rw [OxEventSystem.count, OxEventSystem.count, oxiSubscribeEvents_set]
  exact FixedSet.count_le_add _ _ _

/-- Whatever the id is, a call writes over nothing that is stored. -/
theorem oxiSubscribeEvents_stored (system : OxEventSystem) (id : Int) {slot : SubSlot}
    (inUse : slot.val < system.count) :
    (oxiSubscribeEvents system id type callback userData).1.items slot = system.items slot := by
  rw [OxEventSystem.items, OxEventSystem.items, oxiSubscribeEvents_set]
  exact FixedSet.add_items _ _ _ inUse

theorem index_of_idFree (free : system.IdFree id) (link : Option SubSlot) :
    system.subscriptionSet.index oxSubEq ⟨id, callback, userData, link⟩ = none := by
  rw [FixedSet.index_eq_none_iff]
  intro slot inUse
  simpa [oxSubEq] using free slot inUse

theorem oxiSubscribeEvents_room (free : system.IdFree id) (room : system.count < subMax) :
    oxiSubscribeEvents system id type callback userData =
      ({ topics := Function.update system.topics type (some ⟨system.count, room⟩)
         subscriptionSet :=
          { items := Function.update system.items ⟨system.count, room⟩
              ⟨id, callback, userData, system.topics type⟩
            count := system.count + 1
            countBound := room } }, id) := by
  rw [oxiSubscribeEvents_eq,
    FixedSet.add_new (index_of_idFree callback userData free (system.topics type)) room]

theorem oxiSubscribeEvents_full (free : system.IdFree id) (full : system.count = subMax) :
    oxiSubscribeEvents system id type callback userData =
      ({ system with topics := Function.update system.topics type none }, id) := by
  rw [oxiSubscribeEvents_eq,
    FixedSet.add_full (index_of_idFree callback userData free (system.topics type)) full]

theorem links_update (items : SubStore) (slot : SubSlot) (sub : OxSubscription) :
    links (Function.update items slot sub) = Function.update (links items) slot sub.next := by
  funext query
  simp only [links, Function.update_apply]
  split <;> rfl

theorem oxiSubscribeEvents_items (free : system.IdFree id) (room : system.count < subMax) :
    (oxiSubscribeEvents system id type callback userData).1.items =
      Function.update system.items ⟨system.count, room⟩
        ⟨id, callback, userData, system.topics type⟩ := by
  rw [oxiSubscribeEvents_room type callback userData free room]

theorem oxiSubscribeEvents_topics (free : system.IdFree id) (room : system.count < subMax) :
    (oxiSubscribeEvents system id type callback userData).1.topics =
      Function.update system.topics type (some ⟨system.count, room⟩) := by
  rw [oxiSubscribeEvents_room type callback userData free room]

theorem oxiSubscribeEvents_links (free : system.IdFree id) (room : system.count < subMax) :
    links (oxiSubscribeEvents system id type callback userData).1.items =
      Function.update (links system.items) ⟨system.count, room⟩ (system.topics type) := by
  rw [oxiSubscribeEvents_items type callback userData free room, links_update]

theorem Linked.id_ne (linked : Linked system nodes) (free : system.IdFree id)
    {topic : Fin topicsCount} {slot : SubSlot} (member : slot ∈ nodes topic) :
    (system.items slot).id ≠ id := by
  obtain ⟨stored, inUse, same⟩ := linked.stored topic slot member
  rw [← (oxSubEq_iff _ _).mp same]
  exact free stored inUse

theorem mem_push {α : Type} {lists : Fin topicsCount → List α} {type topic : Fin topicsCount}
    {first member : α} (inside : member ∈ Function.update lists type (first :: lists type) topic) :
    (member = first ∧ topic = type) ∨ member ∈ lists topic := by
  rw [Function.update_apply] at inside
  split at inside
  case isTrue same =>
    subst same
    rcases List.mem_cons.mp inside with here | later
    · exact Or.inl ⟨here, rfl⟩
    · exact Or.inr later
  case isFalse => exact Or.inr inside

theorem mem_push_of_mem {α : Type} {lists : Fin topicsCount → List α}
    {type topic : Fin topicsCount} {first member : α} (inside : member ∈ lists topic) :
    member ∈ Function.update lists type (first :: lists type) topic := by
  rw [Function.update_apply]
  split
  case isTrue same => exact List.mem_cons_of_mem _ (same ▸ inside)
  case isFalse => exact inside

theorem Linked.subscribe (linked : Linked system nodes) (free : system.IdFree id)
    (lower : 0 ≤ id) (upper : id ≤ randMax) (room : system.count < subMax)
    (unlinked : ∀ topic, ⟨system.count, room⟩ ∉ nodes topic) :
    Linked (oxiSubscribeEvents system id type callback userData).1
      (Function.update nodes type (⟨system.count, room⟩ :: nodes type)) := by
  have absent := index_of_idFree callback userData free (system.topics type)
  have items := oxiSubscribeEvents_items type callback userData free room
  have topics := oxiSubscribeEvents_topics type callback userData free room
  have linksAfter := oxiSubscribeEvents_links type callback userData free room
  have set := oxiSubscribeEvents_set type callback userData system id
  generalize (oxiSubscribeEvents system id type callback userData).1 = after at *
  generalize (⟨system.count, room⟩ : SubSlot) = slot at *
  have new : after.items slot = ⟨id, callback, userData, system.topics type⟩ := by
    rw [items, Function.update_self]
  have old (topic : Fin topicsCount) (query : SubSlot) (member : query ∈ nodes topic) :
      after.items query = system.items query := by
    rw [items]
    apply Function.update_of_ne
    rintro rfl
    exact unlinked topic member
  refine ⟨?_, ?_, ?_, ?_, ?_⟩
  · intro topic
    rw [linksAfter, topics, Function.update_apply, Function.update_apply]
    split
    case isTrue same =>
      subst same
      exact (linked.chains topic).push (unlinked topic)
    case isFalse => exact (linked.chains topic).update_of_notMem (unlinked topic) _
  · intro first second left right leftMember rightMember same
    rcases mem_push leftMember with ⟨leftHere, leftTopic⟩ | leftOld <;>
      rcases mem_push rightMember with ⟨rightHere, rightTopic⟩ | rightOld
    · exact ⟨leftHere.trans rightHere.symm, leftTopic.trans rightTopic.symm⟩
    · rw [leftHere, new, old _ _ rightOld] at same
      exact absurd same.symm (linked.id_ne free rightOld)
    · rw [rightHere, new, old _ _ leftOld] at same
      exact absurd same (linked.id_ne free leftOld)
    · rw [old _ _ leftOld, old _ _ rightOld] at same
      exact linked.apart _ _ _ _ leftOld rightOld same
  · intro topic query member
    rw [set, FixedSet.member_add absent room]
    rcases mem_push member with ⟨here, _⟩ | before
    · right
      rw [here, new]
      exact oxSubEq_equivalence.refl _
    · left
      rw [old _ _ before]
      exact linked.stored _ _ before
  · intro topic query member
    rcases mem_push member with ⟨here, _⟩ | before
    · rw [here, new]
      exact ⟨lower, upper⟩
    · rw [old _ _ before]
      exact linked.ranged _ _ before
  · rw [set]
    exact FixedSet.distinct_add oxSubEq_equivalence linked.distinct absent room

end Subscribe

section Unsubscribe

variable {system : OxEventSystem} {nodes : Fin topicsCount → List SubSlot} {id : Nat}

theorem Linked.match_unique (linked : Linked system nodes) {first second : Fin topicsCount}
    {left right : SubSlot} (leftMember : left ∈ nodes first) (rightMember : right ∈ nodes second)
    (leftMatch : toSizeT (system.items left).id = id)
    (rightMatch : toSizeT (system.items right).id = id) : left = right ∧ first = second := by
  have leftRange := linked.ranged first left leftMember
  have rightRange := linked.ranged second right rightMember
  exact linked.apart _ _ _ _ leftMember rightMember
    (toSizeT_injective leftRange.1 leftRange.2 rightRange.1 rightRange.2
      (leftMatch.trans rightMatch.symm))

theorem Linked.popById_other (linked : Linked system nodes) {here topic : Fin topicsCount}
    {sub : SubSlot} (member : sub ∈ nodes here) (matched : toSizeT (system.items sub).id = id)
    (other : topic ≠ here) :
    popById system.items (system.topics topic) id = .ok (none, system.items) := by
  apply popById_absent (linked.chains topic)
  intro slot slotMember slotMatch
  exact other (linked.match_unique slotMember member slotMatch matched).2

theorem unsubscribe_unmatched
    (unmatched : ∀ topic, ∃ nodes, Chain (links system.items) (system.topics topic) nodes ∧
      ∀ slot ∈ nodes, toSizeT (system.items slot).id ≠ id) :
    oxiUnsubscribe system id = .ok (system, false) := by
  have scanned := scanTopics_skip (List.finRange topicsCount) [] fun topic _ => by
    obtain ⟨nodes, chain, others⟩ := unmatched topic
    exact popById_absent chain others
  rw [List.append_nil] at scanned
  simp only [oxiUnsubscribe, scanned, scanTopics]

theorem Linked.unsubscribe_absent (linked : Linked system nodes)
    (unmatched : ∀ topic, ∀ slot ∈ nodes topic, toSizeT (system.items slot).id ≠ id) :
    oxiUnsubscribe system id = .ok (system, false) :=
  unsubscribe_unmatched fun topic => ⟨nodes topic, linked.chains topic, unmatched topic⟩

theorem Linked.unsubscribe_head (linked : Linked system nodes) {here : Fin topicsCount}
    {sub : SubSlot} {back : List SubSlot} (shape : nodes here = sub :: back)
    (matched : toSizeT (system.items sub).id = id) :
    oxiUnsubscribe system id = .error .nullDereference := by
  have member : sub ∈ nodes here := by simp [shape]
  obtain ⟨rest, scanned⟩ :=
    scanTopics_at here fun topic other => linked.popById_other member matched other
  have chain := linked.chains here
  rw [shape] at chain
  have popped := popById_head chain matched
  simp only [oxiUnsubscribe, scanned, scanTopics, popped]

def unlinkAfter (system : OxEventSystem) (prev : SubSlot) (back : List SubSlot) :
    FixedSet OxSubscription subMax :=
  { system.subscriptionSet with
    items := setNext system.items prev (back.head?.bind (links system.items)) }

theorem unlinkAfter_id (prev slot : SubSlot) (back : List SubSlot) :
    ((unlinkAfter system prev back).items slot).id = (system.items slot).id :=
  setNext_id _ _ _ _

theorem unlinkAfter_member (system : OxEventSystem) (prev : SubSlot) (back : List SubSlot)
    (query : OxSubscription) :
    (unlinkAfter system prev back).Member oxSubEq query ↔
      system.subscriptionSet.Member oxSubEq query := by
  simp only [FixedSet.Member, oxSubEq_iff, unlinkAfter_id]
  rfl

theorem unlinkAfter_distinct (distinct : system.subscriptionSet.Distinct oxSubEq)
    (prev : SubSlot) (back : List SubSlot) : (unlinkAfter system prev back).Distinct oxSubEq := by
  intro i j iInUse jInUse same
  rw [oxSubEq_iff, unlinkAfter_id, unlinkAfter_id, ← oxSubEq_iff] at same
  exact distinct i j iInUse jInUse same

def unsubscribed (system : OxEventSystem) (prev sub : SubSlot) (back : List SubSlot) :
    OxEventSystem :=
  { system with
    subscriptionSet := ((unlinkAfter system prev back).remove oxSubEq (system.items sub)).1 }

section Found

variable {here topic : Fin topicsCount} {front back : List SubSlot} {prev sub slot : SubSlot}

theorem Linked.oxiUnsubscribe_eq (linked : Linked system nodes)
    (shape : nodes here = front ++ prev :: sub :: back)
    (matched : toSizeT (system.items sub).id = id) :
    oxiUnsubscribe system id = .ok (unsubscribed system prev sub back, true) := by
  have member : sub ∈ nodes here := by simp [shape]
  have unique := (linked.chains here).nodup
  rw [shape] at unique
  have apart : sub ≠ prev := by
    rintro rfl
    simp [List.nodup_append] at unique
  obtain ⟨rest, scanned⟩ :=
    scanTopics_at here fun topic other => linked.popById_other member matched other
  have chain := linked.chains here
  rw [shape] at chain
  have unmatched : ∀ slot ∈ front ++ [prev], toSizeT (system.items slot).id ≠ id := by
    intro slot slotMember slotMatch
    have inHere : slot ∈ nodes here := by
      rw [shape]
      rcases List.mem_append.mp slotMember with before | last
      · simp [before]
      · simp [List.mem_singleton.mp last]
    have same := (linked.match_unique inHere member slotMatch matched).1
    subst same
    rcases List.mem_append.mp slotMember with before | last
    · exact (List.nodup_append.mp unique).2.2 slot before slot (by simp) rfl
    · exact apart (List.mem_singleton.mp last)
  have popped := popById_found chain unmatched matched
  obtain ⟨i, found⟩ := ((unlinkAfter_member system prev back (system.items sub)).mpr
    (linked.stored here sub member)).index
  have removed : ((unlinkAfter system prev back).remove oxSubEq (system.items sub)).2 = true := by
    rw [FixedSet.remove_found found]
  simp only [oxiUnsubscribe, scanned, scanTopics, popped, setNext_of_ne _ _ apart]
  rw [← removed]
  rfl

theorem Linked.mem_unsubscribed (linked : Linked system nodes)
    (shape : nodes here = front ++ prev :: sub :: back)
    (slotMember : slot ∈ Function.update nodes here (front ++ prev :: back.tail) topic) :
    slot ∈ nodes topic ∧ slot ≠ sub := by
  rw [Function.update_apply] at slotMember
  split at slotMember
  case isTrue same =>
    subst same
    have unique := (linked.chains topic).nodup
    rw [shape] at unique ⊢
    have inBack (inTail : slot ∈ back.tail) : slot ∈ back := List.mem_of_mem_tail inTail
    simp only [List.nodup_append, List.nodup_cons, List.mem_cons] at unique
    simp only [List.mem_append, List.mem_cons] at slotMember
    grind
  case isFalse different =>
    refine ⟨slotMember, ?_⟩
    rintro rfl
    exact different (linked.apart _ _ _ _ slotMember (by simp [shape]) rfl).2

/-- The slot that the last subscription is copied into belongs to no remaining node. -/
theorem Linked.unsubscribed_items (linked : Linked system nodes) (member : sub ∈ nodes here)
    (prev : SubSlot) (back : List SubSlot) (slotMember : slot ∈ nodes topic) (other : slot ≠ sub) :
    (unsubscribed system prev sub back).items slot = (unlinkAfter system prev back).items slot := by
  obtain ⟨i, found⟩ := ((unlinkAfter_member system prev back (system.items sub)).mpr
    (linked.stored here sub member)).index
  have iSame := (FixedSet.index_some found).2.1
  rw [oxSubEq_iff, unlinkAfter_id] at iSame
  have notOverwritten : slot ≠ i := by
    rintro rfl
    exact other (linked.apart _ _ _ _ slotMember member iSame).1
  rw [OxEventSystem.items, unsubscribed, FixedSet.remove_items found]
  simp only [FixedSet.removedFrom, notOverwritten, ↓reduceIte]

theorem Linked.unsubscribed_id (linked : Linked system nodes) (member : sub ∈ nodes here)
    (prev : SubSlot) (back : List SubSlot) (slotMember : slot ∈ nodes topic) (other : slot ≠ sub) :
    ((unsubscribed system prev sub back).items slot).id = (system.items slot).id := by
  rw [linked.unsubscribed_items member prev back slotMember other, unlinkAfter_id]

theorem Linked.unsubscribed_member (linked : Linked system nodes) (prev sub : SubSlot)
    (back : List SubSlot) (query : OxSubscription) :
    (unsubscribed system prev sub back).subscriptionSet.Member oxSubEq query ↔
      system.subscriptionSet.Member oxSubEq query ∧ (system.items sub).id ≠ query.id := by
  rw [unsubscribed, FixedSet.member_remove oxSubEq_equivalence
    (unlinkAfter_distinct linked.distinct prev back), unlinkAfter_member, oxSubEq_iff]

theorem Linked.unsubscribed_chain (linked : Linked system nodes)
    (shape : nodes here = front ++ prev :: sub :: back) (topic : Fin topicsCount) :
    Chain (links (unsubscribed system prev sub back).items)
      ((unsubscribed system prev sub back).topics topic)
      (Function.update nodes here (front ++ prev :: back.tail) topic) := by
  have member : sub ∈ nodes here := by simp [shape]
  have prevMember : prev ∈ nodes here := by simp [shape]
  have agree (slot : SubSlot)
      (slotMember : slot ∈ Function.update nodes here (front ++ prev :: back.tail) topic) :
      links (unsubscribed system prev sub back).items slot =
        Function.update (links system.items) prev (back.head?.bind (links system.items))
          slot := by
    obtain ⟨old, other⟩ := linked.mem_unsubscribed shape slotMember
    rw [← links_setNext, links, linked.unsubscribed_items member prev back old other]
    rfl
  refine Chain.congr ?_ agree
  have chain := linked.chains topic
  rw [Function.update_apply]
  split
  case isTrue same =>
    subst same
    rw [shape] at chain
    exact chain.relink_past_two
  case isFalse different =>
    apply chain.update_of_notMem
    intro inside
    exact different (linked.apart _ _ _ _ inside prevMember rfl).2

theorem Linked.unsubscribed_linked (linked : Linked system nodes)
    (shape : nodes here = front ++ prev :: sub :: back) :
    Linked (unsubscribed system prev sub back)
      (Function.update nodes here (front ++ prev :: back.tail)) := by
  have member : sub ∈ nodes here := by simp [shape]
  have keptId (topic : Fin topicsCount) (slot : SubSlot) (slotMember : slot ∈ nodes topic)
      (other : slot ≠ sub) := linked.unsubscribed_id member prev back slotMember other
  refine ⟨linked.unsubscribed_chain shape, ?_, ?_, ?_, ?_⟩
  · intro first second left right leftMember rightMember same
    obtain ⟨leftOld, leftOther⟩ := linked.mem_unsubscribed shape leftMember
    obtain ⟨rightOld, rightOther⟩ := linked.mem_unsubscribed shape rightMember
    rw [keptId _ _ leftOld leftOther, keptId _ _ rightOld rightOther] at same
    exact linked.apart _ _ _ _ leftOld rightOld same
  · intro topic slot slotMember
    obtain ⟨old, other⟩ := linked.mem_unsubscribed shape slotMember
    obtain ⟨stored, inUse, same⟩ := linked.stored topic slot old
    rw [oxSubEq_iff, ← keptId _ _ old other] at same
    rw [linked.unsubscribed_member, keptId _ _ old other]
    refine ⟨⟨stored, inUse, (oxSubEq_iff _ _).mpr same⟩, fun equal => ?_⟩
    exact other (linked.apart _ _ _ _ member old equal).1.symm
  · intro topic slot slotMember
    obtain ⟨old, other⟩ := linked.mem_unsubscribed shape slotMember
    rw [keptId _ _ old other]
    exact linked.ranged _ _ old
  · exact FixedSet.distinct_remove (unlinkAfter_distinct linked.distinct prev back)

/-- Unsubscribing a subscription that is not the newest of its topic drops its node from the
chain, and with it the node behind it. -/
theorem Linked.unsubscribe_found (linked : Linked system nodes)
    (shape : nodes here = front ++ prev :: sub :: back)
    (matched : toSizeT (system.items sub).id = id) :
    ∃ after, oxiUnsubscribe system id = .ok (after, true) ∧
      Linked after (Function.update nodes here (front ++ prev :: back.tail)) ∧
      (∀ topic, ∀ slot ∈ nodes topic, slot ≠ sub →
        (after.items slot).entry = (system.items slot).entry) ∧
      ∀ query, after.subscriptionSet.Member oxSubEq query ↔
        system.subscriptionSet.Member oxSubEq query ∧ (system.items sub).id ≠ query.id := by
  have member : sub ∈ nodes here := by simp [shape]
  refine ⟨_, linked.oxiUnsubscribe_eq shape matched, linked.unsubscribed_linked shape, ?_,
    linked.unsubscribed_member prev sub back⟩
  intro topic slot slotMember other
  rw [linked.unsubscribed_items member prev back slotMember other]
  exact setNext_entry _ _ _ _

end Found

def withoutId (items : SubStore) (id : Nat) (nodes : List SubSlot) : List SubSlot :=
  nodes.filter fun slot => toSizeT (items slot).id ≠ id

theorem withoutId_of_unmatched {items : SubStore} {nodes : List SubSlot}
    (unmatched : ∀ slot ∈ nodes, toSizeT (items slot).id ≠ id) :
    withoutId items id nodes = nodes := by
  rw [withoutId, List.filter_eq_self]
  intro slot member
  simpa using unmatched slot member

theorem Linked.withoutId_other (linked : Linked system nodes) {here topic : Fin topicsCount}
    {sub : SubSlot} (member : sub ∈ nodes here) (matched : toSizeT (system.items sub).id = id)
    (other : topic ≠ here) : withoutId system.items id (nodes topic) = nodes topic := by
  apply withoutId_of_unmatched
  intro slot slotMember slotMatch
  exact other (linked.match_unique slotMember member slotMatch matched).2

theorem Linked.withoutId_here (linked : Linked system nodes) {here : Fin topicsCount}
    {newer older : List SubSlot} {sub : SubSlot} (shape : nodes here = newer ++ sub :: older)
    (matched : toSizeT (system.items sub).id = id) :
    withoutId system.items id (nodes here) = newer ++ older := by
  have member : sub ∈ nodes here := by simp [shape]
  have unique := (linked.chains here).nodup
  have unmatched (slot : SubSlot) (slotMember : slot ∈ nodes here) (other : slot ≠ sub) :
      toSizeT (system.items slot).id ≠ id :=
    fun slotMatch => other (linked.match_unique slotMember member slotMatch matched).1
  rw [shape] at unique unmatched
  simp only [List.nodup_append, List.nodup_cons, List.mem_cons] at unique
  have before : withoutId system.items id newer = newer := by
    apply withoutId_of_unmatched
    intro slot slotMember
    exact unmatched slot (by simp [slotMember]) (unique.2.2 slot slotMember sub (Or.inl rfl))
  have behind : withoutId system.items id older = older := by
    apply withoutId_of_unmatched
    intro slot slotMember
    refine unmatched slot (by simp [slotMember]) ?_
    rintro rfl
    exact unique.2.1.1 slotMember
  calc withoutId system.items id (nodes here)
      = withoutId system.items id newer ++ withoutId system.items id (sub :: older) := by
        rw [shape, withoutId, List.filter_append]; rfl
    _ = newer ++ older := by
        rw [before]
        simp only [withoutId, List.filter_cons, matched, ne_eq, not_true_eq_false, decide_false,
          Bool.false_eq_true, ↓reduceIte]
        rw [← withoutId, behind]

end Unsubscribe

end YakUnshorn
