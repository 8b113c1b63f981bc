import YakUnshorn.SubscribeRuns

/-!
What the last step of `oxi_unsubscribe` does to the links: `ox_sub_remove` moves the
last stored subscription to another slot.
-/

namespace YakUnshorn

open CMachine LinkedChain

def oxSubRemove (system : OxEventSystem) (slot : SubSlot) : OxEventSystem :=
  { system with
    subscriptionSet := (system.subscriptionSet.remove oxSubEq (system.items slot)).1 }

/-- The topics' chains consist of stored subscriptions, each with an id that no other one has. -/
structure LiveChains (system : OxEventSystem) (nodes : Fin topicsCount → List SubSlot) :
    Prop where
  chains : ∀ topic, Chain (links system.items) (system.topics topic) (nodes topic)
  inUse : ∀ topic, ∀ slot ∈ nodes topic, slot.val < system.count
  distinct : ∀ topic, ∀ slot ∈ nodes topic, ∀ other : SubSlot, other.val < system.count →
    (system.items other).id = (system.items slot).id → other = slot

/-- The topics say what they said before, and stay within what is stored. -/
def LinksKept (before after : OxEventSystem) (nodes : Fin topicsCount → List SubSlot) : Prop :=
  ∀ topic, ∃ visited, Chain (links after.items) (after.topics topic) visited ∧
    visited.map (fun slot => (after.items slot).entry) =
      (nodes topic).map (fun slot => (before.items slot).entry) ∧
    ∀ slot ∈ visited, slot.val < after.count

section Removing

variable {system : OxEventSystem} {nodes : Fin topicsCount → List SubSlot} {slot : SubSlot}

/-- Whichever slot the removal finds, it is none that the chains visit. -/
theorem LiveChains.oxSubRemove_frame (live : LiveChains system nodes)
    (inUse : slot.val < system.count) (unlinked : ∀ topic, slot ∉ nodes topic) :
    (oxSubRemove system slot).count = system.count - 1 ∧
      ∀ topic, ∀ query ∈ nodes topic,
        (oxSubRemove system slot).items query = system.items query := by
  obtain ⟨i, found⟩ := FixedSet.Member.index ⟨slot, inUse, oxSubEq_equivalence.refl _⟩
  have sameId := (oxSubEq_iff _ _).mp (FixedSet.index_some found).2.1
  refine ⟨FixedSet.remove_count found, fun topic query member => ?_⟩
  have other : query ≠ i := by
    rintro rfl
    have here := live.distinct topic query member slot inUse sameId.symm
    exact unlinked topic (here ▸ member)
  rw [oxSubRemove, OxEventSystem.items, FixedSet.remove_items found, FixedSet.removedFrom,
    if_neg other]

theorem LiveChains.linksKept_iff (live : LiveChains system nodes)
    (inUse : slot.val < system.count) (unlinked : ∀ topic, slot ∉ nodes topic) :
    LinksKept system (oxSubRemove system slot) nodes ↔
      ∀ topic, ∀ query ∈ nodes topic, query.val ≠ system.count - 1 := by
  obtain ⟨count, kept⟩ := live.oxSubRemove_frame inUse unlinked
  have chains (topic : Fin topicsCount) : Chain (links (oxSubRemove system slot).items)
      ((oxSubRemove system slot).topics topic) (nodes topic) :=
    (live.chains topic).congr fun query member => by rw [links, kept topic query member, links]
  constructor
  · intro linksKept topic query member last
    obtain ⟨visited, chain, -, within⟩ := linksKept topic
    rw [chain.unique (chains topic)] at within
    have below := within query member
    omega
  · intro spared topic
    refine ⟨nodes topic, chains topic, ?_, fun query member => ?_⟩
    · exact List.map_congr_left fun query member => by rw [kept topic query member]
    · have before := live.inUse topic query member
      have different := spared topic query member
      omega

/-- Removing a subscription that no chain visits keeps the links exactly when no chain visits the
last stored one, which takes its place. -/
theorem compaction_keeps_links_iff (live : LiveChains system nodes)
    (inUse : slot.val < system.count)
    (unlinked : ∀ topic, ¬Visits (links system.items) (system.topics topic) slot) :
    LinksKept system (oxSubRemove system slot) nodes ↔
      ∀ topic, ∀ query ∈ nodes topic, query.val ≠ system.count - 1 :=
  live.linksKept_iff inUse fun topic inside =>
    unlinked topic (((live.chains topic).visits_iff slot).mpr inside)

end Removing

section UnlinkedOldest

def oldestUnlinked : OxEventSystem :=
  let system := subscribeAll oxiMakeEventSystem
    [⟨⟨OxEventType.quit.topic, 0x10, 0⟩, 11⟩, ⟨⟨OxEventType.quit.topic, 0x20, 0⟩, 12⟩]
  { system with subscriptionSet := unlinkAfter system ⟨1, by decide⟩ [] }

def oldestUnlinkedNodes (topic : Fin topicsCount) : List SubSlot :=
  if topic = OxEventType.quit.topic then [⟨1, by decide⟩] else []

theorem oldestUnlinked_inUse (topic : Fin topicsCount) :
    ∀ slot ∈ oldestUnlinkedNodes topic, slot.val < oldestUnlinked.count := by
  intro slot member
  simp only [oldestUnlinkedNodes] at member
  split at member
  · rw [List.mem_singleton.mp member]
    decide
  · simp at member

theorem oldestUnlinked_live : LiveChains oldestUnlinked oldestUnlinkedNodes where
  chains topic := by
    have walked : ∀ topic, walk (links oldestUnlinked.items) subMax (oldestUnlinked.topics topic) =
      some (oldestUnlinkedNodes topic) := by decide
    exact chain_of_walk (walked topic)
  inUse := oldestUnlinked_inUse
  distinct topic slot member other inUse same := by
    have distinct : oldestUnlinked.subscriptionSet.Distinct oxSubEq :=
      unlinkAfter_distinct (descending_fresh.subscribeAll _).distinct _ _
    exact distinct other slot inUse (oldestUnlinked_inUse topic slot member)
      ((oxSubEq_iff _ _).mpr same)

theorem oldestUnlinked_unlinked (topic : Fin topicsCount) :
    (⟨0, by decide⟩ : SubSlot) ∉ oldestUnlinkedNodes topic := by
  revert topic
  decide

theorem compaction_keeps_links_iff_oldest :
    LinksKept oldestUnlinked (oxSubRemove oldestUnlinked ⟨0, by decide⟩) oldestUnlinkedNodes ↔
      ∀ topic, ∀ query ∈ oldestUnlinkedNodes topic, query.val ≠ oldestUnlinked.count - 1 :=
  compaction_keeps_links_iff oldestUnlinked_live (by decide) fun topic visited =>
    oldestUnlinked_unlinked topic (((oldestUnlinked_live.chains topic).visits_iff _).mp visited)

theorem compaction_strands_newest :
    LiveChains oldestUnlinked oldestUnlinkedNodes ∧ 0 < oldestUnlinked.count ∧
      (∀ topic, (⟨0, by decide⟩ : SubSlot) ∉ oldestUnlinkedNodes topic) ∧
      ¬LinksKept oldestUnlinked (oxSubRemove oldestUnlinked ⟨0, by decide⟩)
        oldestUnlinkedNodes := by
  refine ⟨oldestUnlinked_live, by decide, oldestUnlinked_unlinked, fun kept => ?_⟩
  have spared :=
    (oldestUnlinked_live.linksKept_iff (by decide) oldestUnlinked_unlinked).mp kept
  exact spared OxEventType.quit.topic ⟨1, by decide⟩ (by decide) (by decide)

end UnlinkedOldest

end YakUnshorn
