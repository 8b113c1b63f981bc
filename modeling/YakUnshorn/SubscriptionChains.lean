import YakUnshorn.DeliveryRuns

/-!
Whether the walks over a topic come to an end, in every run that never unsubscribes
the newest subscription of a topic.
-/

namespace YakUnshorn

open CMachine LinkedChain StepRuns

/-- `rand` gives a fresh id while fewer than `subMax` subscriptions are live, and only live ids
are unsubscribed that are not the newest of their topic. -/
def SparesNewest (state : SubState) : SubOp → Prop
  | .subscribe id _ _ _ =>
      0 ≤ id ∧ id ≤ randMax ∧ id ∉ state.2.used ∧ state.2.liveCount < subMax
  | .unsubscribe id => ∃ topic, ∃ entry ∈ (state.2.live topic).tail, toSizeT entry.id = id

instance (state : SubState) : (op : SubOp) → Decidable (SparesNewest state op)
  | .subscribe id _ _ _ =>
      inferInstanceAs (Decidable (0 ≤ id ∧ id ≤ randMax ∧ id ∉ state.2.used ∧
        state.2.liveCount < subMax))
  | .unsubscribe id =>
      inferInstanceAs (Decidable (∃ topic, ∃ entry ∈ (state.2.live topic).tail,
        toSizeT entry.id = id))

def FillsUnlinked (state : SubState) : SubOp → Prop
  | .subscribe _ _ _ _ => NextSlotUnlinked state.1
  | .unsubscribe _ => True

structure Registry.Unique (registry : Registry) : Prop where
  withinTopic : ∀ topic, ((registry.live topic).map Entry.id).Nodup
  acrossTopics : ∀ first second, ∀ left ∈ registry.live first, ∀ right ∈ registry.live second,
    left.id = right.id → first = second
  ranged : ∀ topic, ∀ entry ∈ registry.live topic, 0 ≤ entry.id ∧ entry.id ≤ randMax
  used : ∀ topic, ∀ entry ∈ registry.live topic, entry.id ∈ registry.used

namespace Registry

theorem unique_empty : Registry.empty.Unique where
  withinTopic _ := List.nodup_nil
  acrossTopics _ _ _ member := absurd member List.not_mem_nil
  ranged _ _ member := absurd member List.not_mem_nil
  used _ _ member := absurd member List.not_mem_nil

theorem mem_subscribe {registry : Registry} {type topic : Fin topicsCount} {new entry : Entry}
    (member : entry ∈ (registry.subscribe type new).live topic) :
    (entry = new ∧ topic = type) ∨ entry ∈ registry.live topic :=
  mem_push member

theorem Unique.subscribe {registry : Registry} (unique : registry.Unique)
    {type : Fin topicsCount} {entry : Entry} (lower : 0 ≤ entry.id) (upper : entry.id ≤ randMax)
    (fresh : entry.id ∉ registry.used) : (registry.subscribe type entry).Unique where
  withinTopic topic := by
    simp only [Registry.subscribe, Function.update_apply]
    split
    · rw [List.map_cons, List.nodup_cons]
      refine ⟨fun again => ?_, unique.withinTopic _⟩
      obtain ⟨old, member, same⟩ := List.mem_map.mp again
      exact fresh (same ▸ unique.used _ old member)
    · exact unique.withinTopic topic
  acrossTopics first second left leftMember right rightMember same := by
    rcases mem_subscribe leftMember with ⟨rfl, leftTopic⟩ | leftOld <;>
      rcases mem_subscribe rightMember with ⟨rfl, rightTopic⟩ | rightOld
    · exact leftTopic.trans rightTopic.symm
    · exact absurd (same ▸ unique.used _ right rightOld) fresh
    · exact absurd (same ▸ unique.used _ left leftOld) fresh
    · exact unique.acrossTopics _ _ left leftOld right rightOld same
  ranged topic query member := by
    rcases mem_subscribe member with ⟨rfl, -⟩ | old
    · exact ⟨lower, upper⟩
    · exact unique.ranged topic query old
  used topic query member := by
    rcases mem_subscribe member with ⟨rfl, -⟩ | old
    · exact List.mem_cons_self
    · exact List.mem_cons_of_mem _ (unique.used topic query old)

theorem Unique.unsubscribe {registry : Registry} (unique : registry.Unique) (id : Nat) :
    (registry.unsubscribe id).Unique where
  withinTopic topic :=
    (unique.withinTopic topic).sublist (List.filter_sublist.map Entry.id)
  acrossTopics _ _ left leftMember right rightMember same :=
    unique.acrossTopics _ _ left (List.mem_of_mem_filter leftMember) right
      (List.mem_of_mem_filter rightMember) same
  ranged topic entry member := unique.ranged topic entry (List.mem_of_mem_filter member)
  used topic entry member := unique.used topic entry (List.mem_of_mem_filter member)

theorem Unique.newest_ne {registry : Registry} (unique : registry.Unique)
    {topic other : Fin topicsCount} {entry newest : Entry} {older : List Entry}
    (behind : entry ∈ (registry.live topic).tail) (shape : registry.live other = newest :: older) :
    toSizeT newest.id ≠ toSizeT entry.id := by
  intro same
  have member : entry ∈ registry.live topic := List.mem_of_mem_tail behind
  have first : newest ∈ registry.live other := by simp [shape]
  have entryRange := unique.ranged topic entry member
  have newestRange := unique.ranged other newest first
  have sameId := toSizeT_injective newestRange.1 newestRange.2 entryRange.1 entryRange.2 same
  have sameTopic := unique.acrossTopics _ _ newest first entry member sameId
  subst sameTopic
  have distinct := unique.withinTopic other
  rw [shape, List.map_cons, List.nodup_cons] at distinct
  rw [shape, List.tail_cons] at behind
  exact distinct.1 (sameId ▸ List.mem_map_of_mem behind)

end Registry

/-- The chains end, every topic that has a chain has its newest subscription in front, and ids
are unique. Subscriptions may have dropped out of the chains, or been cut off with the whole
chain of their topic when the store was full. -/
structure Sound (state : SubState) (nodes : Fin topicsCount → List SubSlot) : Prop where
  linked : Linked state.1 nodes
  newestFirst : ∀ topic slot rest, nodes topic = slot :: rest → ∃ newest older,
    state.2.live topic = newest :: older ∧ newest.id = (state.1.items slot).id
  stored : ∀ slot : SubSlot, slot.val < state.1.count → (state.1.items slot).id ∈ state.2.used
  unique : state.2.Unique

theorem sound_fresh : Sound subFresh fun _ => [] where
  linked := linked_fresh
  newestFirst _ _ _ shape := by simp at shape
  stored slot inUse := absurd inUse (Nat.not_lt_zero _)
  unique := Registry.unique_empty

namespace Sound

variable {state : SubState} {nodes : Fin topicsCount → List SubSlot}

theorem idFree (sound : Sound state nodes) {id : Int} (fresh : id ∉ state.2.used) :
    state.1.IdFree id :=
  fun slot inUse same => fresh (same ▸ sound.stored slot inUse)

theorem subscribe (sound : Sound state nodes) {id : Int} (type : Fin topicsCount)
    (callback userData : Pointer) (lower : 0 ≤ id) (upper : id ≤ randMax)
    (fresh : id ∉ state.2.used) (room : state.1.count < subMax)
    (unlinked : ∀ topic, ⟨state.1.count, room⟩ ∉ nodes topic) :
    Sound ((oxiSubscribeEvents state.1 id type callback userData).1,
        state.2.subscribe type ⟨id, callback, userData⟩)
      (Function.update nodes type (⟨state.1.count, room⟩ :: nodes type)) := by
  have free := sound.idFree fresh
  have linked := sound.linked.subscribe type callback userData free lower upper room unlinked
  have items := oxiSubscribeEvents_items type callback userData free room
  have count : (oxiSubscribeEvents state.1 id type callback userData).1.count =
      state.1.count + 1 := by
    rw [oxiSubscribeEvents_room type callback userData free room]
  generalize (oxiSubscribeEvents state.1 id type callback userData).1 = after at *
  refine ⟨linked, ?_, ?_, sound.unique.subscribe lower upper fresh⟩
  · intro topic slot rest shape
    simp only [Registry.subscribe, Function.update_apply] at shape ⊢
    split at shape
    case isTrue same =>
      subst same
      obtain ⟨rfl, -⟩ := List.cons.inj shape
      exact ⟨_, _, by rw [if_pos rfl], by rw [items, Function.update_self]⟩
    case isFalse other =>
      obtain ⟨newest, older, live, same⟩ := sound.newestFirst topic slot rest shape
      refine ⟨newest, older, by rw [if_neg other]; exact live, ?_⟩
      rw [same, items, Function.update_of_ne]
      rintro rfl
      exact unlinked topic (by simp [shape])
  · intro slot inUse
    rw [count] at inUse
    rw [items, Function.update_apply]
    split
    case isTrue => exact List.mem_cons_self
    case isFalse different =>
      have : slot.val ≠ state.1.count := fun same => different (Fin.ext same)
      exact List.mem_cons_of_mem _ (sound.stored slot (by omega))

theorem subscribe_full (sound : Sound state nodes) {id : Int} (type : Fin topicsCount)
    (callback userData : Pointer) (lower : 0 ≤ id) (upper : id ≤ randMax)
    (fresh : id ∉ state.2.used) (full : state.1.count = subMax) :
    Sound ((oxiSubscribeEvents state.1 id type callback userData).1,
        state.2.subscribe type ⟨id, callback, userData⟩)
      (Function.update nodes type []) := by
  rw [oxiSubscribeEvents_full type callback userData (sound.idFree fresh) full]
  have remaining (topic : Fin topicsCount) (slot : SubSlot)
      (member : slot ∈ Function.update nodes type [] topic) : slot ∈ nodes topic := by
    rw [Function.update_apply] at member
    split at member
    · simp at member
    · exact member
  refine ⟨⟨?_, ?_, ?_, ?_, sound.linked.distinct⟩, ?_, ?_, sound.unique.subscribe lower upper fresh⟩
  · intro topic
    simp only [Function.update_apply]
    split
    · rfl
    · exact sound.linked.chains topic
  · intro first second left right leftMember rightMember
    exact sound.linked.apart _ _ _ _ (remaining _ _ leftMember) (remaining _ _ rightMember)
  · intro topic slot member
    exact sound.linked.stored topic slot (remaining _ _ member)
  · intro topic slot member
    exact sound.linked.ranged topic slot (remaining _ _ member)
  · intro topic slot rest shape
    simp only [Registry.subscribe, Function.update_apply] at shape ⊢
    split at shape
    case isTrue => simp at shape
    case isFalse other =>
      rw [if_neg other]
      exact sound.newestFirst topic slot rest shape
  · intro slot inUse
    exact List.mem_cons_of_mem _ (sound.stored slot inUse)

theorem head_ne (sound : Sound state nodes) {here topic : Fin topicsCount} {entry : Entry}
    (behind : entry ∈ (state.2.live topic).tail) {slot : SubSlot} {rest : List SubSlot}
    (shape : nodes here = slot :: rest) :
    toSizeT (state.1.items slot).id ≠ toSizeT entry.id := by
  obtain ⟨newest, older, live, same⟩ := sound.newestFirst here slot rest shape
  rw [← same]
  exact sound.unique.newest_ne behind live

theorem newest_kept (sound : Sound state nodes) {here topic : Fin topicsCount} {entry : Entry}
    (behind : entry ∈ (state.2.live topic).tail) {slot : SubSlot} {rest : List SubSlot}
    (shape : nodes here = slot :: rest) :
    ∃ newest older, (state.2.unsubscribe (toSizeT entry.id)).live here = newest :: older ∧
      newest.id = (state.1.items slot).id := by
  obtain ⟨newest, older, live, same⟩ := sound.newestFirst here slot rest shape
  have stays := sound.unique.newest_ne behind live
  refine ⟨newest, older.filter fun entry' => toSizeT entry'.id ≠ toSizeT entry.id, ?_, same⟩
  simp [Registry.unsubscribe, live, stays]

theorem unsubscribe (sound : Sound state nodes) {topic : Fin topicsCount} {entry : Entry}
    (behind : entry ∈ (state.2.live topic).tail) :
    ∃ after done, oxiUnsubscribe state.1 (toSizeT entry.id) = .ok (after, done) ∧
      ∃ nodes, Sound (after, state.2.unsubscribe (toSizeT entry.id)) nodes := by
  by_cases present : ∃ here, ∃ sub ∈ nodes here,
      toSizeT (state.1.items sub).id = toSizeT entry.id
  · obtain ⟨here, sub, member, matched⟩ := present
    obtain ⟨newer, back, shape⟩ := List.append_of_mem member
    rcases List.eq_nil_or_concat newer with rfl | ⟨front, prev, rfl⟩
    · exact absurd matched (sound.head_ne behind (by simpa using shape))
    · have found : nodes here = front ++ prev :: sub :: back := by simpa using shape
      obtain ⟨after, returned, linked, entries, membership⟩ :=
        sound.linked.unsubscribe_found found matched
      refine ⟨after, true, returned, _, linked, ?_, ?_, sound.unique.unsubscribe _⟩
      · intro other slot rest shapeAfter
        obtain ⟨behindHead, shapeBefore⟩ : ∃ rest, nodes other = slot :: rest := by
          rw [Function.update_apply] at shapeAfter
          split at shapeAfter
          case isTrue same =>
            subst same
            rw [found]
            cases front with
            | nil => exact ⟨_, by rw [← (List.cons.inj shapeAfter).1]; rfl⟩
            | cons first others => exact ⟨_, by rw [← (List.cons.inj shapeAfter).1]; rfl⟩
          case isFalse => exact ⟨rest, shapeAfter⟩
        obtain ⟨newest, older, live, same⟩ := sound.newest_kept behind shapeBefore
        have kept := entries other slot (by simp [shapeBefore]) (by
          rintro rfl
          exact sound.head_ne behind shapeBefore matched)
        exact ⟨newest, older, live, same.trans (congrArg Entry.id kept).symm⟩
      · intro slot inUse
        have self : after.subscriptionSet.Member oxSubEq (after.items slot) :=
          ⟨slot, inUse, oxSubEq_equivalence.refl _⟩
        obtain ⟨⟨origin, originInUse, same⟩, -⟩ := (membership _).mp self
        rw [← (oxSubEq_iff _ _).mp same]
        exact sound.stored origin originInUse
  · have unmatched : ∀ here, ∀ slot ∈ nodes here,
        toSizeT (state.1.items slot).id ≠ toSizeT entry.id :=
      fun here slot member matched => present ⟨here, slot, member, matched⟩
    refine ⟨state.1, false, sound.linked.unsubscribe_absent unmatched, nodes, sound.linked, ?_,
      sound.stored, sound.unique.unsubscribe _⟩
    intro other slot rest shape
    exact sound.newest_kept behind shape

theorem step (sound : Sound state nodes) (op : SubOp) (spares : SparesNewest state op)
    (fills : FillsUnlinked state op) :
    ∃ after, subStep state op = some after ∧ ∃ nodes, Sound after nodes := by
  cases op with
  | subscribe id type callback userData =>
      obtain ⟨lower, upper, fresh, -⟩ := spares
      refine ⟨_, rfl, ?_⟩
      by_cases room : state.1.count < subMax
      · have unlinked := (sound.linked.nextSlotUnlinked_iff room).mp fills
        exact ⟨_, sound.subscribe type callback userData lower upper fresh room unlinked⟩
      · have full : state.1.count = subMax :=
          Nat.le_antisymm state.1.subscriptionSet.countBound (Nat.le_of_not_lt room)
        exact ⟨_, sound.subscribe_full type callback userData lower upper fresh full⟩
  | unsubscribe id =>
      obtain ⟨topic, entry, behind, rfl⟩ := spares
      obtain ⟨after, done, returned, nodes, kept⟩ := sound.unsubscribe behind
      exact ⟨_, by simp only [subStep, subCall, returned]; rfl, nodes, kept⟩

theorem subscribe_endless (sound : Sound state nodes) {id : Int} {type : Fin topicsCount}
    {callback userData : Pointer} (fresh : id ∉ state.2.used) (room : state.1.count < subMax)
    (linked : ⟨state.1.count, room⟩ ∈ nodes type) :
    let after := (oxiSubscribeEvents state.1 id type callback userData).1
    ¬Ends (links after.items) (after.topics type) := by
  intro after
  have free := sound.idFree fresh
  rw [oxiSubscribeEvents_links _ _ _ free room, oxiSubscribeEvents_topics _ _ _ free room,
    Function.update_self]
  exact (sound.linked.chains type).push_mem_not_ends linked

end Sound

theorem popByIdLoop_ends (id : Nat) {items : SubStore} {nodes : List SubSlot}
    {start : Option SubSlot} (chain : Chain (links items) start nodes) {fuel : Nat}
    (enough : nodes.length ≤ fuel) (prev : Option SubSlot) :
    popByIdLoop id fuel items prev start ≠ .error .nonTermination := by
  induction nodes generalizing start fuel prev with
  | nil =>
      have stopped : start = none := chain
      subst stopped
      cases fuel <;> simp [popByIdLoop]
  | cons sub rest ih =>
      obtain ⟨rfl, tail⟩ := chain
      obtain ⟨fuel, rfl⟩ : ∃ less, fuel = less + 1 := ⟨fuel - 1, by
        rw [List.length_cons] at enough
        omega⟩
      rw [List.length_cons] at enough
      simp only [popByIdLoop]
      split
      · cases prev with
        | none => simp
        | some prev =>
            dsimp only
            split <;> simp
      · exact ih tail (by omega) (some sub)

def KeepsEnds (state : SubState) (op : SubOp) : Prop :=
  SparesNewest state op ∧ FillsUnlinked state op

def scriptOps {Sdl : Type} (around : Surroundings Sdl) : Nat → List SubscribeCall → List SubOp
  | _, [] => []
  | draws, call :: rest =>
      .subscribe (around.rand draws) call.type call.callback call.userData ::
        scriptOps around (draws + 1) rest

/-- The subscribe calls that the next `n` calls of callbacks make. -/
def callbackOps {Sdl : Type} (around : Surroundings Sdl) : Nat → Nat → Nat → List SubOp
  | 0, _, _ => []
  | n + 1, draws, calls =>
      scriptOps around draws (around.script calls) ++
        callbackOps around n (draws + (around.script calls).length) (calls + 1)

/-- A walk passes `rest` from the cursor on. A subscribe call fills none of these nodes: they
belong to topics, or there is no slot left to fill. -/
structure Walking (system : OxEventSystem) (nodes : Fin topicsCount → List SubSlot)
    (cursor : Option SubSlot) (rest : List SubSlot) : Prop where
  chain : Chain (links system.items) cursor rest
  sheltered : system.count = subMax ∨ ∀ slot ∈ rest, ∃ topic, slot ∈ nodes topic

theorem Walking.next {system : OxEventSystem} {nodes : Fin topicsCount → List SubSlot}
    {sub : SubSlot} {rest : List SubSlot}
    (walking : Walking system nodes (some sub) (sub :: rest)) :
    Walking system nodes (system.items sub).next rest where
  chain := walking.chain.2
  sheltered := walking.sheltered.imp_right fun linked slot member =>
    linked slot (List.mem_cons_of_mem _ member)

namespace Sound

variable {registry : Registry} {nodes : Fin topicsCount → List SubSlot}

theorem subscribe_walking {system : OxEventSystem} (sound : Sound (system, registry) nodes)
    {id : Int} {type : Fin topicsCount} {callback userData : Pointer}
    (keeps : KeepsEnds (system, registry) (.subscribe id type callback userData)) :
    ∃ nodes', Sound ((oxiSubscribeEvents system id type callback userData).1,
        registry.subscribe type ⟨id, callback, userData⟩) nodes' ∧
      ∀ cursor rest, Walking system nodes cursor rest →
        Walking (oxiSubscribeEvents system id type callback userData).1 nodes' cursor rest := by
  obtain ⟨⟨lower, upper, fresh, -⟩, fills⟩ := keeps
  have free := sound.idFree fresh
  by_cases room : system.count < subMax
  · have unlinked := (sound.linked.nextSlotUnlinked_iff room).mp fills
    refine ⟨_, sound.subscribe type callback userData lower upper fresh room unlinked, ?_⟩
    intro cursor rest walking
    have linked := walking.sheltered.resolve_left (Nat.ne_of_lt room)
    refine ⟨?_, Or.inr fun slot member => ?_⟩
    · rw [oxiSubscribeEvents_links _ _ _ free room]
      apply walking.chain.update_of_notMem
      intro inside
      obtain ⟨topic, member⟩ := linked _ inside
      exact unlinked topic member
    · obtain ⟨topic, old⟩ := linked slot member
      exact ⟨topic, mem_push_of_mem old⟩
  · have full : system.count = subMax :=
      Nat.le_antisymm system.subscriptionSet.countBound (Nat.le_of_not_lt room)
    refine ⟨_, sound.subscribe_full type callback userData lower upper fresh full, ?_⟩
    intro cursor rest walking
    rw [oxiSubscribeEvents_full _ _ _ free full]
    exact ⟨walking.chain, Or.inl full⟩

theorem script_walking {Sdl : Type} (around : Surroundings Sdl) (kernel : Kernel OxEventSystem)
    (sound : Sound (kernel.system, registry) nodes) (calls : List SubscribeCall)
    {later : List SubOp} (keeps : Along subStep KeepsEnds (kernel.system, registry)
      (scriptOps around kernel.progress.draws calls ++ later)) :
    let after := calls.foldl (Kernel.subscribe around) kernel
    ∃ registry' nodes', Sound (after.system, registry') nodes' ∧
      Along subStep KeepsEnds (after.system, registry') later ∧
      ∀ cursor rest, Walking kernel.system nodes cursor rest →
        Walking after.system nodes' cursor rest := by
  induction calls generalizing kernel registry nodes with
  | nil => exact ⟨registry, nodes, sound, keeps, fun _ _ walking => walking⟩
  | cons call rest ih =>
      obtain ⟨middle, kept, walks⟩ := sound.subscribe_walking keeps.1
      obtain ⟨registry', nodes', last, others, through⟩ :=
        ih (kernel.subscribe around call) kept (keeps.2 _ rfl)
      exact ⟨registry', nodes', last, others, fun cursor nodes walking =>
        through cursor nodes (walks cursor nodes walking)⟩

theorem invoke_walking {Sdl : Type} (around : Surroundings Sdl) (event : OxEvent)
    (kernel : Kernel OxEventSystem) (sound : Sound (kernel.system, registry) nodes)
    (callback userData : Pointer) {later : List SubOp}
    (keeps : Along subStep KeepsEnds (kernel.system, registry)
      (scriptOps around kernel.progress.draws (around.script kernel.progress.calls) ++ later)) :
    let after := kernel.invoke around callback userData event
    ∃ registry' nodes', Sound (after.system, registry') nodes' ∧
      Along subStep KeepsEnds (after.system, registry') later ∧
      ∀ cursor rest, Walking kernel.system nodes cursor rest →
        Walking after.system nodes' cursor rest :=
  script_walking around { kernel with
    progress := { kernel.progress.note [.called callback userData event] with
      calls := kernel.progress.calls + 1 } } sound _ keeps

/-- A delivery whose walk ends comes to an end, if the callbacks return and their subscribe calls
fill no linked slot. -/
theorem deliverLoop_ends {Sdl : Type} (around : Surroundings Sdl) (event : OxEvent)
    {kernel : Kernel OxEventSystem} (sound : Sound (kernel.system, registry) nodes)
    {cursor : Option SubSlot} {rest : List SubSlot}
    (walking : Walking kernel.system nodes cursor rest) {fuel : Nat} (enough : rest.length ≤ fuel)
    (keeps : Along subStep KeepsEnds (kernel.system, registry)
      (callbackOps around fuel kernel.progress.draws kernel.progress.calls)) :
    (deliverLoop around event fuel kernel cursor).2 = none := by
  induction rest generalizing kernel registry nodes cursor fuel with
  | nil =>
      have stopped : cursor = none := walking.chain
      subst stopped
      cases fuel <;> rfl
  | cons sub rest ih =>
      have here : cursor = some sub := walking.chain.1
      subst here
      obtain ⟨fuel, rfl⟩ : ∃ less, fuel = less + 1 := ⟨fuel - 1, by
        rw [List.length_cons] at enough
        omega⟩
      simp only [deliverLoop]
      split
      case isTrue => rfl
      case isFalse =>
        obtain ⟨registry', nodes', kept, others, walks⟩ :=
          sound.invoke_walking around event kernel (kernel.system.items sub).callback
            (kernel.system.items sub).userData keeps
        rw [← invoke_draws around kernel _ _ event,
          ← invoke_calls around kernel _ _ event] at others
        exact ih kept (walks _ _ walking).next (Nat.le_of_succ_le_succ enough) others

end Sound

/-- Every walk over the topics comes to an end, the deliveries as long as their callbacks return
and fill no linked slot themselves. -/
structure WalksEnd (state : SubState) : Prop where
  ends : ∀ topic, Ends (links state.1.items) (state.1.topics topic)
  scans : ∀ topic id,
    popById state.1.items (state.1.topics topic) id ≠ .error .nonTermination
  deliveries : ∀ (Sdl : Type) (around : Surroundings Sdl) (event : OxEvent) (progress : Progress),
    Along subStep KeepsEnds state (callbackOps around subMax progress.draws progress.calls) →
      ∀ topic, (deliverLoop around event subMax ⟨state.1, progress⟩ (state.1.topics topic)).2 = none

theorem Sound.walksEnd {state : SubState} {nodes : Fin topicsCount → List SubSlot}
    (sound : Sound state nodes) : WalksEnd state := by
  have short (topic : Fin topicsCount) : (nodes topic).length ≤ subMax := by
    simpa using (sound.linked.chains topic).length_le
  refine ⟨fun topic => ⟨nodes topic, sound.linked.chains topic⟩, ?_, ?_⟩
  · intro topic id
    exact popByIdLoop_ends id (sound.linked.chains topic) (short topic) none
  · intro Sdl around event progress keeps topic
    have walking : Walking state.1 nodes (state.1.topics topic) (nodes topic) :=
      ⟨sound.linked.chains topic, Or.inr fun slot member => ⟨topic, member⟩⟩
    exact Sound.deliverLoop_ends around event sound walking (short topic) keeps

/-- In every run that spares the newest subscription of each topic, and in which every subscribe
fills a slot that no topic links to, no step faults and every walk comes to an end. -/
theorem walks_end (ops : List SubOp) (spares : Along subStep SparesNewest subFresh ops)
    (fills : Along subStep FillsUnlinked subFresh ops) :
    ∃ after, run subStep subFresh ops = some after ∧ WalksEnd after := by
  have keeps (state : SubState) (op : SubOp) (held : ∃ nodes, Sound state nodes)
      (guarded : KeepsEnds state op) :
      ∃ after, subStep state op = some after ∧ ∃ nodes, Sound after nodes := by
    obtain ⟨nodes, sound⟩ := held
    exact sound.step op guarded.1 guarded.2
  obtain ⟨after, ran, nodes, sound⟩ :=
    run_invariant _ keeps ⟨_, sound_fresh⟩ (spares.and fills)
  exact ⟨after, ran, sound.walksEnd⟩

def nextSlotClear (system : OxEventSystem) : Bool :=
  (List.finRange topicsCount).all fun topic =>
    (walk (links system.items) subMax (system.topics topic)).any fun nodes =>
      nodes.all fun slot => slot.val ≠ system.count

theorem nextSlotUnlinked_of_clear {system : OxEventSystem} (clear : nextSlotClear system = true) :
    NextSlotUnlinked system := by
  intro topic slot here visited
  rw [nextSlotClear, List.all_eq_true] at clear
  obtain ⟨nodes, walked, apart⟩ :=
    (Option.any_eq_true _ _).mp (clear topic (List.mem_finRange topic))
  rw [List.all_eq_true] at apart
  have member := ((chain_of_walk walked).visits_iff slot).mp visited
  simpa [here] using apart slot member

theorem walks_end_four :
    let ops : List SubOp :=
      [.subscribe 11 OxEventType.quit.topic 0x10 0, .subscribe 12 OxEventType.quit.topic 0x20 0,
        .subscribe 13 OxEventType.keyUp.topic 0x30 7, .unsubscribe 11]
    ∃ after, run subStep subFresh ops = some after ∧ WalksEnd after := by
  apply walks_end
  · decide
  · have clear : Along subStep (fun state _ => nextSlotClear state.1 = true) subFresh
        [.subscribe 11 OxEventType.quit.topic 0x10 0, .subscribe 12 OxEventType.quit.topic 0x20 0,
          .subscribe 13 OxEventType.keyUp.topic 0x30 7, .unsubscribe 11] := by decide
    refine clear.mono fun state op clear => ?_
    cases op with
    | subscribe => exact nextSlotUnlinked_of_clear clear
    | unsubscribe => trivial

/-- Unsubscribing the oldest of three subscriptions moves the newest, whose old slot the next
subscription then fills and links to itself. -/
theorem subscribe_after_unsubscribe_endless :
    let ops : List SubOp :=
      [.subscribe 11 OxEventType.quit.topic 0x10 0, .subscribe 12 OxEventType.quit.topic 0x20 0,
        .subscribe 13 OxEventType.quit.topic 0x30 0, .unsubscribe 11,
        .subscribe 14 OxEventType.quit.topic 0x40 0]
    Along subStep SparesNewest subFresh ops ∧ ∃ after, run subStep subFresh ops = some after ∧
      ¬Ends (links after.1.items) (after.1.topics OxEventType.quit.topic) := by
  intro ops
  let slot : SubSlot := ⟨2, by decide⟩
  have looped : (run subStep subFresh ops).map (fun after =>
      (after.1.topics OxEventType.quit.topic, links after.1.items slot)) =
        some (some slot, some slot) := by
    decide
  obtain ⟨after, ran, ends⟩ := Option.map_eq_some_iff.mp looped
  obtain ⟨first, second⟩ := Prod.mk.inj ends
  refine ⟨by decide, after, ran, ?_⟩
  rw [first]
  exact not_ends_of_loop second

end YakUnshorn
