import YakUnshorn.SubscribeRuns
import Mathlib.Data.List.TakeWhile

/-!
What `oxi_dispatch_next` does with subscriptions whose callback is null, which
`oxi_subscribe_events` accepts.
-/

namespace YakUnshorn

open LinkedChain

def Entry.callable (entry : Entry) : Bool := entry.callback ≠ 0

section Walking

variable {Sdl : Type} (around : Surroundings Sdl)

theorem subscribes_callsSeen (kernel : Kernel OxEventSystem) (calls : List SubscribeCall) :
    (calls.foldl (Kernel.subscribe around) kernel).progress.callsSeen =
      kernel.progress.callsSeen := by
  induction calls generalizing kernel with
  | nil => rfl
  | cons call rest ih =>
      rw [List.foldl_cons, ih]
      simp [Kernel.subscribe, Progress.callsSeen, Progress.note, Action.call]

theorem invoke_callsSeen (kernel : Kernel OxEventSystem) (callback userData : Pointer)
    (event : OxEvent) :
    (kernel.invoke around callback userData event).progress.callsSeen =
      kernel.progress.callsSeen ++ [(callback, userData, event)] := by
  rw [Kernel.invoke, subscribes_callsSeen]
  simp [Progress.callsSeen, Progress.note, Action.call]

theorem deliverLoop_calls (event : OxEvent) {entries : List Entry}
    (kernel : Kernel OxEventSystem) {cursor : Option SubSlot}
    (remaining : Remaining kernel.system cursor entries) {fuel : Nat}
    (enough : entries.length ≤ fuel) :
    ∃ after, deliverLoop around event fuel kernel cursor = (after, none) ∧
      after.progress.callsSeen =
        kernel.progress.callsSeen ++ (entries.takeWhile Entry.callable).map (Entry.call event) := by
  induction entries generalizing kernel cursor fuel with
  | nil =>
      rw [remaining.nil]
      exact ⟨kernel, by cases fuel <;> rfl, by simp⟩
  | cons entry rest ih =>
      obtain ⟨sub, rfl, rfl, -⟩ := remaining.uncons
      obtain ⟨fuel, rfl⟩ : ∃ less, fuel = less + 1 := ⟨fuel - 1, by
        rw [List.length_cons] at enough
        omega⟩
      by_cases null : (kernel.system.items sub).callback = 0
      · refine ⟨kernel, by simp only [deliverLoop, null, ↓reduceIte], ?_⟩
        simp [Entry.callable, OxSubscription.entry, null]
      · obtain ⟨same, sameSub, -, later⟩ := (remaining.invoke around
          (kernel.system.items sub).callback (kernel.system.items sub).userData event).uncons
        rw [← Option.some.inj sameSub] at later
        rw [List.length_cons] at enough
        obtain ⟨after, delivered, calls⟩ := ih _ later (Nat.le_of_succ_le_succ enough)
        refine ⟨after, by simp only [deliverLoop, null, ↓reduceIte]; exact delivered, ?_⟩
        rw [calls, invoke_callsSeen]
        simp [Entry.callable, Entry.call, OxSubscription.entry, null]

end Walking

section Histories

variable {system : OxEventSystem} {draws : List Draw}

theorem subscribeAll_beyond (full : system.count = subMax)
    (free : ∀ draw ∈ draws, system.IdFree draw.id) :
    (subscribeAll system draws).subscriptionSet = system.subscriptionSet ∧
      ∀ topic, (subscribeAll system draws).topics topic =
        if ∃ draw ∈ draws, draw.type = topic then none else system.topics topic := by
  induction draws using List.reverseRecOn with
  | nil => exact ⟨rfl, fun topic => by simp⟩
  | append_singleton draws draw ih =>
      obtain ⟨set, topics⟩ := ih fun earlier member => free earlier (by simp [member])
      have fullNow : (subscribeAll system draws).count = subMax := by
        rw [OxEventSystem.count, set]
        exact full
      have freeNow : (subscribeAll system draws).IdFree draw.id := by
        rw [← slotOf_none_iff, slotOf_congr set, slotOf_none_iff]
        exact free draw (by simp)
      rw [subscribeAll_concat, subscribeDrawn_full freeNow fullNow]
      refine ⟨set, fun topic => ?_⟩
      simp only [Function.update_apply]
      split
      case isTrue same => simp [same]
      case isFalse other => simp [topics, Ne.symm other]

/-- A call for the topic found the store full. -/
def Overrun (draws : List Draw) (topic : Fin topicsCount) : Prop :=
  ∃ draw ∈ draws.drop subMax, draw.type = topic

instance (draws : List Draw) (topic : Fin topicsCount) : Decidable (Overrun draws topic) :=
  inferInstanceAs (Decidable (∃ draw ∈ draws.drop subMax, draw.type = topic))

theorem madeFor_take {topic : Fin topicsCount} (kept : ¬Overrun draws topic) :
    madeFor (draws.take subMax) topic = madeFor draws topic := by
  have none : (draws.drop subMax).filter (fun draw => draw.type = topic) = [] := by
    rw [List.filter_eq_nil_iff]
    intro draw member same
    exact kept ⟨draw, member, of_decide_eq_true same⟩
  conv_rhs => rw [madeFor, ← List.take_append_drop subMax draws, List.filter_append, none,
    List.append_nil]
  rfl

theorem Remaining.congr {before after : OxEventSystem} {cursor : Option SubSlot}
    {entries : List Entry} (remaining : Remaining before cursor entries)
    (same : after.subscriptionSet = before.subscriptionSet) : Remaining after cursor entries := by
  rw [Remaining, OxEventSystem.items, OxEventSystem.count, same]
  exact remaining

theorem subscribeAll_distinct (distinct : (draws.map Draw.id).Nodup) (topic : Fin topicsCount) :
    let system := subscribeAll oxiMakeEventSystem draws
    Remaining system (system.topics topic)
      (if Overrun draws topic then [] else madeFor draws topic) := by
  intro system
  by_cases within : draws.length ≤ subMax
  · have kept : ¬Overrun draws topic := by simp [Overrun, List.drop_eq_nil_of_le within]
    rw [if_neg kept]
    exact (subscribeAll_within distinct within).2 topic
  · have length : (draws.take subMax).length = subMax := by
      rw [List.length_take]
      omega
    have apart : ((draws.take subMax ++ draws.drop subMax).map Draw.id).Nodup := by
      rwa [List.take_append_drop]
    rw [List.map_append, List.nodup_append] at apart
    obtain ⟨count, lists⟩ := subscribeAll_within apart.1 (Nat.le_of_eq length)
    have free : ∀ draw ∈ draws.drop subMax,
        (subscribeAll oxiMakeEventSystem (draws.take subMax)).IdFree draw.id := by
      intro draw member
      apply subscribeAll_fresh_idFree
      exact fun again => apart.2.2 _ again _ (List.mem_map_of_mem member) rfl
    obtain ⟨set, topics⟩ := subscribeAll_beyond (count.trans length) free
    rw [← subscribeAll_append, List.take_append_drop] at set topics
    have turned : system.topics topic = if Overrun draws topic then none else _ := topics topic
    by_cases overrun : Overrun draws topic
    · rw [turned, if_pos overrun, if_pos overrun]
      exact ⟨[], rfl, by simp, rfl⟩
    · rw [turned, if_neg overrun, if_neg overrun, ← madeFor_take overrun]
      exact (lists topic).congr set

end Histories

theorem takeWhile_eq_filter_iff {α : Type*} (keep : α → Bool) (list : List α) :
    list.takeWhile keep = list.filter keep ↔ ∀ item ∈ list.dropWhile keep, keep item = false := by
  induction list with
  | nil => simp
  | cons item rest ih =>
      cases kept : keep item with
      | true => simpa [kept] using ih
      | false =>
          simp only [List.takeWhile_cons, List.filter_cons, List.dropWhile_cons, kept,
            Bool.false_eq_true, ↓reduceIte]
          rw [eq_comm, List.filter_eq_nil_iff]
          simp [kept]

theorem takeWhile_prefix_filter {α : Type*} (keep : α → Bool) (list : List α) :
    list.takeWhile keep <+: list.filter keep := by
  have kept : (list.takeWhile keep).filter keep = list.takeWhile keep :=
    List.filter_eq_self.mpr fun item member => List.mem_takeWhile_imp member
  rw [← kept]
  exact (List.takeWhile_prefix keep).filter keep

/-- No subscription with a callback stands behind one without, or none has one at all if a call for
the topic found the store full. -/
def NothingHidden (draws : List Draw) (topic : Fin topicsCount) : Prop :=
  if Overrun draws topic then ∀ entry ∈ madeFor draws topic, entry.callable = false
  else ∀ entry ∈ (madeFor draws topic).dropWhile Entry.callable, entry.callable = false

theorem nothingHidden_iff (draws : List Draw) (topic : Fin topicsCount) :
    NothingHidden draws topic ↔
      (if Overrun draws topic then [] else madeFor draws topic).takeWhile Entry.callable =
        (madeFor draws topic).filter Entry.callable := by
  rw [NothingHidden]
  split
  · rw [List.takeWhile_nil, eq_comm, List.filter_eq_nil_iff]
    simp
  · rw [takeWhile_eq_filter_iff]

theorem reached_prefix_callable (draws : List Draw) (topic : Fin topicsCount) :
    (if Overrun draws topic then [] else madeFor draws topic).takeWhile Entry.callable <+:
      (madeFor draws topic).filter Entry.callable := by
  split
  · exact List.nil_prefix
  · exact takeWhile_prefix_filter _ _

section Dispatching

variable {Sdl : Type} {around : Surroundings Sdl} {fuel : Nat}

/-- The dispatch returns, and calls the subscriptions of the topic that have a callback, newest
first and each once. -/
def SkipsOnlyNull (around : Surroundings Sdl) (fuel : Nat) (uninitialised : OxEvent)
    (kernel : Kernel OxEventSystem) (event : OxEvent) (entries : List Entry) : Prop :=
  ∃ after, oxiDispatchNext around fuel uninitialised kernel = (after, none) ∧
    after.progress.callsSeen =
      kernel.progress.callsSeen ++ (entries.filter Entry.callable).map (Entry.call event)

theorem oxiDispatchNext_calls (uninitialised : OxEvent) {kernel : Kernel OxEventSystem}
    {event : OxEvent} {skipped : List Action} {queue : List WaitAnswer}
    (awaited : awaitEvent around.translator uninitialised kernel.progress.queue =
      (skipped, some (some event), queue))
    {topic : Fin topicsCount} (here : topicIndex event.type = some topic) {entries : List Entry}
    (remaining : Remaining kernel.system (kernel.system.topics topic) entries)
    (enough : entries.length ≤ fuel) :
    ∃ after, oxiDispatchNext around fuel uninitialised kernel = (after, none) ∧
      after.progress.callsSeen =
        kernel.progress.callsSeen ++ (entries.takeWhile Entry.callable).map (Entry.call event) := by
  have skips : skipped.filterMap Action.call = [] := by
    have shape := awaitEvent_eq around.translator uninitialised kernel.progress.queue
    rw [awaited] at shape
    rw [(Prod.mk.inj shape).1, List.filterMap_map]
    simp [Function.comp_def, Action.call]
  obtain ⟨after, delivered, calls⟩ := deliverLoop_calls around event
    { kernel with progress := { kernel.progress.note skipped with queue } } remaining enough
  refine ⟨{ after with progress := after.progress.note [.returned true] }, ?_, ?_⟩
  · simp only [oxiDispatchNext, awaited, deliverEvent, here, delivered]
  · simp only [Progress.callsSeen, Progress.note, List.filterMap_append, skips] at calls ⊢
    rw [calls]
    simp [Action.call]

theorem Remaining.length_le {system : OxEventSystem} {cursor : Option SubSlot}
    {entries : List Entry} (remaining : Remaining system cursor entries) :
    entries.length ≤ subMax := by
  obtain ⟨nodes, chain, -, rfl⟩ := remaining
  rw [List.length_map]
  simpa using chain.length_le

/-- After any run of subscribe calls with distinct ids, a dispatch calls all subscriptions of the
topic that have a callback exactly when none of them is hidden. -/
theorem null_callbacks_skipped_iff {draws : List Draw} (distinct : (draws.map Draw.id).Nodup)
    (around : Surroundings Sdl) (enough : subMax ≤ fuel) (uninitialised : OxEvent)
    {kernel : Kernel OxEventSystem}
    (reached : kernel.system = subscribeAll oxiMakeEventSystem draws)
    {event : OxEvent} {skipped : List Action} {queue : List WaitAnswer}
    (awaited : awaitEvent around.translator uninitialised kernel.progress.queue =
      (skipped, some (some event), queue))
    {topic : Fin topicsCount} (here : topicIndex event.type = some topic) :
    SkipsOnlyNull around fuel uninitialised kernel event (madeFor draws topic) ↔
      NothingHidden draws topic := by
  have remaining := subscribeAll_distinct distinct topic
  simp only [← reached] at remaining
  obtain ⟨after, dispatched, calls⟩ := oxiDispatchNext_calls uninitialised awaited here remaining
    (Nat.le_trans remaining.length_le enough)
  rw [nothingHidden_iff]
  constructor
  · rintro ⟨after', dispatched', expected⟩
    have same : after = after' := congrArg Prod.fst (dispatched.symm.trans dispatched')
    rw [← same, calls] at expected
    have lengths := congrArg List.length (List.append_cancel_left expected)
    rw [List.length_map, List.length_map] at lengths
    exact (reached_prefix_callable draws topic).eq_of_length lengths
  · intro all
    exact ⟨after, dispatched, by rw [calls, all]⟩

end Dispatching

def quietSurroundings : Surroundings Unit where
  rand draw := draw + 1
  script _ := []
  translator := programStart ()

def quitWaiting (draws : List Draw) : Kernel OxEventSystem :=
  .start (subscribeAll oxiMakeEventSystem draws)
    [.event ⟨sdlEventQuit, 5, ⟨0, 0, 0, false⟩, ⟨0, 0, 0⟩⟩ 1]

def quitEvent : OxEvent := ⟨OxEventType.quit.code, 0, 5, ⟨0, 0, 0, false⟩, ⟨0, 0, 0⟩⟩

theorem null_callbacks_skipped_iff_oldest :
    let draws : List Draw := [⟨⟨OxEventType.quit.topic, 0, 0⟩, 11⟩,
      ⟨⟨OxEventType.quit.topic, 0x10, 7⟩, 12⟩]
    SkipsOnlyNull quietSurroundings subMax quitEvent (quitWaiting draws) quitEvent
      (madeFor draws OxEventType.quit.topic) ↔ NothingHidden draws OxEventType.quit.topic :=
  null_callbacks_skipped_iff (by decide) quietSurroundings (Nat.le_refl _) quitEvent rfl rfl rfl

theorem null_callback_hides :
    let draws : List Draw := [⟨⟨OxEventType.quit.topic, 0x10, 7⟩, 11⟩,
      ⟨⟨OxEventType.quit.topic, 0, 0⟩, 12⟩]
    (draws.map Draw.id).Nodup ∧
      ¬SkipsOnlyNull quietSurroundings subMax quitEvent (quitWaiting draws) quitEvent
        (madeFor draws OxEventType.quit.topic) := by
  refine ⟨by decide, ?_⟩
  rintro ⟨after, dispatched, calls⟩
  have none : (oxiDispatchNext quietSurroundings subMax quitEvent
      (quitWaiting [⟨⟨OxEventType.quit.topic, 0x10, 7⟩, 11⟩,
        ⟨⟨OxEventType.quit.topic, 0, 0⟩, 12⟩])).1.progress.callsSeen = [] := by decide
  rw [dispatched] at none
  rw [none] at calls
  exact absurd calls (by decide)

end YakUnshorn
