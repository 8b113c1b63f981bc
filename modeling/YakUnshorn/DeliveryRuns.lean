import YakUnshorn.Delivery
import YakUnshorn.SubscriptionRuns

/-!
Runs of dispatches and subscriptions against what they are for: each event that can
be translated goes to the subscriptions its topic holds at that moment, and to no others.
-/

namespace YakUnshorn

open LinkedChain StepRuns

section Purpose

variable {Sdl : Type}

def WaitAnswer.translated (translator : Translator Sdl) (uninitialised : OxEvent) :
    WaitAnswer → Option OxEvent
  | .event sdlEvent now => oxiFromSdlEvent translator now sdlEvent uninitialised
  | .failure => none

def WaitAnswer.rejected (translator : Translator Sdl) (uninitialised : OxEvent) :
    WaitAnswer → Bool
  | .event sdlEvent now => (oxiFromSdlEvent translator now sdlEvent uninitialised).isNone
  | .failure => false

def Entry.call (event : OxEvent) (entry : Entry) : CallbackCall :=
  (entry.callback, entry.userData, event)

def Registry.holds (registry : Registry) (type : UInt32) : List Entry :=
  (topicIndex type).elim [] registry.live

/-- What a subscribe call is for: the new subscription is the newest of its topic. -/
def attach (around : Surroundings Sdl) (kernel : Kernel Registry) (call : SubscribeCall) :
    Kernel Registry :=
  let id := around.rand kernel.progress.draws
  { system := kernel.system.subscribe call.type ⟨id, call.callback, call.userData⟩
    progress := { kernel.progress with
      draws := kernel.progress.draws + 1
      trace := kernel.progress.trace ++ [.subscribed id] } }

def callEntry (around : Surroundings Sdl) (event : OxEvent) (kernel : Kernel Registry)
    (entry : Entry) : Kernel Registry :=
  let called : Kernel Registry :=
    { kernel with
      progress := { kernel.progress with
        calls := kernel.progress.calls + 1
        trace := kernel.progress.trace ++ [.called entry.callback entry.userData event] } }
  (around.script kernel.progress.calls).foldl (attach around) called

def callEntries (around : Surroundings Sdl) (event : OxEvent) (entries : List Entry)
    (kernel : Kernel Registry) : Kernel Registry :=
  entries.foldl (callEntry around event) kernel

/-- What dispatching is for. -/
def dispatchOnce (around : Surroundings Sdl) (uninitialised : OxEvent)
    (kernel : Kernel Registry) : Kernel Registry × Option Stop :=
  let rejected := WaitAnswer.rejected around.translator uninitialised
  let queue := kernel.progress.queue
  let kernel : Kernel Registry :=
    { kernel with
      progress := { kernel.progress with
        queue := (queue.dropWhile rejected).tail
        trace := kernel.progress.trace ++ (queue.takeWhile rejected).map Action.skipped } }
  let returns (kernel : Kernel Registry) (result : Bool) : Kernel Registry :=
    { kernel with
      progress := { kernel.progress with
        trace := kernel.progress.trace ++ [.returned result] } }
  match (queue.dropWhile rejected).head? with
  | none => (kernel, some .waiting)
  | some answer =>
      match answer.translated around.translator uninitialised with
      | none => (returns kernel false, none)
      | some event =>
          (returns (callEntries around event (kernel.system.holds event.type) kernel) true, none)

def purposeStep (around : Surroundings Sdl) (kernel : Kernel Registry) :
    DispatchOp → Kernel Registry × Option Stop
  | .subscribe call => (attach around kernel call, none)
  | .dispatch uninitialised => dispatchOnce around uninitialised kernel

def nextEvent (translator : Translator Sdl) (uninitialised : OxEvent) (queue : List WaitAnswer) :
    Option OxEvent :=
  (queue.dropWhile (WaitAnswer.rejected translator uninitialised)).head?.bind
    (WaitAnswer.translated translator uninitialised)

/-- A dispatch that begins while the topics hold these subscriptions passes over the events that
are not translated and takes what comes next, in the order of the queue. If that is an event, each
subscription that its topic holds is called once, newest first, with the event and with its own
user data, and no other is called. -/
structure Delivers (around : Surroundings Sdl) (uninitialised : OxEvent) (registry : Registry)
    (before after : Progress) : Prop where
  skipped : after.skipsSeen = before.skipsSeen ++
    before.queue.takeWhile (WaitAnswer.rejected around.translator uninitialised)
  queue : after.queue =
    (before.queue.dropWhile (WaitAnswer.rejected around.translator uninitialised)).tail
  called : after.callsSeen = before.callsSeen ++
    (nextEvent around.translator uninitialised before.queue).elim [] fun event =>
      (registry.holds event.type).map (Entry.call event)

theorem attaches_seen (around : Surroundings Sdl) (kernel : Kernel Registry)
    (calls : List SubscribeCall) :
    let after := (calls.foldl (attach around) kernel).progress
    after.skipsSeen = kernel.progress.skipsSeen ∧ after.queue = kernel.progress.queue ∧
      after.callsSeen = kernel.progress.callsSeen := by
  induction calls generalizing kernel with
  | nil => exact ⟨rfl, rfl, rfl⟩
  | cons call rest ih =>
      obtain ⟨skipped, queue, called⟩ := ih (attach around kernel call)
      refine ⟨skipped.trans ?_, queue, called.trans ?_⟩
      · simp [attach, Progress.skipsSeen, Action.skip]
      · simp [attach, Progress.callsSeen, Action.call]

theorem callEntries_seen (around : Surroundings Sdl) (event : OxEvent) (entries : List Entry)
    (kernel : Kernel Registry) :
    let after := (callEntries around event entries kernel).progress
    after.skipsSeen = kernel.progress.skipsSeen ∧ after.queue = kernel.progress.queue ∧
      after.callsSeen = kernel.progress.callsSeen ++ entries.map (Entry.call event) := by
  induction entries generalizing kernel with
  | nil => exact ⟨rfl, rfl, by simp [callEntries]⟩
  | cons entry rest ih =>
      obtain ⟨skipped, queue, called⟩ := ih (callEntry around event kernel entry)
      obtain ⟨skippedHere, queueHere, calledHere⟩ :=
        attaches_seen around { kernel with
          progress := { kernel.progress with
            calls := kernel.progress.calls + 1
            trace := kernel.progress.trace ++ [.called entry.callback entry.userData event] } }
          (around.script kernel.progress.calls)
      refine ⟨skipped.trans (skippedHere.trans ?_), queue.trans queueHere,
        called.trans ?_⟩
      · simp [Progress.skipsSeen, Action.skip]
      · rw [callEntry, calledHere]
        simp [Progress.callsSeen, Action.call, Entry.call]

theorem dispatchOnce_delivers (around : Surroundings Sdl) (uninitialised : OxEvent)
    (kernel : Kernel Registry) :
    Delivers around uninitialised kernel.system kernel.progress
      (dispatchOnce around uninitialised kernel).1.progress := by
  have skips (answers : List WaitAnswer) :
      (answers.map Action.skipped).filterMap Action.skip = answers ∧
        (answers.map Action.skipped).filterMap Action.call = [] := by
    induction answers with
    | nil => exact ⟨rfl, rfl⟩
    | cons answer rest ih => exact ⟨congrArg (answer :: ·) ih.1, ih.2⟩
  simp only [dispatchOnce]
  split
  next waits =>
    refine ⟨?_, rfl, ?_⟩
    · simp [Progress.skipsSeen, skips]
    · simp [Progress.callsSeen, skips, nextEvent, waits]
  next answer answered =>
    split
    next failed =>
      refine ⟨?_, rfl, ?_⟩
      · simp [Progress.skipsSeen, skips, Action.skip]
      · simp [Progress.callsSeen, skips, nextEvent, answered, failed, Action.call]
    next event translated =>
      obtain ⟨skipped, queue, called⟩ := callEntries_seen around event
        (kernel.system.holds event.type)
        { kernel with
          progress := { kernel.progress with
            queue := (kernel.progress.queue.dropWhile
              (WaitAnswer.rejected around.translator uninitialised)).tail
            trace := kernel.progress.trace ++ (kernel.progress.queue.takeWhile
              (WaitAnswer.rejected around.translator uninitialised)).map Action.skipped } }
      simp only [Progress.skipsSeen, Progress.callsSeen, List.filterMap_append, skips,
        List.append_nil] at skipped called
      refine ⟨?_, queue, ?_⟩
      · simp [Progress.skipsSeen, skipped, Action.skip]
      · simp [Progress.callsSeen, called, nextEvent, answered, translated, Action.call]

theorem awaitEvent_eq (translator : Translator Sdl) (uninitialised : OxEvent)
    (queue : List WaitAnswer) :
    let rejected := WaitAnswer.rejected translator uninitialised
    awaitEvent translator uninitialised queue =
      ((queue.takeWhile rejected).map Action.skipped,
        (queue.dropWhile rejected).head?.map (WaitAnswer.translated translator uninitialised),
        (queue.dropWhile rejected).tail) := by
  intro rejected
  induction queue with
  | nil => rfl
  | cons answer rest ih =>
      cases answer with
      | failure => simp [awaitEvent, rejected, WaitAnswer.rejected, WaitAnswer.translated]
      | event sdlEvent now =>
          cases translated : oxiFromSdlEvent translator now sdlEvent uninitialised with
          | some event =>
              simp [awaitEvent, rejected, WaitAnswer.rejected, WaitAnswer.translated, translated]
          | none =>
              have passed : rejected (.event sdlEvent now) = true := by
                simp [rejected, WaitAnswer.rejected, translated]
              simp only [awaitEvent, translated, ih, List.takeWhile_cons, List.dropWhile_cons,
                passed, ↓reduceIte, List.map_cons]

end Purpose

/-- What the surroundings are assumed to supply: fresh ids that are not 0, for as many
subscriptions as the store has room for, and callbacks that are not null. -/
structure Supplied {Sdl : Type} (around : Surroundings Sdl) : Prop where
  distinct : ∀ i j, i < subMax → j < subMax → around.rand i = around.rand j → i = j
  ranged : ∀ i < subMax, 0 < around.rand i ∧ around.rand i ≤ randMax
  callable : ∀ k, ∀ call ∈ around.script k, call.callback ≠ 0

def DispatchOp.Callable : DispatchOp → Prop
  | .subscribe call => call.callback ≠ 0
  | .dispatch _ => True

/-- From the cursor on, a walk passes the entries, all of them in the part of the store that is
in use. -/
def Remaining (system : OxEventSystem) (cursor : Option SubSlot) (entries : List Entry) : Prop :=
  ∃ nodes, Chain (links system.items) cursor nodes ∧ (∀ slot ∈ nodes, slot.val < system.count) ∧
    nodes.map (fun slot => (system.items slot).entry) = entries

theorem Remaining.nil {system : OxEventSystem} {cursor : Option SubSlot}
    (remaining : Remaining system cursor []) : cursor = none := by
  obtain ⟨nodes, chain, -, listed⟩ := remaining
  rw [List.map_eq_nil_iff] at listed
  subst listed
  exact chain

theorem Remaining.uncons {system : OxEventSystem} {cursor : Option SubSlot} {entry : Entry}
    {rest : List Entry} (remaining : Remaining system cursor (entry :: rest)) :
    ∃ sub, cursor = some sub ∧ (system.items sub).entry = entry ∧
      Remaining system (system.items sub).next rest := by
  obtain ⟨nodes, chain, inUse, listed⟩ := remaining
  obtain ⟨sub, others, rfl, here, later⟩ := List.map_eq_cons_iff.mp listed
  exact ⟨sub, chain.1, here, others, chain.2, fun slot member => inUse slot (by simp [member]),
    later⟩

/-- Whatever ids they draw, subscribe calls keep the walk that is under way. -/
theorem Remaining.subscribe {system : OxEventSystem} {cursor : Option SubSlot}
    {entries : List Entry} (remaining : Remaining system cursor entries) (id : Int)
    (type : Fin topicsCount) (callback userData : Pointer) :
    Remaining (oxiSubscribeEvents system id type callback userData).1 cursor entries := by
  obtain ⟨nodes, chain, inUse, rfl⟩ := remaining
  have kept (slot : SubSlot) (member : slot ∈ nodes) :=
    oxiSubscribeEvents_stored type callback userData system id (inUse slot member)
  refine ⟨nodes, chain.congr fun slot member => ?_, fun slot member => ?_, ?_⟩
  · rw [links, kept slot member, links]
  · exact Nat.lt_of_lt_of_le (inUse slot member) (count_le_oxiSubscribeEvents ..)
  · exact List.map_congr_left fun slot member => by rw [kept slot member]

theorem Remaining.subscribes {Sdl : Type} (around : Surroundings Sdl)
    {kernel : Kernel OxEventSystem} {cursor : Option SubSlot} {entries : List Entry}
    (remaining : Remaining kernel.system cursor entries) (calls : List SubscribeCall) :
    Remaining (calls.foldl (Kernel.subscribe around) kernel).system cursor
      entries := by
  induction calls generalizing kernel with
  | nil => exact remaining
  | cons call rest ih => exact ih (remaining.subscribe _ call.type call.callback call.userData)

theorem Remaining.invoke {Sdl : Type} (around : Surroundings Sdl) {kernel : Kernel OxEventSystem}
    {cursor : Option SubSlot} {entries : List Entry}
    (remaining : Remaining kernel.system cursor entries) (callback userData : Pointer)
    (event : OxEvent) :
    Remaining (kernel.invoke around callback userData event).system cursor
      entries := by
  rw [Kernel.invoke]
  apply Remaining.subscribes
  exact remaining

/-- The event system mirrors the registry: the chains hold what is live, no slot was ever given
back, and all else is the same. -/
structure Mirrors {Sdl : Type} (around : Surroundings Sdl) (code : Kernel OxEventSystem)
    (purpose : Kernel Registry) (nodes : Fin topicsCount → List SubSlot) : Prop where
  synced : Synced (code.system, purpose.system) nodes
  filled : ∀ topic, ∀ slot ∈ nodes topic, slot.val < code.system.count
  callable : ∀ topic, ∀ entry ∈ purpose.system.live topic, entry.callback ≠ 0
  drawn : ∀ id ∈ purpose.system.used, ∃ i < code.progress.draws, around.rand i = id
  counted : code.system.count ≤ code.progress.draws
  progress : code.progress = purpose.progress

namespace Mirrors

variable {Sdl : Type} {around : Surroundings Sdl} {code : Kernel OxEventSystem}
  {purpose : Kernel Registry} {nodes : Fin topicsCount → List SubSlot}

theorem start (queue : List WaitAnswer) :
    Mirrors around (Kernel.start oxiMakeEventSystem queue) (Kernel.start Registry.empty queue)
      fun _ => [] where
  synced := synced_fresh
  filled _ _ member := absurd member List.not_mem_nil
  callable _ _ member := absurd member List.not_mem_nil
  drawn _ member := absurd member List.not_mem_nil
  counted := Nat.le_refl 0
  progress := rfl

theorem remaining (mirrors : Mirrors around code purpose nodes) (topic : Fin topicsCount) :
    Remaining code.system (code.system.topics topic) (purpose.system.live topic) :=
  ⟨nodes topic, mirrors.synced.linked.chains topic, mirrors.filled topic,
    mirrors.synced.presented topic⟩

theorem fresh (mirrors : Mirrors around code purpose nodes) (supplied : Supplied around)
    (room : code.progress.draws < subMax) :
    around.rand code.progress.draws ∉ purpose.system.used := by
  intro old
  obtain ⟨i, earlier, same⟩ := mirrors.drawn _ old
  have := supplied.distinct i _ (by omega) room same
  omega

theorem subscribe (mirrors : Mirrors around code purpose nodes) (supplied : Supplied around)
    {call : SubscribeCall} (callback : call.callback ≠ 0)
    (room : code.progress.draws < subMax) :
    ∃ nodes, Mirrors around (code.subscribe around call)
      (attach around purpose call) nodes := by
  have space : code.system.count < subMax := Nat.lt_of_le_of_lt mirrors.counted room
  have fresh := mirrors.fresh supplied room
  obtain ⟨positive, upper⟩ := supplied.ranged _ room
  have unlinked (topic : Fin topicsCount) : ⟨code.system.count, space⟩ ∉ nodes topic :=
    fun inside => absurd (mirrors.filled topic _ inside) (Nat.lt_irrefl _)
  have synced := mirrors.synced.subscribe call.type call.callback call.userData
    (Int.le_of_lt positive) upper fresh space unlinked
  have returned := oxiSubscribeEvents_room call.type call.callback call.userData
    (mirrors.synced.idFree fresh) space
  have count : (code.subscribe around call).system.count =
      code.system.count + 1 := by
    rw [Kernel.subscribe_system, returned]
  refine ⟨Function.update nodes call.type (⟨code.system.count, space⟩ :: nodes call.type),
    ?_, ?_, ?_, ?_, ?_, ?_⟩
  · rw [Kernel.subscribe_system, attach, ← mirrors.progress]
    exact synced
  · intro topic slot member
    rw [count]
    rcases mem_push member with ⟨rfl, -⟩ | old
    · exact Nat.lt_succ_self _
    · exact Nat.lt_succ_of_lt (mirrors.filled topic slot old)
  · intro topic entry member
    rw [attach] at member
    rcases mem_push member with ⟨rfl, -⟩ | old
    · exact callback
    · exact mirrors.callable _ entry old
  · intro id member
    rw [attach, ← mirrors.progress] at member
    rw [Kernel.subscribe_draws]
    rcases List.mem_cons.mp member with new | old
    · exact ⟨code.progress.draws, Nat.lt_succ_self _, new.symm⟩
    · obtain ⟨i, earlier, same⟩ := mirrors.drawn id old
      exact ⟨i, by omega, same⟩
  · rw [count, Kernel.subscribe_draws]
    exact Nat.succ_le_succ mirrors.counted
  · simp only [Kernel.subscribe, ← mirrors.progress, returned, attach, Progress.note]

theorem subscribes (mirrors : Mirrors around code purpose nodes) (supplied : Supplied around)
    (calls : List SubscribeCall) (callable : ∀ call ∈ calls, call.callback ≠ 0)
    (room : code.progress.draws + calls.length ≤ subMax) :
    ∃ nodes, Mirrors around (calls.foldl (Kernel.subscribe around) code)
      (calls.foldl (attach around) purpose) nodes := by
  induction calls generalizing code purpose nodes with
  | nil => exact ⟨nodes, mirrors⟩
  | cons call rest ih =>
      rw [List.length_cons] at room
      obtain ⟨middle, mirrored⟩ := mirrors.subscribe supplied (callable call (by simp)) (by omega)
      exact ih mirrored (fun later member => callable later (by simp [member]))
        (by rw [Kernel.subscribe_draws]; omega)

theorem withProgress (mirrors : Mirrors around code purpose nodes) (progress : Progress)
    (draws : progress.draws = code.progress.draws) :
    Mirrors around { code with progress } { purpose with progress } nodes where
  synced := mirrors.synced
  filled := mirrors.filled
  callable := mirrors.callable
  drawn := by simpa only [draws] using mirrors.drawn
  counted := by simpa only [draws] using mirrors.counted
  progress := rfl

theorem invoke (mirrors : Mirrors around code purpose nodes) (supplied : Supplied around)
    (entry : Entry) (event : OxEvent)
    (room : (code.invoke around entry.callback entry.userData event).progress.draws ≤ subMax) :
    ∃ nodes, Mirrors around (code.invoke around entry.callback entry.userData event)
      (callEntry around event purpose entry) nodes := by
  rw [invoke_draws] at room
  have called := mirrors.withProgress
    { code.progress.note [.called entry.callback entry.userData event] with
      calls := code.progress.calls + 1 } rfl
  have made := called.subscribes supplied (around.script code.progress.calls)
    (supplied.callable _) room
  simp only [Kernel.invoke, callEntry, ← mirrors.progress]
  exact made

theorem deliver (mirrors : Mirrors around code purpose nodes) (supplied : Supplied around)
    (event : OxEvent) {fuel : Nat} {cursor : Option SubSlot} {entries : List Entry}
    (remaining : Remaining code.system cursor entries)
    (callable : ∀ entry ∈ entries, entry.callback ≠ 0) (enough : entries.length ≤ fuel)
    (room : (deliverLoop around event fuel code cursor).1.progress.draws ≤ subMax) :
    ∃ after, deliverLoop around event fuel code cursor = (after, none) ∧
      ∃ nodes, Mirrors around after (callEntries around event entries purpose) nodes := by
  induction entries generalizing fuel cursor code purpose nodes with
  | nil =>
      rw [remaining.nil]
      exact ⟨code, by cases fuel <;> rfl, nodes, mirrors⟩
  | cons entry rest ih =>
      obtain ⟨sub, rfl, rfl, -⟩ := remaining.uncons
      obtain ⟨fuel, rfl⟩ : ∃ less, fuel = less + 1 := ⟨fuel - 1, by
        rw [List.length_cons] at enough
        omega⟩
      have callback : (code.system.items sub).callback ≠ 0 := callable _ List.mem_cons_self
      simp only [deliverLoop, callback, ↓reduceIte] at room ⊢
      obtain ⟨between, mirrored⟩ := mirrors.invoke supplied (code.system.items sub).entry event
        (Nat.le_trans (deliverLoop_draws around event fuel _ _) room)
      obtain ⟨same, sameSub, -, later⟩ := (remaining.invoke around _ _ event).uncons
      rw [← Option.some.inj sameSub] at later
      rw [List.length_cons] at enough
      exact ih mirrored later (fun other member => callable other (by simp [member]))
        (by omega) room

theorem handOver (mirrors : Mirrors around code purpose nodes) (supplied : Supplied around)
    {fuel : Nat} (enough : subMax ≤ fuel) {event : OxEvent} {topic : Fin topicsCount}
    (here : topicIndex event.type = some topic)
    (room : (deliverEvent around fuel event code).1.progress.draws ≤ subMax) :
    ∃ after, deliverEvent around fuel event code =
        ({ after with progress := after.progress.note [.returned true] }, none) ∧
      ∃ nodes, Mirrors around after
        (callEntries around event (purpose.system.holds event.type) purpose) nodes := by
  have length : (purpose.system.live topic).length ≤ fuel := by
    have short : (nodes topic).length ≤ subMax := by
      simpa using (mirrors.synced.linked.chains topic).length_le
    rw [← mirrors.synced.presented topic, List.length_map]
    exact Nat.le_trans short enough
  have bound : (deliverLoop around event fuel code
      (code.system.topics topic)).1.progress.draws ≤ subMax := by
    simp only [deliverEvent, here] at room
    rcases delivered : deliverLoop around event fuel code (code.system.topics topic) with
      ⟨after, fault⟩
    rw [delivered] at room
    cases fault <;> exact room
  obtain ⟨after, delivered, kept⟩ := mirrors.deliver supplied event (mirrors.remaining topic)
    (mirrors.callable topic) length bound
  refine ⟨after, by simp only [deliverEvent, here, delivered], ?_⟩
  simpa only [Registry.holds, here, Option.elim_some] using kept

theorem dispatch (mirrors : Mirrors around code purpose nodes) (supplied : Supplied around)
    {fuel : Nat} (enough : subMax ≤ fuel) (uninitialised : OxEvent)
    (room : (oxiDispatchNext around fuel uninitialised code).1.progress.draws ≤ subMax) :
    (∃ nodes, Mirrors around (oxiDispatchNext around fuel uninitialised code).1
        (dispatchOnce around uninitialised purpose).1 nodes) ∧
      (oxiDispatchNext around fuel uninitialised code).2 =
        (dispatchOnce around uninitialised purpose).2 := by
  simp only [oxiDispatchNext, awaitEvent_eq, Progress.note] at room ⊢
  simp only [dispatchOnce, ← mirrors.progress]
  generalize (WaitAnswer.rejected around.translator uninitialised) = rejected at *
  generalize skippedEq : ({ code.progress with
    queue := (code.progress.queue.dropWhile rejected).tail
    trace := code.progress.trace ++
      (code.progress.queue.takeWhile rejected).map Action.skipped } : Progress) = skipped at *
  have passed : Mirrors around { code with progress := skipped }
      { purpose with progress := skipped } nodes :=
    mirrors.withProgress skipped (by rw [← skippedEq])
  cases awaited : (code.progress.queue.dropWhile rejected).head? with
  | none => exact ⟨⟨nodes, passed⟩, rfl⟩
  | some answer =>
      simp only [awaited, Option.map_some] at room ⊢
      cases translated : answer.translated around.translator uninitialised with
      | none => exact ⟨⟨nodes, mirrors.withProgress _ rfl⟩, rfl⟩
      | some event =>
          obtain ⟨topic, here⟩ : ∃ topic, topicIndex event.type = some topic := by
            cases answer with
            | failure => simp [WaitAnswer.translated] at translated
            | event sdlEvent now => exact topicIndex_translated translated
          simp only [translated] at room ⊢
          obtain ⟨after, delivered, last, kept⟩ :=
            passed.handOver supplied enough here room
          rw [delivered]
          refine ⟨⟨last, ?_⟩, rfl⟩
          simp only [← kept.progress]
          exact kept.withProgress _ rfl

end Mirrors

theorem run_mirrors {Sdl : Type} {around : Surroundings Sdl} (supplied : Supplied around)
    (queue : List WaitAnswer) {ops : List DispatchOp} (callable : ∀ op ∈ ops, op.Callable)
    {fuel : Nat} (enough : subMax ≤ fuel)
    (room : (runUntil (dispatchStep around fuel) (Kernel.start oxiMakeEventSystem queue)
      ops).1.progress.draws ≤ subMax) :
    let code := runUntil (dispatchStep around fuel) (Kernel.start oxiMakeEventSystem queue) ops
    let purpose := runUntil (purposeStep around) (Kernel.start Registry.empty queue) ops
    (∃ nodes, Mirrors around code.1 purpose.1 nodes) ∧ code.2 = purpose.2 := by
  refine runUntil_simulates (fun code purpose => ∃ nodes, Mirrors around code purpose nodes)
    (fun code => code.progress.draws ≤ subMax)
    (fun code op later => Nat.le_trans (dispatchStep_draws around fuel code op) later)
    ?_ ⟨_, Mirrors.start queue⟩ callable room
  rintro code purpose op ⟨nodes, mirrors⟩ allowed later
  cases op with
  | subscribe call => exact ⟨mirrors.subscribe supplied allowed later, rfl⟩
  | dispatch uninitialised => exact mirrors.dispatch supplied enough uninitialised later

/-- Over a whole run from a fresh event system, subscribing and dispatching do what they are for:
the topics hold what was subscribed, and each dispatch of the run delivers to the subscriptions
that its topic held when it began, whatever these subscribe meanwhile. -/
theorem dispatch_delivers {Sdl : Type} {around : Surroundings Sdl} (supplied : Supplied around)
    (queue : List WaitAnswer) (ops : List DispatchOp) (callable : ∀ op ∈ ops, op.Callable)
    (fuel : Nat) (enough : subMax ≤ fuel)
    (room : (runUntil (dispatchStep around fuel) (Kernel.start oxiMakeEventSystem queue)
      ops).1.progress.draws ≤ subMax) :
    let code := runUntil (dispatchStep around fuel) (Kernel.start oxiMakeEventSystem queue)
    let purpose := runUntil (purposeStep around) (Kernel.start Registry.empty queue)
    ((code ops).1.progress = (purpose ops).1.progress ∧ (code ops).2 = (purpose ops).2 ∧
        Presents (code ops).1.system (purpose ops).1.system) ∧
      ∀ front uninitialised back, ops = front ++ .dispatch uninitialised :: back →
        (code front).2 = none →
          Presents (code front).1.system (purpose front).1.system ∧
          Delivers around uninitialised (purpose front).1.system (code front).1.progress
            (code (front ++ [.dispatch uninitialised])).1.progress := by
  intro code purpose
  have mirrored (first second : List DispatchOp) (split : ops = first ++ second) :
      (∃ nodes, Mirrors around (code first).1 (purpose first).1 nodes) ∧
        (code first).2 = (purpose first).2 := by
    subst split
    refine run_mirrors supplied queue
      (fun op member => callable op (List.mem_append_left _ member)) enough ?_
    exact of_runUntil_append (fun kernel => kernel.progress.draws ≤ subMax)
      (fun kernel op later => Nat.le_trans (dispatchStep_draws around fuel kernel op) later) room
  constructor
  · obtain ⟨⟨nodes, mirrors⟩, alike⟩ := mirrored ops [] (List.append_nil ops).symm
    exact ⟨mirrors.progress, alike, mirrors.synced.presents⟩
  · intro front uninitialised back split goesOn
    obtain ⟨⟨nodes, before⟩, alike⟩ := mirrored front (.dispatch uninitialised :: back) split
    obtain ⟨⟨later, after⟩, -⟩ := mirrored (front ++ [.dispatch uninitialised]) back (by simp [split])
    refine ⟨before.synced.presents, ?_⟩
    have ran : purpose front = ((purpose front).1, none) := Prod.ext rfl (alike ▸ goesOn)
    have dispatched : (purpose (front ++ [.dispatch uninitialised])).1 =
        (dispatchOnce around uninitialised (purpose front).1).1 := by
      simp only [purpose]
      rw [runUntil_append_none _ ran]
      rcases stepped : dispatchOnce around uninitialised (purpose front).1 with ⟨kernel, stop⟩
      cases stop with
      | none => rw [runUntil_cons_none [] stepped]; rfl
      | some stop => rw [runUntil_cons_some [] stepped]
    rw [after.progress, before.progress, dispatched]
    exact dispatchOnce_delivers around uninitialised (purpose front).1

def selfSubscribing : Surroundings Unit where
  rand draw := draw + 1
  script call := if call = 0 then [⟨OxEventType.quit.topic, 0x20, 7⟩] else []
  translator := programStart ()

theorem selfSubscribing_supplied : Supplied selfSubscribing where
  distinct i j _ _ same := by
    simp only [selfSubscribing] at same
    omega
  ranged i bound := by
    simp only [selfSubscribing, randMax, subMax] at bound ⊢
    omega
  callable k call member := by
    simp only [selfSubscribing] at member
    split at member
    · rw [List.mem_singleton.mp member]
      decide
    · simp at member

theorem dispatch_delivers_self_subscribing :
    let uninitialised : OxEvent := ⟨0, 0, 0, ⟨0, 0, 0, false⟩, ⟨0, 0, 0⟩⟩
    let unknown : SdlEvent := ⟨0x400, 5, ⟨0, 0, 0, false⟩, ⟨0, 0, 0⟩⟩
    let quit : SdlEvent := { unknown with type := sdlEventQuit }
    let queue : List WaitAnswer := [.event unknown 1, .event quit 2, .event quit 3]
    let ops : List DispatchOp := [.subscribe ⟨OxEventType.quit.topic, 0x10, 0⟩,
      .dispatch uninitialised, .dispatch uninitialised]
    let code := runUntil (dispatchStep selfSubscribing subMax)
      (Kernel.start oxiMakeEventSystem queue)
    let purpose := runUntil (purposeStep selfSubscribing) (Kernel.start Registry.empty queue)
    ((code ops).1.progress = (purpose ops).1.progress ∧ (code ops).2 = (purpose ops).2 ∧
        Presents (code ops).1.system (purpose ops).1.system) ∧
      ∀ front uninitialised back, ops = front ++ .dispatch uninitialised :: back →
        (code front).2 = none →
          Presents (code front).1.system (purpose front).1.system ∧
          Delivers selfSubscribing uninitialised (purpose front).1.system (code front).1.progress
            (code (front ++ [.dispatch uninitialised])).1.progress := by
  apply dispatch_delivers selfSubscribing_supplied _ _ ?_ subMax (Nat.le_refl _)
  · decide
  · intro op member
    simp only [List.mem_cons, List.not_mem_nil, or_false] at member
    rcases member with rfl | rfl | rfl <;> simp [DispatchOp.Callable]

end YakUnshorn
