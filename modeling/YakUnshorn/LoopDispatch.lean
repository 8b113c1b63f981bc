import YakUnshorn.LoopCalls

/-!
`oxi_dispatch_next` in the loop of `main` and on its own: with modules that only
subscribe, the two models of it go through the same runs.
-/

namespace YakUnshorn

open CMachine StepRuns

def takeAnswer : List WaitAnswer → Option (WaitAnswer × List WaitAnswer)
  | [] => none
  | answer :: rest => some (answer, rest)

section Alike

variable {Sdl : Type}

/-- The surroundings as what the kernel runs on: SDL gives the answers of its queue, and the data
of the modules is the number of calls that they have had. -/
def Surroundings.drive (around : Surroundings Sdl)
    (platform : Platform (List WaitAnswer) Nat) : Platform (List WaitAnswer) Nat :=
  { platform with
    waitEvent := takeAnswer
    rand := around.rand
    code := fun calls _ _ _ => .ok ((around.script calls).map .subscribe, calls + 1)
    -- a null pointer, which is never called
    quitHandler := 0 }

def Stop.interruption : Stop → Interruption
  | .waiting => .waiting
  | .fault reason => .halt (.fault reason)

structure Alike (around : Surroundings Sdl) (kernel : Kernel OxEventSystem)
    (ox : Ox (List WaitAnswer) Nat) : Prop where
  eventSystem : ox.eventSystem = kernel.system
  draws : ox.draws = kernel.progress.draws
  queue : ox.translator.sdl = kernel.progress.queue
  calls : ox.world = kernel.progress.calls
  first : ox.translator.cmdEventTypeFirst = around.translator.cmdEventTypeFirst
  last : ox.translator.cmdEventTypeLast = around.translator.cmdEventTypeLast
  called : callsIn ox.trace = kernel.progress.callsSeen

def AlikeAfter (around : Surroundings Sdl) (code : Kernel OxEventSystem × Option Stop)
    (loop : Ox (List WaitAnswer) Nat × Option Interruption) : Prop :=
  Alike around code.1 loop.1 ∧ loop.2 = code.2.map Stop.interruption

variable {around : Surroundings Sdl} {kernel : Kernel OxEventSystem}
  {ox : Ox (List WaitAnswer) Nat}

theorem Alike.note (alike : Alike around kernel ox) {actions : List Action} {activity : Activity}
    (same : actions.filterMap Action.call = activity.call.toList) :
    Alike around { kernel with progress := kernel.progress.note actions } (ox.note activity) :=
  { alike with
    called := by
      rw [Ox.note, callsIn_concat, alike.called, Progress.callsSeen, Progress.callsSeen,
        Progress.note, List.filterMap_append, same] }

theorem Alike.took (alike : Alike around kernel ox) (actions : List Action) {activity : Activity}
    (same : actions.filterMap Action.call = activity.call.toList) (queue : List WaitAnswer) :
    Alike around { kernel with progress := { kernel.progress.note actions with queue } }
      ((ox.withSdl queue).note activity) :=
  { alike.note same with queue := rfl }

theorem Alike.translates (alike : Alike around kernel ox) (now : UInt64) (sdlEvent : SdlEvent)
    (uninitialised : OxEvent) :
    oxiFromSdlEvent ox.translator now sdlEvent uninitialised =
      oxiFromSdlEvent around.translator now sdlEvent uninitialised := by
  simp only [oxiFromSdlEvent, alike.first, alike.last]

variable (platform : Platform (List WaitAnswer) Nat)

theorem Alike.subscribe (alike : Alike around kernel ox) (call : SubscribeCall) :
    Alike around (kernel.subscribe around call) (ox.subscribe (around.drive platform) call) := by
  let draw : Draw := ⟨call, around.rand ox.draws⟩
  let result := oxiSubscribeEvents kernel.system (around.rand kernel.progress.draws) call.type
    call.callback call.userData
  have noted : Alike around
      { kernel with progress := kernel.progress.note [.subscribed result.2] }
      (ox.note (.subscribed draw)) := alike.note rfl
  have drawn : draw.id = around.rand kernel.progress.draws := congrArg around.rand alike.draws
  have stored : (subscribeDrawn ox.eventSystem draw).1 = result.1 := by
    rw [subscribeDrawn, drawn, alike.eventSystem]
  exact { noted with eventSystem := stored, draws := congrArg (· + 1) alike.draws }

theorem Alike.subscribes (alike : Alike around kernel ox) (calls : List SubscribeCall) :
    AlikeAfter around (calls.foldl (Kernel.subscribe around) kernel, none)
      (runUntil (Ox.api (around.drive platform)) ox (calls.map .subscribe)) := by
  induction calls generalizing kernel ox with
  | nil => exact ⟨alike, rfl⟩
  | cons call rest ih =>
      have made : ox.api (around.drive platform) (.subscribe call) =
        (ox.subscribe (around.drive platform) call, none) := rfl
      rw [List.map_cons, runUntil_cons_none _ made, List.foldl_cons]
      exact ih (alike.subscribe platform call)

theorem Alike.invoke (alike : Alike around kernel ox) {callback : Pointer}
    (callable : callback ≠ 0) (userData : Pointer) (event : OxEvent) :
    AlikeAfter around (kernel.invoke around callback userData event, none)
      (ox.call (around.drive platform) callback userData event) := by
  have foreign : callback ≠ (around.drive platform).quitHandler := callable
  have noted : Alike around
      { kernel with progress := kernel.progress.note [.called callback userData event] }
      (ox.note (.called callback userData event)) := alike.note rfl
  have begun : Alike around
      { kernel with
        progress := { kernel.progress.note [.called callback userData event] with
          calls := kernel.progress.calls + 1 } }
      { ox.note (.called callback userData event) with world := ox.world + 1 } :=
    { noted with calls := congrArg (· + 1) alike.calls }
  have subscribed := begun.subscribes platform (around.script kernel.progress.calls)
  rw [← alike.calls] at subscribed
  rw [Ox.call, if_neg foreign, Kernel.invoke, ← alike.calls]
  exact subscribed

theorem Alike.deliver (alike : Alike around kernel ox) (event : OxEvent) (fuel : Nat)
    (cursor : Option SubSlot) :
    let code := deliverLoop around event fuel kernel cursor
    AlikeAfter around (code.1, code.2.map Stop.fault)
      (ox.deliver (around.drive platform) event fuel cursor) := by
  induction fuel generalizing kernel ox cursor with
  | zero => cases cursor <;> exact ⟨alike, rfl⟩
  | succ fuel ih =>
      cases cursor with
      | none => exact ⟨alike, rfl⟩
      | some sub =>
          simp only [deliverLoop, Ox.deliver]
          have same : ox.eventSystem.items sub = kernel.system.subscriptionSet.items sub := by
            rw [alike.eventSystem]
          rw [same]
          split
          case isTrue => exact ⟨alike, rfl⟩
          case isFalse callable =>
            obtain ⟨invoked, goesOn⟩ := alike.invoke platform callable
              (kernel.system.subscriptionSet.items sub).userData event
            rcases called : ox.call (around.drive platform)
              (kernel.system.subscriptionSet.items sub).callback
              (kernel.system.subscriptionSet.items sub).userData event with ⟨after, stop⟩
            rw [called] at invoked goesOn
            cases goesOn
            simp only
            rw [show after.eventSystem = _ from invoked.eventSystem]
            exact ih invoked _

/-- Where the queue is not longer than the loop is followed, it comes to the same event. -/
theorem Alike.await (alike : Alike around kernel ox) (uninitialised : OxEvent) {waits : Nat}
    (enough : kernel.progress.queue.length < waits) :
    let code := awaitEvent around.translator uninitialised kernel.progress.queue
    let loop := ox.await (around.drive platform) uninitialised waits
    Alike around
        { kernel with progress := { kernel.progress.note code.1 with queue := code.2.2 } } loop.1 ∧
      loop.2 = code.2.1.elim (.error .waiting) .ok := by
  induction waits generalizing kernel ox with
  | zero => exact absurd enough (Nat.not_lt_zero _)
  | succ waits ih =>
      obtain ⟨system, queue, draws, calls, trace⟩ := kernel
      cases queue with
      | nil =>
          have none : (around.drive platform).waitEvent ox.translator.sdl = none := by
            rw [alike.queue]
            rfl
          simp only [awaitEvent, Ox.await, none, Progress.note, List.append_nil]
          exact ⟨alike, rfl⟩
      | cons answer rest =>
          have given : (around.drive platform).waitEvent ox.translator.sdl =
              some (answer, rest) := by
            rw [alike.queue]
            rfl
          simp only [Ox.await, given]
          cases answer with
          | failure => exact ⟨alike.took [] rfl rest, rfl⟩
          | event sdlEvent now =>
              simp only [awaitEvent, alike.translates]
              cases translated : oxiFromSdlEvent around.translator now sdlEvent uninitialised with
              | some event => exact ⟨alike.took [] rfl rest, rfl⟩
              | none =>
                  let after : Ox (List WaitAnswer) Nat :=
                    (ox.withSdl rest).note (.skipped sdlEvent)
                  have skipped : Alike around _ after :=
                    alike.took [.skipped (.event sdlEvent now)] rfl rest
                  have later := ih skipped (Nat.lt_of_succ_lt_succ enough)
                  simpa [Progress.note] using later

theorem Alike.returned (alike : Alike around kernel ox) (result : Bool) :
    Alike around { kernel with progress := kernel.progress.note [.returned result] } ox :=
  { alike with
    called := by
      simpa [Progress.callsSeen, Progress.note, Action.call, List.filterMap_cons] using
        alike.called }

theorem Alike.deliverEvent (alike : Alike around kernel ox) (event : OxEvent)
    {topic : Fin topicsCount} (known : topicIndex event.type = some topic) :
    AlikeAfter around (deliverEvent around subMax event kernel)
      (ox.deliver (around.drive platform) event subMax (ox.eventSystem.topics topic)) := by
  have delivered := alike.deliver platform event subMax (ox.eventSystem.topics topic)
  have head : ox.eventSystem.topics topic = kernel.system.topics topic := by
    rw [alike.eventSystem]
  rw [head] at delivered ⊢
  rw [YakUnshorn.deliverEvent, known]
  simp only
  cases coded : deliverLoop around event subMax kernel (kernel.system.topics topic) with
  | mk after fault =>
      rw [coded] at delivered
      obtain ⟨alike, same⟩ := delivered
      cases fault with
      | none => exact ⟨alike.returned true, same⟩
      | some fault => exact ⟨alike, same⟩

theorem dispatchNext_alike (alike : Alike around kernel ox) {waits : Nat}
    (enough : kernel.progress.queue.length < waits) :
    AlikeAfter around (oxiDispatchNext around subMax (platform.uninitialised ox.trace) kernel)
      (ox.dispatchNext (around.drive platform) waits) := by
  obtain ⟨here, same⟩ := alike.await platform (platform.uninitialised ox.trace) enough
  rw [oxiDispatchNext, Ox.dispatchNext,
    show (around.drive platform).uninitialised = platform.uninitialised from rfl]
  rcases coded : awaitEvent around.translator (platform.uninitialised ox.trace)
    kernel.progress.queue with ⟨skipped, awaited, queue⟩
  rcases looped : ox.await (around.drive platform) (platform.uninitialised ox.trace) waits with
    ⟨after, result⟩
  rw [coded, looped] at here same
  obtain rfl : result = awaited.elim (.error .waiting) .ok := same
  cases awaited with
  | none => exact ⟨here, rfl⟩
  | some found =>
      cases found with
      | none => exact ⟨here.returned false, rfl⟩
      | some event =>
          simp only [Option.elim_some]
          cases known : topicIndex event.type with
          | none =>
              simp only [deliverEvent, known]
              exact ⟨here, rfl⟩
          | some topic => exact here.deliverEvent platform event known

/-- An operation, with a loop that is followed past the last answer that SDL has. -/
def Ox.operate (ox : Ox (List WaitAnswer) Nat) :
    DispatchOp → Ox (List WaitAnswer) Nat × Option Interruption
  | .subscribe call => (ox.subscribe platform call, none)
  | .dispatch uninitialised =>
      ox.dispatchNext { platform with uninitialised := fun _ => uninitialised }
        (ox.translator.sdl.length + 1)

theorem operate_alike (alike : Alike around kernel ox) (op : DispatchOp) :
    AlikeAfter around (dispatchStep around subMax kernel op)
      (ox.operate (around.drive platform) op) := by
  cases op with
  | subscribe call => exact ⟨alike.subscribe platform call, rfl⟩
  | dispatch uninitialised =>
      have enough : kernel.progress.queue.length < ox.translator.sdl.length + 1 := by
        rw [alike.queue]
        exact Nat.lt_succ_self _
      exact dispatchNext_alike { platform with uninitialised := fun _ => uninitialised } alike
        enough

theorem run_alike (alike : Alike around kernel ox) (ops : List DispatchOp) :
    AlikeAfter around (runUntil (dispatchStep around subMax) kernel ops)
      (runUntil (Ox.operate (around.drive platform)) ox ops) := by
  induction ops generalizing kernel ox with
  | nil => exact ⟨alike, rfl⟩
  | cons op rest ih =>
      have here := operate_alike platform alike op
      rcases coded : dispatchStep around subMax kernel op with ⟨between, stop⟩
      rcases looped : ox.operate (around.drive platform) op with ⟨after, interruption⟩
      rw [coded, looped] at here
      obtain ⟨alike, same⟩ := here
      cases stop with
      | none =>
          cases same
          rw [runUntil_cons_none rest coded, runUntil_cons_none rest looped]
          exact ih alike
      | some stop =>
          cases same
          rw [runUntil_cons_some rest coded, runUntil_cons_some rest looped]
          exact ⟨alike, rfl⟩

def Surroundings.fresh (around : Surroundings Sdl) (queue : List WaitAnswer)
    (renderer : Pointer) : Ox (List WaitAnswer) Nat :=
  { Ox.fresh queue renderer 0 with translator := { around.translator with sdl := queue } }

/-- From the start on, whatever the callbacks subscribe, both models of `oxi_dispatch_next` make
the same calls, are left with the same subscriptions and answers, and stop where the other does. -/
theorem dispatches_alike (around : Surroundings Sdl) (queue : List WaitAnswer)
    (renderer : Pointer) (ops : List DispatchOp) :
    AlikeAfter around
      (runUntil (dispatchStep around subMax) (Kernel.start oxiMakeEventSystem queue) ops)
      (runUntil (Ox.operate (around.drive platform)) (around.fresh queue renderer) ops) :=
  run_alike platform ⟨rfl, rfl, rfl, rfl, rfl, rfl, rfl⟩ ops

end Alike

end YakUnshorn
