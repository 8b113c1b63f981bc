import YakUnshorn.EventTranslation
import YakUnshorn.Subscriptions

/-!
`oxi_dispatch_next` of `ox-kernel/event.c`, with callbacks that may call
`ox_subscribe_events` while they are being called.
-/

namespace YakUnshorn

open CMachine

structure SubscribeCall where
  type : Fin topicsCount
  callback : Pointer
  userData : Pointer
  deriving Repr, DecidableEq

/-- What a call of `SDL_WaitEvent` comes to: the next event of the queue, which is translated at
the time `now`, or a failure. -/
inductive WaitAnswer
  | event (sdlEvent : SdlEvent) (now : UInt64)
  | failure
  deriving Repr, DecidableEq

inductive Action
  | subscribed (id : Int)
  | skipped (answer : WaitAnswer)
  | called (callback userData : Pointer) (event : OxEvent)
  | returned (result : Bool)
  deriving Repr, DecidableEq

/-- What the event system is given from outside: the numbers that `rand` gives, the subscribe
calls made during each call of a callback, in the order of these calls, and the globals of the
translation. -/
structure Surroundings (Sdl : Type) where
  rand : Nat → Int
  script : Nat → List SubscribeCall
  translator : Translator Sdl

/-- The answers still to come, how far `rand` and the callbacks have got, and what was seen. -/
structure Progress where
  queue : List WaitAnswer
  draws : Nat
  calls : Nat
  trace : List Action
  deriving Repr, DecidableEq

def Progress.note (progress : Progress) (actions : List Action) : Progress :=
  { progress with trace := progress.trace ++ actions }

abbrev CallbackCall := Pointer × Pointer × OxEvent

def Action.call : Action → Option CallbackCall
  | .called callback userData event => some (callback, userData, event)
  | _ => none

def Action.skip : Action → Option WaitAnswer
  | .skipped answer => some answer
  | _ => none

def Progress.callsSeen (progress : Progress) : List CallbackCall :=
  progress.trace.filterMap Action.call

def Progress.skipsSeen (progress : Progress) : List WaitAnswer :=
  progress.trace.filterMap Action.skip

@[simp] theorem Progress.note_draws (progress : Progress) (actions : List Action) :
    (progress.note actions).draws = progress.draws := rfl

structure Kernel (System : Type) where
  system : System
  progress : Progress

section Dispatch

variable {Sdl : Type}

def Kernel.start {System : Type} (system : System) (queue : List WaitAnswer) : Kernel System :=
  ⟨system, ⟨queue, 0, 0, []⟩⟩

def Kernel.subscribe (around : Surroundings Sdl) (kernel : Kernel OxEventSystem)
    (call : SubscribeCall) : Kernel OxEventSystem :=
  let (system, result) := oxiSubscribeEvents kernel.system (around.rand kernel.progress.draws)
    call.type call.callback call.userData
  { system
    progress := { kernel.progress.note [.subscribed result] with
      draws := kernel.progress.draws + 1 } }

theorem Kernel.subscribe_system (around : Surroundings Sdl) (kernel : Kernel OxEventSystem)
    (call : SubscribeCall) :
    (kernel.subscribe around call).system =
      (oxiSubscribeEvents kernel.system (around.rand kernel.progress.draws) call.type
        call.callback call.userData).1 := rfl

theorem Kernel.subscribe_draws (around : Surroundings Sdl) (kernel : Kernel OxEventSystem)
    (call : SubscribeCall) :
    (kernel.subscribe around call).progress.draws = kernel.progress.draws + 1 := rfl

def Kernel.invoke (around : Surroundings Sdl) (kernel : Kernel OxEventSystem)
    (callback userData : Pointer) (event : OxEvent) : Kernel OxEventSystem :=
  (around.script kernel.progress.calls).foldl (Kernel.subscribe around)
    { kernel with
      progress := { kernel.progress.note [.called callback userData event] with
        calls := kernel.progress.calls + 1 } }

/-- The first loop of `oxi_dispatch_next`: what it skips, the event it gets, and the answers that
are left. There is no event in the end when the wait fails, and no end when the queue runs out. -/
def awaitEvent (translator : Translator Sdl) (uninitialised : OxEvent) :
    List WaitAnswer → List Action × Option (Option OxEvent) × List WaitAnswer
  | [] => ([], none, [])
  | .failure :: rest => ([], some none, rest)
  | .event sdlEvent now :: rest =>
      match oxiFromSdlEvent translator now sdlEvent uninitialised with
      | some event => ([], some (some event), rest)
      | none =>
          let (skipped, awaited, left) := awaitEvent translator uninitialised rest
          (.skipped (.event sdlEvent now) :: skipped, awaited, left)

/-- The second loop of `oxi_dispatch_next`. -/
def deliverLoop (around : Surroundings Sdl) (event : OxEvent) :
    Nat → Kernel OxEventSystem → Option SubSlot → Kernel OxEventSystem × Option Fault
  | _, kernel, none => (kernel, none)
  | 0, kernel, some _ => (kernel, some .nonTermination)
  | fuel + 1, kernel, some sub =>
      let subscription := kernel.system.subscriptionSet.items sub
      -- a null callback ends the delivery
      if subscription.callback = 0 then (kernel, none)
      else
        let kernel := kernel.invoke around subscription.callback subscription.userData event
        deliverLoop around event fuel kernel (kernel.system.subscriptionSet.items sub).next

def topicIndex (type : UInt32) : Option (Fin topicsCount) :=
  if bound : type.toNat < topicsCount then some ⟨type.toNat, bound⟩ else none

inductive Stop
  | waiting
  | fault (fault : Fault)
  deriving Repr, DecidableEq

def deliverEvent (around : Surroundings Sdl) (fuel : Nat) (event : OxEvent)
    (kernel : Kernel OxEventSystem) : Kernel OxEventSystem × Option Stop :=
  match topicIndex event.type with
  | none => (kernel, some (.fault .outOfBounds))
  | some topic =>
      match deliverLoop around event fuel kernel (kernel.system.topics topic) with
      | (kernel, some fault) => (kernel, some (.fault fault))
      | (kernel, none) =>
          ({ kernel with progress := kernel.progress.note [.returned true] }, none)

/-- `oxi_dispatch_next`, whose event is `uninitialised` at first and whose second loop goes
around at most `fuel` times. -/
def oxiDispatchNext (around : Surroundings Sdl) (fuel : Nat) (uninitialised : OxEvent)
    (kernel : Kernel OxEventSystem) : Kernel OxEventSystem × Option Stop :=
  let (skipped, awaited, queue) :=
    awaitEvent around.translator uninitialised kernel.progress.queue
  let kernel := { kernel with progress := { kernel.progress.note skipped with queue } }
  match awaited with
  | none => (kernel, some .waiting)
  | some none => ({ kernel with progress := kernel.progress.note [.returned false] }, none)
  | some (some event) => deliverEvent around fuel event kernel

inductive DispatchOp
  | subscribe (call : SubscribeCall)
  | dispatch (uninitialised : OxEvent)
  deriving Repr, DecidableEq

def dispatchStep (around : Surroundings Sdl) (fuel : Nat) (kernel : Kernel OxEventSystem) :
    DispatchOp → Kernel OxEventSystem × Option Stop
  | .subscribe call => (kernel.subscribe around call, none)
  | .dispatch uninitialised => oxiDispatchNext around fuel uninitialised kernel

theorem subscribes_draws (around : Surroundings Sdl) (kernel : Kernel OxEventSystem)
    (calls : List SubscribeCall) :
    (calls.foldl (Kernel.subscribe around) kernel).progress.draws =
      kernel.progress.draws + calls.length := by
  induction calls generalizing kernel with
  | nil => rfl
  | cons call rest ih =>
      rw [List.foldl_cons, ih, List.length_cons, Kernel.subscribe_draws]
      omega

theorem invoke_draws (around : Surroundings Sdl) (kernel : Kernel OxEventSystem)
    (callback userData : Pointer) (event : OxEvent) :
    (kernel.invoke around callback userData event).progress.draws =
      kernel.progress.draws + (around.script kernel.progress.calls).length := by
  rw [Kernel.invoke, subscribes_draws]
  rfl

theorem subscribes_calls (around : Surroundings Sdl) (kernel : Kernel OxEventSystem)
    (calls : List SubscribeCall) :
    (calls.foldl (Kernel.subscribe around) kernel).progress.calls = kernel.progress.calls := by
  induction calls generalizing kernel with
  | nil => rfl
  | cons call rest ih => exact ih (kernel.subscribe around call)

theorem invoke_calls (around : Surroundings Sdl) (kernel : Kernel OxEventSystem)
    (callback userData : Pointer) (event : OxEvent) :
    (kernel.invoke around callback userData event).progress.calls = kernel.progress.calls + 1 :=
  subscribes_calls around _ _

theorem deliverLoop_draws (around : Surroundings Sdl) (event : OxEvent) (fuel : Nat)
    (kernel : Kernel OxEventSystem) (cursor : Option SubSlot) :
    kernel.progress.draws ≤ (deliverLoop around event fuel kernel cursor).1.progress.draws := by
  induction fuel generalizing kernel cursor with
  | zero => cases cursor <;> exact Nat.le_refl _
  | succ fuel ih =>
      cases cursor with
      | none => exact Nat.le_refl _
      | some sub =>
          simp only [deliverLoop]
          split
          · exact Nat.le_refl _
          · refine Nat.le_trans ?_ (ih _ _)
            rw [invoke_draws]
            exact Nat.le_add_right _ _

theorem deliverEvent_draws (around : Surroundings Sdl) (fuel : Nat) (event : OxEvent)
    (kernel : Kernel OxEventSystem) :
    kernel.progress.draws ≤ (deliverEvent around fuel event kernel).1.progress.draws := by
  simp only [deliverEvent]
  cases topicIndex event.type with
  | none => exact Nat.le_refl _
  | some topic =>
      have kept := deliverLoop_draws around event fuel kernel (kernel.system.topics topic)
      rcases delivered : deliverLoop around event fuel kernel (kernel.system.topics topic) with
        ⟨after, fault⟩
      rw [delivered] at kept
      cases fault <;> simpa only [delivered, Progress.note_draws] using kept

theorem dispatchStep_draws (around : Surroundings Sdl) (fuel : Nat)
    (kernel : Kernel OxEventSystem) (op : DispatchOp) :
    kernel.progress.draws ≤ (dispatchStep around fuel kernel op).1.progress.draws := by
  cases op with
  | subscribe call => exact Nat.le_succ _
  | dispatch uninitialised =>
      simp only [dispatchStep, oxiDispatchNext]
      split
      · exact Nat.le_refl _
      · exact Nat.le_refl _
      · refine Nat.le_trans ?_ (deliverEvent_draws around fuel _ _)
        exact Nat.le_refl _

theorem topicIndex_translated {translator : Translator Sdl} {now : UInt64} {sdlEvent : SdlEvent}
    {uninitialised event : OxEvent}
    (translated : oxiFromSdlEvent translator now sdlEvent uninitialised = some event) :
    ∃ topic, topicIndex event.type = some topic := by
  have enumerated : ∃ type : OxEventType, event.type = type.code := by
    simp only [oxiFromSdlEvent] at translated
    split_ifs at translated <;> cases translated
    exacts [⟨.command, rfl⟩, ⟨.quit, rfl⟩, ⟨.windowExposed, rfl⟩, ⟨.keyUp, rfl⟩, ⟨.keyDown, rfl⟩]
  obtain ⟨type, same⟩ := enumerated
  refine ⟨type.topic, ?_⟩
  rw [same]
  cases type <;> rfl

end Dispatch

end YakUnshorn
