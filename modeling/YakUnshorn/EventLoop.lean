import YakUnshorn.CommandModule
import YakUnshorn.Display
import YakUnshorn.Publishing
import YakUnshorn.SubscribeRuns
import Mathlib.Logic.Relation

/-!
The loop of `main` in `ox-kernel/ox.c`, with modules that are called back, publish
events and subscribe through the `ox_Api` while the loop runs, and all that one step
of such a run can do: `ox_publish_event`, `ox_subscribe_events`, `oxi_dispatch_next` and
`oxi_render_and_present` here work on the state of the whole program.
-/

namespace YakUnshorn

open CMachine StepRuns

inductive ApiCall
  | publish (event : Option OxEvent)
  | subscribe (call : SubscribeCall)
  deriving Repr, DecidableEq

/-- What the code at an address does when it is called back: the calls it makes through the
`ox_Api`, and what becomes of the data of the modules. -/
abbrev Code (World : Type) :=
  World → Pointer → Pointer → OxEvent → Except Halt (List ApiCall × World)

inductive Activity
  | subscribed (draw : Draw)
  | published (event : Option OxEvent) (pushed : Bool)
  | skipped (sdlEvent : SdlEvent)
  | taken (sdlEvent : SdlEvent) (event : OxEvent)
  | waitFailed
  | called (callback userData : Pointer) (event : OxEvent)
  | rendered (trace : RenderTrace)
  deriving Repr, DecidableEq

/-- What the kernel runs on. There is no answer of `SDL_WaitEvent` where it waits forever. What
uninitialised events hold and what the render callbacks return is up to the run so far. -/
structure Platform (Sdl World : Type) where
  registerEvents : RegisterEvents Sdl
  pushEvent : PushEvent Sdl
  waitEvent : Sdl → Option (WaitAnswer × Sdl)
  rand : Nat → Int
  code : Code World
  quitHandler : Pointer
  ox : Pointer
  renderCallback : Pointer
  uninitialised : List Activity → OxEvent
  painted : List Activity → Nat → Bool

/-- `Ox`, with all else that a run changes: the globals of the translation and SDL behind them, how
far `rand` has got, the data of the modules, and what was seen. -/
structure Ox (Sdl World : Type) where
  eventSystem : OxEventSystem
  display : OxDisplay
  shouldExit : Bool
  translator : Translator Sdl
  draws : Nat
  world : World
  trace : List Activity

/-- Why a run goes no further. A run that is cut was not followed to its end. -/
inductive Interruption
  | waiting
  | overflow
  | halt (halt : Halt)
  | cut
  deriving Repr, DecidableEq

/-- The run ended inside a module, or with a fault of the kernel. -/
def Interruption.isFatal : Interruption → Bool
  | .overflow => true
  | .halt _ => true
  | _ => false

/-- The run went on or was interrupted while it waited, unless it may end otherwise. -/
def Unhurt (mayHalt : Prop) (stop : Option Interruption) : Prop :=
  mayHalt ∨ ∀ interruption, stop = some interruption → interruption.isFatal = false

theorem Unhurt.none {mayHalt : Prop} : Unhurt mayHalt none := .inr (by simp)

theorem Unhurt.allowed {mayHalt : Prop} {interruption : Interruption}
    (unhurt : Unhurt mayHalt (some interruption)) (fatal : interruption.isFatal = true) :
    mayHalt := by
  rcases unhurt with allowed | returned
  · exact allowed
  · rw [returned interruption rfl] at fatal
    cases fatal

namespace Ox

variable {Sdl World : Type}

def fresh (sdl : Sdl) (renderer : Pointer) (world : World) : Ox Sdl World where
  eventSystem := oxiMakeEventSystem
  display := oxiMakeDisplay renderer
  shouldExit := false
  translator := programStart sdl
  draws := 0
  world := world
  trace := []

def note (ox : Ox Sdl World) (activity : Activity) : Ox Sdl World :=
  { ox with trace := ox.trace ++ [activity] }

def withSdl (ox : Ox Sdl World) (sdl : Sdl) : Ox Sdl World :=
  { ox with translator := { ox.translator with sdl } }

section Running

variable (platform : Platform Sdl World)

def subscribe (ox : Ox Sdl World) (call : SubscribeCall) : Ox Sdl World :=
  let draw : Draw := ⟨call, platform.rand ox.draws⟩
  { ox.note (.subscribed draw) with
    eventSystem := (subscribeDrawn ox.eventSystem draw).1
    draws := ox.draws + 1 }

def publish (ox : Ox Sdl World) (event : Option OxEvent) : Ox Sdl World × Option Interruption :=
  match oxiPublishEvent platform.registerEvents platform.pushEvent ox.translator event with
  | none => (ox, some .overflow)
  | some (.error fault) => (ox, some (.halt (.fault fault)))
  | some (.ok (pushed, translator)) =>
      ({ ox.note (.published event pushed) with translator }, none)

def api (ox : Ox Sdl World) : ApiCall → Ox Sdl World × Option Interruption
  | .publish event => ox.publish platform event
  | .subscribe call => (ox.subscribe platform call, none)

/-- `quit_handler`, whose user data is the `Ox` itself. -/
def quit (ox : Ox Sdl World) (event : OxEvent) : Ox Sdl World :=
  if event.type ≠ OxEventType.quit.code then ox else { ox with shouldExit := true }

def call (ox : Ox Sdl World) (callback userData : Pointer) (event : OxEvent) :
    Ox Sdl World × Option Interruption :=
  let ox := ox.note (.called callback userData event)
  if callback = platform.quitHandler then (ox.quit event, none)
  else
    match platform.code ox.world callback userData event with
    | .error halt => (ox, some (.halt halt))
    | .ok (calls, world) => runUntil (api platform) { ox with world } calls

/-- The second loop of `oxi_dispatch_next`. A walk that visits more nodes than there are goes on
forever. -/
def deliver (event : OxEvent) :
    Nat → Ox Sdl World → Option SubSlot → Ox Sdl World × Option Interruption
  | _, ox, none => (ox, none)
  | 0, ox, some _ => (ox, some (.halt (.fault .nonTermination)))
  | fuel + 1, ox, some sub =>
      let subscription := ox.eventSystem.items sub
      -- a null callback ends the delivery
      if subscription.callback = 0 then (ox, none)
      else
        match ox.call platform subscription.callback subscription.userData event with
        | (ox, some stop) => (ox, some stop)
        | (ox, none) => deliver event fuel ox (ox.eventSystem.items sub).next

/-- The first loop of `oxi_dispatch_next`, for so many calls of `SDL_WaitEvent`. There is no event
in the end when one of them fails. -/
def await (uninitialised : OxEvent) :
    Nat → Ox Sdl World → Ox Sdl World × Except Interruption (Option OxEvent)
  | 0, ox => (ox, .error .cut)
  | waits + 1, ox =>
      match platform.waitEvent ox.translator.sdl with
      | none => (ox, .error .waiting)
      | some (.failure, sdl) => ((ox.withSdl sdl).note .waitFailed, .ok none)
      | some (.event sdlEvent now, sdl) =>
          match oxiFromSdlEvent ox.translator now sdlEvent uninitialised with
          | some event => ((ox.withSdl sdl).note (.taken sdlEvent event), .ok (some event))
          | none => await uninitialised waits ((ox.withSdl sdl).note (.skipped sdlEvent))

def dispatchNext (waits : Nat) (ox : Ox Sdl World) : Ox Sdl World × Option Interruption :=
  match await platform (platform.uninitialised ox.trace) waits ox with
  | (ox, .error stop) => (ox, some stop)
  | (ox, .ok none) => (ox, none)
  | (ox, .ok (some event)) =>
      match topicIndex event.type with
      | none => (ox, some (.halt (.fault .outOfBounds)))
      | some topic => deliver platform event subMax ox (ox.eventSystem.topics topic)

def render (ox : Ox Sdl World) : Ox Sdl World × Option Interruption :=
  match oxiRenderAndPresent (platform.painted ox.trace) ox.display with
  | .error fault => (ox, some (.halt (.fault fault)))
  | .ok trace => (ox.note (.rendered trace), none)

def mainLoop (waits : Nat) : Nat → Ox Sdl World → Ox Sdl World × Option Interruption
  | 0, ox => (ox, if ox.shouldExit then none else some .cut)
  | rounds + 1, ox =>
      if ox.shouldExit then (ox, none)
      else
        match ox.dispatchNext platform waits with
        | (ox, some stop) => (ox, some stop)
        | (ox, none) =>
            match ox.render platform with
            | (ox, some stop) => (ox, some stop)
            | (ox, none) => mainLoop waits rounds ox

/-- What `main` does between the loading of the modules and its first rendering. -/
def setUp (ox : Ox Sdl World) : Ox Sdl World :=
  let ox := ox.subscribe platform ⟨OxEventType.quit.topic, platform.quitHandler, platform.ox⟩
  { ox with display := (oxRegisterRenderCb ox.display platform.renderCallback 0).1 }

/-- `main` from the loading of the modules to the end of its loop. The modules make the calls while
they are initialised and started. -/
def kernel (calls : List ApiCall) (waits rounds : Nat) (ox : Ox Sdl World) :
    Ox Sdl World × Option Interruption :=
  match runUntil (api platform) ox calls with
  | (ox, some stop) => (ox, some stop)
  | (ox, none) =>
      match (ox.setUp platform).render platform with
      | (ox, some stop) => (ox, some stop)
      | (ox, none) => ox.mainLoop platform waits rounds

end Running

end Ox

abbrev Platform.run {Sdl World : Type} (platform : Platform Sdl World) (sdl : Sdl)
    (renderer : Pointer) (world : World) (calls : List ApiCall) (waits rounds : Nat) :
    Ox Sdl World × Option Interruption :=
  (Ox.fresh sdl renderer world).kernel platform calls waits rounds

section Steps

variable {Sdl World : Type} (platform : Platform Sdl World)

inductive ApiStep : Ox Sdl World → Ox Sdl World → Prop
  | subscribed (ox : Ox Sdl World) (call : SubscribeCall) :
      ApiStep ox (ox.subscribe platform call)
  | published {ox : Ox Sdl World} {event : Option OxEvent} {pushed : Bool}
      {translator : Translator Sdl}
      (returned : oxiPublishEvent platform.registerEvents platform.pushEvent ox.translator event =
        some (.ok (pushed, translator))) :
      ApiStep ox { ox.note (.published event pushed) with translator }

/-- What can happen at once while an event is delivered. A step that halts is the last of a run; it
is left out where runs are considered that all callbacks return in. -/
inductive CallStep (mayHalt : Prop) (event : OxEvent) : Ox Sdl World → Ox Sdl World → Prop
  | api {ox after : Ox Sdl World} (step : ApiStep platform ox after) :
      CallStep mayHalt event ox after
  | quit (ox : Ox Sdl World) (userData : Pointer) :
      CallStep mayHalt event ox
        ((ox.note (.called platform.quitHandler userData event)).quit event)
  | ran {ox : Ox Sdl World} {callback userData : Pointer} {calls : List ApiCall} {world : World}
      (foreign : callback ≠ platform.quitHandler)
      (returned : platform.code ox.world callback userData event = .ok (calls, world)) :
      CallStep mayHalt event ox { ox.note (.called callback userData event) with world }
  | halted {ox : Ox Sdl World} {callback userData : Pointer} {halt : Halt} (allowed : mayHalt)
      (foreign : callback ≠ platform.quitHandler)
      (stopped : platform.code ox.world callback userData event = .error halt) :
      CallStep mayHalt event ox (ox.note (.called callback userData event))

def WaitAnswer.seen (translator : Translator Sdl) (uninitialised : OxEvent) :
    WaitAnswer → Activity
  | .failure => .waitFailed
  | .event sdlEvent now =>
      match oxiFromSdlEvent translator now sdlEvent uninitialised with
      | some oxEvent => .taken sdlEvent oxEvent
      | none => .skipped sdlEvent

inductive OxStep (mayHalt : Prop) : Ox Sdl World → Ox Sdl World → Prop
  | api {ox after : Ox Sdl World} (step : ApiStep platform ox after) : OxStep mayHalt ox after
  | call {ox after : Ox Sdl World} {event : OxEvent}
      (taken : ∃ sdlEvent, Activity.taken sdlEvent event ∈ ox.trace)
      (step : CallStep platform mayHalt event ox after) : OxStep mayHalt ox after
  | waited {ox : Ox Sdl World} {answer : WaitAnswer} {sdl : Sdl} (uninitialised : OxEvent)
      (answered : platform.waitEvent ox.translator.sdl = some (answer, sdl)) :
      OxStep mayHalt ox ((ox.withSdl sdl).note (answer.seen ox.translator uninitialised))
  | rendered (ox : Ox Sdl World) (trace : RenderTrace) :
      OxStep mayHalt ox (ox.note (.rendered trace))
  | registered (ox : Ox Sdl World) (renderCb userData : Pointer) :
      OxStep mayHalt ox { ox with display := (oxRegisterRenderCb ox.display renderCb userData).1 }

end Steps

namespace Ox

open Relation

variable {Sdl World : Type} {platform : Platform Sdl World} {mayHalt : Prop}

theorem api_step {ox after : Ox Sdl World} {apiCall : ApiCall}
    (made : ox.api platform apiCall = (after, none)) : ApiStep platform ox after := by
  cases apiCall with
  | subscribe call =>
      cases made
      exact .subscribed ox call
  | publish event =>
      rw [api, publish] at made
      cases returned : oxiPublishEvent platform.registerEvents platform.pushEvent ox.translator
        event with
      | none => simp [returned] at made
      | some result =>
          obtain fault | ⟨pushed, translator⟩ := result
          · simp [returned] at made
          · simp only [returned, Prod.mk.injEq, and_true] at made
            subst made
            exact .published returned

theorem api_stopped {ox after : Ox Sdl World} {apiCall : ApiCall} {stop : Interruption}
    (made : ox.api platform apiCall = (after, some stop)) : after = ox := by
  cases apiCall with
  | subscribe call => cases made
  | publish event =>
      rw [api, publish] at made
      cases returned : oxiPublishEvent platform.registerEvents platform.pushEvent ox.translator
        event with
      | none =>
          simp only [returned, Prod.mk.injEq] at made
          exact made.1.symm
      | some result =>
          obtain fault | ⟨pushed, translator⟩ := result
          · simp only [returned, Prod.mk.injEq] at made
            exact made.1.symm
          · simp [returned] at made

variable (platform) in
theorem apis_steps (ox : Ox Sdl World) (calls : List ApiCall) :
    ReflTransGen (ApiStep platform) ox (runUntil (api platform) ox calls).1 := by
  induction calls generalizing ox with
  | nil => exact .refl
  | cons apiCall rest ih =>
      rcases made : ox.api platform apiCall with ⟨after, stop⟩
      cases stop with
      | none =>
          rw [runUntil_cons_none rest made]
          exact .head (api_step made) (ih after)
      | some stop =>
          rw [runUntil_cons_some rest made, api_stopped made]

variable (platform mayHalt) in
theorem call_path (ox : Ox Sdl World) (callback userData : Pointer) (event : OxEvent)
    (unhurt : Unhurt mayHalt (ox.call platform callback userData event).2) :
    ReflTransGen (CallStep platform mayHalt event) ox
      (ox.call platform callback userData event).1 := by
  rw [call] at unhurt ⊢
  split
  case isTrue same =>
    rw [same]
    exact .single (.quit ox userData)
  case isFalse foreign =>
    rw [if_neg foreign] at unhurt
    cases returned : platform.code ox.world callback userData event with
    | error halt =>
        simp only [note, returned] at unhurt ⊢
        exact .single (.halted (unhurt.allowed rfl) foreign returned)
    | ok result =>
        simp only [note, returned]
        exact .head (.ran foreign returned)
          ((apis_steps platform _ result.1).lift id fun _ _ => .api)

theorem deliver_rule {event : OxEvent} (related : Ox Sdl World → Ox Sdl World → Prop)
    (refl : ∀ ox, related ox ox)
    (trans : ∀ {ox between after}, related ox between → related between after → related ox after)
    (call : ∀ ox callback userData, Unhurt mayHalt (ox.call platform callback userData event).2 →
      related ox (ox.call platform callback userData event).1)
    (fuel : Nat) (ox : Ox Sdl World) (cursor : Option SubSlot)
    (unhurt : Unhurt mayHalt (deliver platform event fuel ox cursor).2) :
    related ox (deliver platform event fuel ox cursor).1 := by
  induction fuel generalizing ox cursor with
  | zero => cases cursor <;> exact refl ox
  | succ fuel ih =>
      cases cursor with
      | none => exact refl ox
      | some sub =>
          rw [deliver] at unhurt ⊢
          split
          case isTrue => exact refl ox
          case isFalse callable =>
            rw [if_neg callable] at unhurt
            have here := call ox (ox.eventSystem.items sub).callback
              (ox.eventSystem.items sub).userData
            rcases called : ox.call platform (ox.eventSystem.items sub).callback
              (ox.eventSystem.items sub).userData event with ⟨after, stop⟩
            rw [called] at here
            simp only [called] at unhurt
            cases stop with
            | none => exact trans (here .none) (ih after _ unhurt)
            | some stop => exact here unhurt

variable (platform) in
theorem deliver_steps (event : OxEvent) (fuel : Nat) (ox : Ox Sdl World)
    (cursor : Option SubSlot) :
    ReflTransGen (CallStep platform True event) ox (deliver platform event fuel ox cursor).1 :=
  deliver_rule _ (fun _ => .refl) .trans
    (fun ox callback userData => call_path platform True ox callback userData event) fuel ox cursor
    (.inl trivial)

theorem trace_quit (ox : Ox Sdl World) (event : OxEvent) : (ox.quit event).trace = ox.trace := by
  rw [quit]
  split <;> rfl

end Ox

section Paths

open Relation

variable {Sdl World : Type} {platform : Platform Sdl World} {mayHalt : Prop}
  {ox after : Ox Sdl World}

theorem ApiStep.trace_extends (step : ApiStep platform ox after) : ox.trace <+: after.trace := by
  cases step <;> exact List.prefix_append _ _

theorem CallStep.trace_extends {event : OxEvent} (step : CallStep platform mayHalt event ox after) :
    ox.trace <+: after.trace := by
  cases step with
  | api step => exact step.trace_extends
  | quit userData =>
      rw [Ox.trace_quit]
      exact List.prefix_append _ _
  | ran foreign returned => exact List.prefix_append _ _
  | halted allowed foreign stopped => exact List.prefix_append _ _

theorem OxStep.trace_extends (step : OxStep platform mayHalt ox after) :
    ox.trace <+: after.trace := by
  cases step with
  | api step => exact step.trace_extends
  | call taken step => exact step.trace_extends
  | waited uninitialised answered => exact List.prefix_append _ _
  | rendered trace => exact List.prefix_append _ _
  | registered renderCb userData => exact List.prefix_refl _

theorem steps_trace_extends (steps : ReflTransGen (OxStep platform mayHalt) ox after) :
    ox.trace <+: after.trace := by
  induction steps with
  | refl => exact List.prefix_refl _
  | tail steps step ih => exact ih.trans step.trace_extends

theorem callSteps_trace_extends {event : OxEvent}
    (steps : ReflTransGen (CallStep platform mayHalt event) ox after) :
    ox.trace <+: after.trace := by
  induction steps with
  | refl => exact List.prefix_refl _
  | tail steps step ih => exact ih.trans step.trace_extends

theorem steps_of_callSteps {event : OxEvent}
    (taken : ∃ sdlEvent, .taken sdlEvent event ∈ ox.trace)
    (steps : ReflTransGen (CallStep platform mayHalt event) ox after) :
    ReflTransGen (OxStep platform mayHalt) ox after := by
  induction steps with
  | refl => exact .refl
  | tail steps step ih =>
      obtain ⟨sdlEvent, member⟩ := taken
      exact .tail ih (.call ⟨sdlEvent, (steps_trace_extends ih).subset member⟩ step)

end Paths

/-- What it takes of a relation to hold between the beginning and the end of every run. -/
structure RunRule {Sdl World : Type} (platform : Platform Sdl World) (mayHalt : Prop)
    (related : Ox Sdl World → Ox Sdl World → Prop) : Prop where
  refl : ∀ ox, related ox ox
  trans : ∀ {ox between after}, related ox between → related between after → related ox after
  api : ∀ {ox after}, ApiStep platform ox after → related ox after
  call : ∀ ox callback userData event, (∃ sdlEvent, .taken sdlEvent event ∈ ox.trace) →
    Unhurt mayHalt (ox.call platform callback userData event).2 →
      related ox (ox.call platform callback userData event).1
  waited : ∀ {ox answer sdl} uninitialised,
    platform.waitEvent ox.translator.sdl = some (answer, sdl) →
      related ox ((ox.withSdl sdl).note (answer.seen ox.translator uninitialised))
  rendered : ∀ ox trace, related ox (ox.note (.rendered trace))
  registered : ∀ ox renderCb userData,
    related ox { ox with display := (oxRegisterRenderCb ox.display renderCb userData).1 }

namespace RunRule

open Relation Ox

variable {Sdl World : Type} {platform : Platform Sdl World} {mayHalt : Prop}
  {related : Ox Sdl World → Ox Sdl World → Prop}

theorem apiSteps (rule : RunRule platform mayHalt related) {ox after : Ox Sdl World}
    (steps : ReflTransGen (ApiStep platform) ox after) : related ox after := by
  induction steps with
  | refl => exact rule.refl ox
  | tail steps step ih => exact rule.trans ih (rule.api step)

theorem deliver (rule : RunRule platform mayHalt related) {event : OxEvent} {fuel : Nat}
    {ox : Ox Sdl World} {cursor : Option SubSlot}
    (taken : ∃ sdlEvent, .taken sdlEvent event ∈ ox.trace)
    (unhurt : Unhurt mayHalt (ox.deliver platform event fuel cursor).2) :
    related ox (ox.deliver platform event fuel cursor).1 := by
  let isTaken (ox : Ox Sdl World) := ∃ sdlEvent, Activity.taken sdlEvent event ∈ ox.trace
  have both : isTaken ox → related ox (ox.deliver platform event fuel cursor).1 ∧
      isTaken (ox.deliver platform event fuel cursor).1 :=
    deliver_rule (fun ox after => isTaken ox → related ox after ∧ isTaken after)
      (fun ox known => ⟨rule.refl ox, known⟩)
      (fun first second known =>
        have between := first known
        have after := second between.2
        ⟨rule.trans between.1 after.1, after.2⟩)
      (fun ox callback userData returned known =>
        ⟨rule.call ox callback userData event known returned,
          known.imp fun _ member =>
            (callSteps_trace_extends (call_path platform mayHalt ox callback userData event
              returned)).subset member⟩)
      fuel ox cursor unhurt
  exact (both taken).1

theorem await (rule : RunRule platform mayHalt related) (uninitialised : OxEvent) (waits : Nat)
    (ox : Ox Sdl World) : related ox (ox.await platform uninitialised waits).1 := by
  induction waits generalizing ox with
  | zero => exact rule.refl ox
  | succ waits ih =>
      rw [Ox.await]
      cases answered : platform.waitEvent ox.translator.sdl with
      | none => exact rule.refl ox
      | some result =>
          obtain ⟨answer, sdl⟩ := result
          have here := rule.waited uninitialised answered
          cases answer with
          | failure => exact here
          | event sdlEvent now =>
              rw [WaitAnswer.seen] at here
              cases translated : oxiFromSdlEvent ox.translator now sdlEvent uninitialised with
              | none =>
                  rw [translated] at here
                  simp only [translated]
                  exact rule.trans here (ih _)
              | some event =>
                  rw [translated] at here
                  simp only [translated]
                  exact here

theorem await_taken {uninitialised event : OxEvent} {waits : Nat} {ox after : Ox Sdl World}
    (awaited : ox.await platform uninitialised waits = (after, .ok (some event))) :
    ∃ sdlEvent, Activity.taken sdlEvent event ∈ after.trace := by
  induction waits generalizing ox with
  | zero => simp [Ox.await] at awaited
  | succ waits ih =>
      rw [Ox.await] at awaited
      cases answered : platform.waitEvent ox.translator.sdl with
      | none => simp [answered] at awaited
      | some result =>
          obtain ⟨answer, sdl⟩ := result
          cases answer with
          | failure => simp [answered] at awaited
          | event sdlEvent now =>
              cases translated : oxiFromSdlEvent ox.translator now sdlEvent uninitialised with
              | none =>
                  simp only [answered, translated] at awaited
                  exact ih awaited
              | some taken =>
                  simp only [answered, translated, Prod.mk.injEq, Except.ok.injEq,
                    Option.some.injEq] at awaited
                  obtain ⟨rfl, rfl⟩ := awaited
                  exact ⟨sdlEvent, List.mem_append_right _ (List.mem_singleton.mpr rfl)⟩

theorem dispatchNext (rule : RunRule platform mayHalt related) (waits : Nat) (ox : Ox Sdl World)
    (unhurt : Unhurt mayHalt (ox.dispatchNext platform waits).2) :
    related ox (ox.dispatchNext platform waits).1 := by
  have first := rule.await (platform.uninitialised ox.trace) waits ox
  rw [Ox.dispatchNext] at unhurt ⊢
  rcases awaited : ox.await platform (platform.uninitialised ox.trace) waits with ⟨after, result⟩
  rw [awaited] at first unhurt
  match result with
  | .error stop => exact first
  | .ok none => exact first
  | .ok (some event) =>
      cases here : topicIndex event.type with
      | none =>
          simp only [here]
          exact first
      | some topic =>
          simp only [here] at unhurt ⊢
          exact rule.trans first (rule.deliver (await_taken awaited) unhurt)

theorem render (rule : RunRule platform mayHalt related) (ox : Ox Sdl World) :
    related ox (ox.render platform).1 := by
  rw [Ox.render]
  split
  · exact rule.refl ox
  · exact rule.rendered ox _

theorem mainLoop (rule : RunRule platform mayHalt related) (waits rounds : Nat)
    (ox : Ox Sdl World) (unhurt : Unhurt mayHalt (ox.mainLoop platform waits rounds).2) :
    related ox (ox.mainLoop platform waits rounds).1 := by
  induction rounds generalizing ox with
  | zero => exact rule.refl ox
  | succ rounds ih =>
      rw [Ox.mainLoop] at unhurt ⊢
      split
      case isTrue => exact rule.refl ox
      case isFalse running =>
        rw [if_neg running] at unhurt
        have dispatches := rule.dispatchNext waits ox
        rcases dispatched : ox.dispatchNext platform waits with ⟨between, stop⟩
        rw [dispatched] at dispatches
        simp only [dispatched] at unhurt
        cases stop with
        | some stop => exact dispatches unhurt
        | none =>
            have renders := rule.render between
            rcases rendered : between.render platform with ⟨after, stop⟩
            rw [rendered] at renders
            simp only [rendered] at unhurt ⊢
            have here := rule.trans (dispatches .none) renders
            cases stop with
            | some stop => exact here
            | none => exact rule.trans here (ih after unhurt)

theorem setUp (rule : RunRule platform mayHalt related) (ox : Ox Sdl World) :
    related ox (ox.setUp platform) :=
  rule.trans (rule.api (.subscribed ox _)) (rule.registered _ _ _)

theorem kernel (rule : RunRule platform mayHalt related) (calls : List ApiCall)
    (waits rounds : Nat) (ox : Ox Sdl World)
    (unhurt : Unhurt mayHalt (ox.kernel platform calls waits rounds).2) :
    related ox (ox.kernel platform calls waits rounds).1 := by
  have loads := rule.apiSteps (apis_steps platform ox calls)
  rw [Ox.kernel] at unhurt ⊢
  rcases loaded : runUntil (Ox.api platform) ox calls with ⟨between, stop⟩
  rw [loaded] at loads
  simp only [loaded] at unhurt
  cases stop with
  | some stop => exact loads
  | none =>
      have shows := rule.trans loads (rule.trans (rule.setUp between) (rule.render _))
      rcases rendered : (between.setUp platform).render platform with ⟨after, stop⟩
      rw [rendered] at shows
      simp only [rendered] at unhurt ⊢
      cases stop with
      | some stop => exact shows
      | none => exact rule.trans shows (rule.mainLoop waits rounds after unhurt)

end RunRule

section Steps

open Relation

variable {Sdl World : Type} (platform : Platform Sdl World)

theorem steps_rule (mayHalt : Prop) :
    RunRule platform mayHalt (ReflTransGen (OxStep platform mayHalt)) where
  refl _ := .refl
  trans := .trans
  api step := .single (.api step)
  call ox callback userData event taken returned :=
    steps_of_callSteps taken (Ox.call_path platform mayHalt ox callback userData event returned)
  waited uninitialised answered := .single (.waited uninitialised answered)
  rendered ox trace := .single (.rendered ox trace)
  registered ox renderCb userData := .single (.registered ox renderCb userData)

namespace Ox

theorem dispatchNext_steps (waits : Nat) (ox : Ox Sdl World) :
    ReflTransGen (OxStep platform True) ox (ox.dispatchNext platform waits).1 :=
  (steps_rule platform True).dispatchNext waits ox (.inl trivial)

theorem render_steps (ox : Ox Sdl World) :
    ReflTransGen (OxStep platform True) ox (ox.render platform).1 :=
  (steps_rule platform True).render ox

theorem mainLoop_steps (waits rounds : Nat) (ox : Ox Sdl World) :
    ReflTransGen (OxStep platform True) ox (ox.mainLoop platform waits rounds).1 :=
  (steps_rule platform True).mainLoop waits rounds ox (.inl trivial)

theorem kernel_steps (calls : List ApiCall) (waits rounds : Nat) (ox : Ox Sdl World) :
    ReflTransGen (OxStep platform True) ox (ox.kernel platform calls waits rounds).1 :=
  (steps_rule platform True).kernel calls waits rounds ox (.inl trivial)

end Ox

end Steps

end YakUnshorn
