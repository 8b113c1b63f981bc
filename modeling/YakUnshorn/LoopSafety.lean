import YakUnshorn.DisplayMisuse
import YakUnshorn.LoopCalls

/-!
Why a run of the kernel can end early. Whatever `rand` gives and whatever its modules ask
for, the walks, tables and translations of the kernel itself do not go wrong.
-/

namespace YakUnshorn

open CMachine StepRuns Relation

def commandsMax : Nat := 357913941

structure Sturdy {Sdl World : Type} (ox : Ox Sdl World) : Prop where
  descending : Descending ox.eventSystem
  walkable : ox.display.Walkable
  last : ox.translator.cmdEventTypeLast = 6 * commandsPublished ox.trace - 1
  representable : ox.translator.cmdEventTypeLast < 2 ^ 31

inductive ApiBlamed {Sdl World : Type} (calls : List ApiCall) (after : Ox Sdl World) :
    Interruption → Prop
  | overflow (many : commandsPublished after.trace = commandsMax) :
      ApiBlamed calls after .overflow
  | null (asked : .publish none ∈ calls) : ApiBlamed calls after (.halt (.fault .nullDereference))

/-- What may interrupt a run, and whose doing it is. The calls are those that are made before the
loop begins. -/
inductive Excused {Sdl World : Type} (platform : Platform Sdl World) (calls : List ApiCall)
    (after : Ox Sdl World) : Interruption → Prop
  | cut : Excused platform calls after .cut
  | waiting (none : platform.waitEvent after.translator.sdl = none) :
      Excused platform calls after .waiting
  | loading {stop : Interruption} (blamed : ApiBlamed calls after stop) :
      Excused platform calls after stop
  | halted {halt : Halt} {callback userData : Pointer} {event : OxEvent} {before : List Activity}
      (last : after.trace = before ++ [.called callback userData event])
      (stopped : platform.code after.world callback userData event = .error halt) :
      Excused platform calls after (.halt halt)
  | asked {stop : Interruption} {callback userData : Pointer} {event : OxEvent}
      {before world : World} {made : List ApiCall}
      (called : .called callback userData event ∈ after.trace)
      (returned : platform.code before callback userData event = .ok (made, world))
      (blamed : ApiBlamed made after stop) : Excused platform calls after stop

section Sturdiness

variable {Sdl World : Type} {platform : Platform Sdl World} {mayHalt : Prop}
  {ox after : Ox Sdl World}

theorem sturdy_fresh (sdl : Sdl) (renderer : Pointer) (world : World) :
    Sturdy (Ox.fresh sdl renderer world) where
  descending := descending_fresh
  walkable := .fresh renderer
  last := rfl
  representable := by simp [Ox.fresh, programStart]

theorem Sturdy.note (sturdy : Sturdy ox) {activity : Activity}
    (other : activity.publishesCommand = false) (trace : after.trace = ox.trace ++ [activity])
    (eventSystem : after.eventSystem = ox.eventSystem) (display : after.display = ox.display)
    (last : after.translator.cmdEventTypeLast = ox.translator.cmdEventTypeLast) :
    Sturdy after where
  descending := eventSystem ▸ sturdy.descending
  walkable := display ▸ sturdy.walkable
  last := by rw [last, trace, commandsPublished_other other, sturdy.last]
  representable := last ▸ sturdy.representable

theorem ApiStep.sturdy (step : ApiStep platform ox after) (sturdy : Sturdy ox) :
    Sturdy after := by
  cases step with
  | subscribed call =>
      have noted : Sturdy (ox.note (.subscribed ⟨call, platform.rand ox.draws⟩)) :=
        sturdy.note rfl rfl rfl rfl rfl
      exact ⟨noted.descending.subscribeDrawn _, noted.walkable, noted.last, noted.representable⟩
  | @published event pushed translator returned =>
      obtain ⟨oxEvent, rfl, ⟨isQuit, -, shape⟩ | ⟨isCommand, type, middle, typed, -, shape⟩ |
        ⟨-, notCommand, -, rfl⟩⟩ := oxiPublishEvent_cases returned
      · refine sturdy.note ?_ rfl rfl rfl ?_
        · simp only [Activity.publishesCommand, publishesCommand, Option.any_some, isQuit]
          decide
        · rw [shape]
      · obtain ⟨-, -, lastEq, -, bound⟩ := getCmdEventType_some typed
        have last := sturdy.last
        have same : translator.cmdEventTypeLast = middle.cmdEventTypeLast := by rw [shape]
        have another : commandsPublished (ox.trace ++ [.published (some oxEvent) pushed]) =
            commandsPublished ox.trace + 1 := by
          simp [commandsPublished_concat, Activity.publishesCommand, publishesCommand, isCommand]
        refine ⟨sturdy.descending, sturdy.walkable, ?_, ?_⟩
        · simp only [Ox.note, same, lastEq, another, last]
          omega
        · simp only [same, lastEq]
          omega
      · refine sturdy.note ?_ rfl rfl rfl rfl
        simpa [Activity.publishesCommand, publishesCommand] using notCommand

theorem quit_display (ox : Ox Sdl World) (event : OxEvent) :
    (ox.quit event).display = ox.display := by
  rw [Ox.quit]
  split <;> rfl

theorem CallStep.sturdy {event : OxEvent} (step : CallStep platform mayHalt event ox after)
    (sturdy : Sturdy ox) : Sturdy after := by
  cases step with
  | api step => exact step.sturdy sturdy
  | quit userData =>
      exact sturdy.note rfl (Ox.trace_quit _ _) (quit_eventSystem _ _) (quit_display _ _)
        (by rw [quit_translator]; rfl)
  | ran foreign returned => exact sturdy.note rfl rfl rfl rfl rfl
  | halted allowed foreign stopped => exact sturdy.note rfl rfl rfl rfl rfl

theorem callSteps_sturdy {event : OxEvent}
    (steps : ReflTransGen (CallStep platform mayHalt event) ox after) (sturdy : Sturdy ox) :
    Sturdy after := by
  induction steps with
  | refl => exact sturdy
  | tail steps step ih => exact step.sturdy ih

theorem OxStep.sturdy (step : OxStep platform mayHalt ox after) (sturdy : Sturdy ox) :
    Sturdy after := by
  cases step with
  | api step => exact step.sturdy sturdy
  | call taken step => exact step.sturdy sturdy
  | waited uninitialised answered =>
      exact sturdy.note (seen_publishes _ _ _) rfl rfl rfl rfl
  | rendered trace => exact sturdy.note rfl rfl rfl rfl rfl
  | registered renderCb userData =>
      exact ⟨sturdy.descending, sturdy.walkable.apply (.register renderCb userData), sturdy.last,
        sturdy.representable⟩

theorem steps_sturdy (steps : ReflTransGen (OxStep platform mayHalt) ox after)
    (sturdy : Sturdy ox) : Sturdy after := by
  induction steps with
  | refl => exact sturdy
  | tail steps step ih => exact step.sturdy ih

theorem Sturdy.waitedFor (sturdy : Sturdy ox) (sdl : Sdl) {seen : List Activity}
    (quiet : ∀ activity ∈ seen, activity.publishesCommand = false) :
    Sturdy (ox.waitedFor sdl seen) where
  descending := sturdy.descending
  walkable := sturdy.walkable
  last := by
    have none : commandsPublished seen = 0 := by
      rw [commandsPublished, List.countP_eq_zero]
      exact fun activity member => by simp [quiet activity member]
    rw [Ox.waitedFor, commandsPublished, List.countP_append, ← commandsPublished,
      ← commandsPublished, none, Nat.add_zero]
    exact sturdy.last
  representable := sturdy.representable

theorem Sturdy.rendered (sturdy : Sturdy ox) (trace : RenderTrace) :
    Sturdy (ox.note (.rendered trace)) :=
  sturdy.note rfl rfl rfl rfl rfl

end Sturdiness

section Blaming

variable {Sdl World : Type} {platform : Platform Sdl World} {ox after : Ox Sdl World}
  {calls : List ApiCall}

/-- With a translation that has not overflowed yet, publishing fails for the reasons it has. -/
theorem Sturdy.publish_blamed (sturdy : Sturdy ox) {event : Option OxEvent} {stop : Interruption}
    (stopped : ox.publish platform event = (after, some stop)) :
    ApiBlamed [.publish event] after stop := by
  cases event with
  | none =>
      cases stopped
      exact .null (List.mem_singleton.mpr rfl)
  | some oxEvent =>
      by_cases isCommand : oxEvent.type = OxEventType.command.code
      · have last := sturdy.last
        have below := sturdy.representable
        by_cases room : ox.translator.cmdEventTypeLast + 7 < 2 ^ 31
        · rw [Ox.publish, oxiPublishEvent, oxiToSdlEvent_command _ isCommand, getCmdEventType_eq,
            cInt_eq_some (by omega) room, Option.bind_some, cInt_eq_some (by omega) (by omega)]
            at stopped
          cases stopped
        · have overflows : cInt (ox.translator.cmdEventTypeLast + 7) = none := by
            rw [cInt, if_neg (by omega)]
          rw [Ox.publish, oxiPublishEvent, oxiToSdlEvent_command _ isCommand, getCmdEventType_eq,
            overflows] at stopped
          cases stopped
          refine .overflow ?_
          rw [commandsMax]
          omega
      · by_cases isQuit : oxEvent.type = OxEventType.quit.code
        · rw [Ox.publish, oxiPublishEvent, oxiToSdlEvent_quit isQuit] at stopped
          cases stopped
        · rw [Ox.publish, oxiPublishEvent, oxiToSdlEvent_unknown isQuit isCommand] at stopped
          cases stopped

theorem ApiBlamed.mono {more : List ApiCall} {stop : Interruption}
    (blamed : ApiBlamed calls after stop) (among : calls ⊆ more) : ApiBlamed more after stop := by
  cases blamed with
  | overflow many => exact .overflow many
  | null asked => exact .null (among asked)

theorem Sturdy.apis_blamed (sturdy : Sturdy ox) {stop : Interruption}
    (stopped : runUntil (Ox.api platform) ox calls = (after, some stop)) :
    ApiBlamed calls after stop := by
  induction calls generalizing ox with
  | nil => cases stopped
  | cons apiCall rest ih =>
      rcases made : ox.api platform apiCall with ⟨between, first⟩
      cases first with
      | none =>
          rw [runUntil_cons_none rest made] at stopped
          have later := ih ((Ox.api_step made).sturdy sturdy) stopped
          exact later.mono (List.subset_cons_self _ _)
      | some first =>
          rw [runUntil_cons_some rest made] at stopped
          cases stopped
          cases apiCall with
          | subscribe call => cases made
          | publish event => exact (sturdy.publish_blamed made).mono (by simp)

theorem Sturdy.call_excused (sturdy : Sturdy ox) {callback userData : Pointer} {event : OxEvent}
    {stop : Interruption}
    (stopped : ox.call platform callback userData event = (after, some stop)) :
    Excused platform calls after stop := by
  rw [Ox.call] at stopped
  split at stopped
  case isTrue => cases stopped
  case isFalse foreign =>
    cases returned : platform.code ox.world callback userData event with
    | error halt =>
        simp only [Ox.note, returned] at stopped
        cases stopped
        exact .halted rfl returned
    | ok result =>
        obtain ⟨made, world⟩ := result
        simp only [Ox.note, returned] at stopped
        have ran : CallStep platform True event ox
            { ox.note (.called callback userData event) with world } := .ran foreign returned
        have steps := Ox.apis_steps platform
          { ox.note (.called callback userData event) with world } made
        simp only [Ox.note] at steps
        rw [stopped] at steps
        have earlier := steps_trace_extends ((steps_rule platform True).apiSteps steps)
        refine .asked (earlier.subset ?_) returned ((ran.sturdy sturdy).apis_blamed stopped)
        exact List.mem_append_right _ (List.mem_singleton.mpr rfl)

theorem Sturdy.deliver_excused (sturdy : Sturdy ox) {event : OxEvent} {cursor : Option SubSlot}
    {entries : List Entry} (remaining : Remaining ox.eventSystem cursor entries) {fuel : Nat}
    (enough : entries.length ≤ fuel) {stop : Interruption}
    (stopped : ox.deliver platform event fuel cursor = (after, some stop)) :
    Excused platform calls after stop := by
  induction entries generalizing ox cursor fuel with
  | nil =>
      rw [remaining.nil] at stopped
      cases fuel <;> cases stopped
  | cons entry rest ih =>
      obtain ⟨sub, rfl, -, -⟩ := remaining.uncons
      obtain ⟨fuel, rfl⟩ : ∃ less, fuel = less + 1 := ⟨fuel - 1, by
        rw [List.length_cons] at enough
        omega⟩
      rw [Ox.deliver] at stopped
      split at stopped
      case isTrue => cases stopped
      case isFalse =>
        have steps := Ox.call_path platform True ox (ox.eventSystem.items sub).callback
          (ox.eventSystem.items sub).userData event (.inl trivial)
        rcases called : ox.call platform (ox.eventSystem.items sub).callback
          (ox.eventSystem.items sub).userData event with ⟨between, first⟩
        rw [called] at steps
        simp only [called] at stopped
        cases first with
        | some first =>
            cases stopped
            exact sturdy.call_excused called
        | none =>
            have sturdyThen := callSteps_sturdy steps sturdy
            obtain ⟨same, sameSub, -, later⟩ := (callSteps_remaining steps remaining).uncons
            rw [← Option.some.inj sameSub] at later
            exact ih sturdyThen later (Nat.le_of_succ_le_succ enough) stopped

theorem Sturdy.dispatchNext_excused (sturdy : Sturdy ox) {waits : Nat} {stop : Interruption}
    (stopped : ox.dispatchNext platform waits = (after, some stop)) :
    Excused platform calls after stop := by
  obtain ⟨passed, sdl, skips, dispatched⟩ := dispatchNext_cases platform waits ox
  generalize ox.dispatchNext platform waits = result at dispatched stopped
  cases dispatched with
  | stopped noEvent =>
      cases stopped
      cases noEvent with
      | cut => exact .cut
      | waiting none => exact .waiting none
  | failed => cases stopped
  | @taken sdlEvent event topic known =>
      obtain ⟨entries, remaining⟩ := sturdy.descending.remaining topic
      have quiet : ∀ activity ∈ passed ++ [.taken sdlEvent event],
          activity.publishesCommand = false := by
        refine List.forall_mem_append.mpr ⟨fun activity member => ?_, ?_⟩
        · have skip := skips activity member
          cases activity <;> first | rfl | cases skip
        · simp [Activity.publishesCommand]
      have waited := sturdy.waitedFor sdl quiet
      exact waited.deliver_excused remaining remaining.length_le stopped

variable (platform) in
theorem Sturdy.render_returns (sturdy : Sturdy ox) :
    ∃ trace, ox.render platform = (ox.note (.rendered trace), none) := by
  obtain ⟨trace, rendered⟩ := sturdy.walkable.renders (platform.painted ox.trace)
  exact ⟨trace, by rw [Ox.render, rendered]⟩

theorem Sturdy.mainLoop_excused (sturdy : Sturdy ox) {waits rounds : Nat} {stop : Interruption}
    (stopped : ox.mainLoop platform waits rounds = (after, some stop)) :
    Excused platform calls after stop := by
  induction rounds generalizing ox with
  | zero =>
      rw [Ox.mainLoop] at stopped
      split at stopped
      · cases stopped
      · cases stopped
        exact .cut
  | succ rounds ih =>
      rw [Ox.mainLoop] at stopped
      split at stopped
      case isTrue => cases stopped
      case isFalse =>
        have steps := Ox.dispatchNext_steps platform waits ox
        rcases dispatched : ox.dispatchNext platform waits with ⟨between, pause⟩
        rw [dispatched] at steps
        simp only [dispatched] at stopped
        cases pause with
        | some pause =>
            cases stopped
            exact sturdy.dispatchNext_excused dispatched
        | none =>
            have sturdyThen := steps_sturdy steps sturdy
            obtain ⟨trace, rendered⟩ := sturdyThen.render_returns platform
            simp only [rendered] at stopped
            exact ih (sturdyThen.rendered trace) stopped

variable (platform) in
/-- Whatever ids `rand` gives, and whatever the modules subscribe and publish and when, a run of the
kernel is interrupted only where a module halts or publishes NULL, or at the one command that has no
room any more, or while it waits. -/
theorem stops_excused (sdl : Sdl) (renderer : Pointer) (world : World) (calls : List ApiCall)
    (waits rounds : Nat) {stop : Interruption}
    (stopped : (platform.run sdl renderer world calls waits rounds).2 = some stop) :
    Excused platform calls (platform.run sdl renderer world calls waits rounds).1 stop := by
  have sturdy : Sturdy (Ox.fresh sdl renderer world) := sturdy_fresh sdl renderer world
  have loads := (steps_rule platform True).apiSteps
    (Ox.apis_steps platform (Ox.fresh sdl renderer world) calls)
  rw [Platform.run, Ox.kernel] at stopped ⊢
  rcases loaded : runUntil (Ox.api platform) (Ox.fresh sdl renderer world) calls with
    ⟨between, early⟩
  rw [loaded] at loads
  simp only [loaded] at stopped ⊢
  cases early with
  | some early =>
      cases stopped
      exact .loading (sturdy.apis_blamed loaded)
  | none =>
      have ready := steps_sturdy ((steps_rule platform True).setUp between)
        (steps_sturdy loads sturdy)
      obtain ⟨trace, rendered⟩ := ready.render_returns platform
      simp only [rendered] at stopped ⊢
      exact (ready.rendered trace).mainLoop_excused (Prod.ext rfl stopped)

theorem stops_excused_null :
    Excused idlePlatform [.publish none]
      (idlePlatform.run (0, []) 0x90 () [.publish none] 4 4).1 (.halt (.fault .nullDereference)) :=
  stops_excused idlePlatform (0, []) 0x90 () [.publish none] 4 4 (by decide)

end Blaming

end YakUnshorn
