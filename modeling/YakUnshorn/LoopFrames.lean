import YakUnshorn.LoopSafety

/-!
When a run of the kernel draws, and what: one frame before it first waits, and one for
each wait that ended, after all that the modules did about it.
-/

namespace YakUnshorn

open CMachine StepRuns History Relation

def Activity.isFrame : Activity → Bool
  | .rendered _ => true
  | _ => false

/-- A dispatch is done waiting: an event was taken, or `SDL_WaitEvent` failed. -/
def Activity.endsWait : Activity → Bool
  | .taken _ _ => true
  | .waitFailed => true
  | _ => false

def framesIn (trace : List Activity) : Nat := trace.countP Activity.isFrame

def waitsEnded (trace : List Activity) : Nat := trace.countP Activity.endsWait

def UpToDate (trace : List Activity) : Prop := framesIn trace = waitsEnded trace + 1

def Stale (trace : List Activity) : Prop := framesIn trace = waitsEnded trace

/-- The kernel waits only when what it shows is up to date, and modules run and frames are drawn
only when it is not. A frame is one call of the callback of `main`. -/
def Paced (renderCallback renderer : Pointer) (before : List Activity) : Activity → Prop
  | .taken _ _ => UpToDate before
  | .skipped _ => UpToDate before
  | .waitFailed => UpToDate before
  | .rendered trace => Stale before ∧ ∃ painted,
      trace = ([(⟨renderCallback, renderer, 0⟩, painted)], !painted)
  | _ => Stale before

theorem framesIn_concat (trace : List Activity) (activity : Activity) :
    framesIn (trace ++ [activity]) = framesIn trace + if activity.isFrame then 1 else 0 := by
  simp [framesIn, List.countP_singleton]

theorem waitsEnded_concat (trace : List Activity) (activity : Activity) :
    waitsEnded (trace ++ [activity]) = waitsEnded trace + if activity.endsWait then 1 else 0 := by
  simp [waitsEnded, List.countP_singleton]

section Pacing

variable {Sdl World : Type} {platform : Platform Sdl World} {mayHalt : Prop} {renderer : Pointer}
  {display : OxDisplay} {ox after : Ox Sdl World}

structure Owing (platform : Platform Sdl World) (renderer : Pointer) (display : OxDisplay)
    (ox : Ox Sdl World) : Prop where
  paced : Throughout (Paced platform.renderCallback renderer) ox.trace
  stale : Stale ox.trace
  shows : ox.display = display

structure Drawn (platform : Platform Sdl World) (renderer : Pointer) (display : OxDisplay)
    (ox : Ox Sdl World) : Prop where
  paced : Throughout (Paced platform.renderCallback renderer) ox.trace
  upToDate : UpToDate ox.trace
  shows : ox.display = display

theorem Owing.note (owing : Owing platform renderer display ox) {activity : Activity}
    (other : activity.isAnswer = false ∧ activity.isFrame = false)
    (trace : after.trace = ox.trace ++ [activity]) (same : after.display = ox.display) :
    Owing platform renderer display after where
  paced := by
    rw [trace, throughout_concat]
    refine ⟨owing.paced, ?_⟩
    cases activity <;>
      first | exact owing.stale | simp [Activity.isAnswer, Activity.isFrame] at other
  stale := by
    have ends : activity.endsWait = false := by
      cases activity <;> first | rfl | simp [Activity.isAnswer] at other
    rw [Stale, trace, framesIn_concat, waitsEnded_concat, other.2, ends]
    exact owing.stale
  shows := same.trans owing.shows

theorem ApiStep.owing (step : ApiStep platform ox after)
    (owing : Owing platform renderer display ox) : Owing platform renderer display after := by
  cases step with
  | subscribed call => exact owing.note ⟨rfl, rfl⟩ rfl rfl
  | published returned => exact owing.note ⟨rfl, rfl⟩ rfl rfl

theorem CallStep.owing {event : OxEvent} (step : CallStep platform mayHalt event ox after)
    (owing : Owing platform renderer display ox) : Owing platform renderer display after := by
  cases step with
  | api step => exact step.owing owing
  | quit userData => exact owing.note ⟨rfl, rfl⟩ (Ox.trace_quit _ _) (quit_display _ _)
  | ran foreign returned => exact owing.note ⟨rfl, rfl⟩ rfl rfl
  | halted allowed foreign stopped => exact owing.note ⟨rfl, rfl⟩ rfl rfl

theorem apiSteps_owing (steps : ReflTransGen (ApiStep platform) ox after)
    (owing : Owing platform renderer display ox) : Owing platform renderer display after := by
  induction steps with
  | refl => exact owing
  | tail steps step ih => exact step.owing ih

theorem callSteps_owing {event : OxEvent}
    (steps : ReflTransGen (CallStep platform mayHalt event) ox after)
    (owing : Owing platform renderer display ox) : Owing platform renderer display after := by
  induction steps with
  | refl => exact owing
  | tail steps step ih => exact step.owing ih

theorem owing_fresh (platform : Platform Sdl World) (sdl : Sdl) (renderer : Pointer)
    (world : World) :
    Owing platform renderer (oxiMakeDisplay renderer) (Ox.fresh sdl renderer world) where
  paced := throughout_nil _
  stale := rfl
  shows := rfl

def Platform.shown (platform : Platform Sdl World) (renderer : Pointer) : OxDisplay :=
  (oxRegisterRenderCb (oxiMakeDisplay renderer) platform.renderCallback 0).1

theorem Owing.setUp (owing : Owing platform renderer (oxiMakeDisplay renderer) ox) :
    Owing platform renderer (platform.shown renderer) (ox.setUp platform) := by
  have step : ApiStep platform ox (ox.subscribe platform platform.quitCall) := .subscribed ox _
  have subscribed := step.owing owing
  refine ⟨subscribed.paced, subscribed.stale, ?_⟩
  rw [Platform.shown, ← subscribed.shows]
  rfl

theorem shown_renders (callable : platform.renderCallback ≠ 0) (result : Nat → Bool) :
    oxiRenderAndPresent result (platform.shown renderer) =
      .ok ([(⟨platform.renderCallback, renderer, 0⟩, result 0)], !result 0) := by
  have unlinked : (oxiMakeDisplay renderer).Unlinked := fun _ => rfl
  have found : availRenderCb (oxiMakeDisplay renderer) = some ⟨0, by decide⟩ := rfl
  obtain ⟨unlinkedNow, first, same, callback⟩ :=
    oxRegisterRenderCb_spec unlinked 0 callable found rfl
  rw [Platform.shown, oxiRenderAndPresent_spec unlinkedNow, first]
  simp only [callback, same, Function.update_self, if_neg callable]
  rfl

theorem Owing.render (callable : platform.renderCallback ≠ 0)
    (owing : Owing platform renderer (platform.shown renderer) ox) :
    ∃ drawn, ox.render platform = (drawn, none) ∧
      Drawn platform renderer (platform.shown renderer) drawn := by
  let painted := platform.painted ox.trace 0
  refine ⟨ox.note (.rendered ([(⟨platform.renderCallback, renderer, 0⟩, painted)], !painted)),
    ?_, ?_, ?_, owing.shows⟩
  · rw [Ox.render, owing.shows, shown_renders callable]
  · rw [Ox.note, throughout_concat]
    exact ⟨owing.paced, owing.stale, painted, rfl⟩
  · rw [UpToDate, Ox.note, framesIn_concat, waitsEnded_concat]
    exact congrArg (· + 1) owing.stale

theorem skips_paced {callback : Pointer} {trace passed : List Activity}
    (skips : ∀ activity ∈ passed, activity.isSkip = true)
    (paced : Throughout (Paced callback renderer) trace) (upToDate : UpToDate trace) :
    Throughout (Paced callback renderer) (trace ++ passed) ∧ UpToDate (trace ++ passed) := by
  induction passed using List.reverseRecOn with
  | nil => simpa using ⟨paced, upToDate⟩
  | append_singleton passed activity ih =>
      obtain ⟨pacedThen, upToDateThen⟩ := ih fun other member => skips other (by simp [member])
      have skip := skips activity (by simp)
      cases activity with
      | skipped sdlEvent =>
          rw [← List.append_assoc, throughout_concat]
          refine ⟨⟨pacedThen, upToDateThen⟩, ?_⟩
          rw [UpToDate, framesIn_concat, waitsEnded_concat]
          exact upToDateThen
      | _ => cases skip

theorem Drawn.answered (drawn : Drawn platform renderer display ox) (sdl : Sdl)
    {passed : List Activity} (skips : ∀ activity ∈ passed, activity.isSkip = true)
    {activity : Activity} (ends : activity.endsWait = true) :
    Owing platform renderer display (ox.waitedFor sdl (passed ++ [activity])) := by
  obtain ⟨paced, upToDate⟩ := skips_paced skips drawn.paced drawn.upToDate
  refine ⟨?_, ?_, drawn.shows⟩
  · rw [Ox.waitedFor, ← List.append_assoc, throughout_concat]
    refine ⟨paced, ?_⟩
    cases activity <;> first | exact upToDate | cases ends
  · have noFrame : activity.isFrame = false := by
      cases activity <;> first | rfl | cases ends
    rw [Stale, Ox.waitedFor, ← List.append_assoc, framesIn_concat, waitsEnded_concat, noFrame,
      ends]
    exact upToDate

/-- What was seen was seen in its time, and the last frame is up to date unless the run ended inside
a module. -/
def PacedThroughout (platform : Platform Sdl World) (renderer : Pointer)
    (run : Ox Sdl World × Option Interruption) : Prop :=
  Throughout (Paced platform.renderCallback renderer) run.1.trace ∧
    ((∀ stop, run.2 = some stop → stop.isFatal = false) → UpToDate run.1.trace)

theorem Drawn.dispatchNext (drawn : Drawn platform renderer display ox) (waits : Nat) :
    (∃ stop, (ox.dispatchNext platform waits).2 = some stop ∧
        PacedThroughout platform renderer (ox.dispatchNext platform waits)) ∨
      ((ox.dispatchNext platform waits).2 = none ∧
        Owing platform renderer display (ox.dispatchNext platform waits).1) := by
  obtain ⟨passed, sdl, skips, dispatched⟩ := dispatchNext_cases platform waits ox
  generalize ox.dispatchNext platform waits = result at dispatched ⊢
  cases dispatched with
  | stopped noEvent =>
      obtain ⟨paced, upToDate⟩ := skips_paced skips drawn.paced drawn.upToDate
      exact .inl ⟨_, rfl, paced, fun _ => upToDate⟩
  | failed => exact .inr ⟨rfl, drawn.answered sdl skips rfl⟩
  | @taken sdlEvent event topic known =>
      have answered : Owing platform renderer display
          (ox.waitedFor sdl (passed ++ [.taken sdlEvent event])) := drawn.answered sdl skips rfl
      have owing := callSteps_owing (Ox.deliver_steps platform event subMax _
        (ox.eventSystem.topics topic)) answered
      cases stopped : (Ox.deliver platform event subMax
        (ox.waitedFor sdl (passed ++ [.taken sdlEvent event])) (ox.eventSystem.topics topic)).2 with
      | none => exact .inr ⟨rfl, owing⟩
      | some stop =>
          have fatal := deliver_fatal (Prod.ext rfl stopped)
          refine .inl ⟨stop, rfl, owing.paced, fun unhurt => ?_⟩
          rw [unhurt stop stopped] at fatal
          cases fatal

theorem Drawn.mainLoop (callable : platform.renderCallback ≠ 0)
    (drawn : Drawn platform renderer (platform.shown renderer) ox) (waits rounds : Nat) :
    PacedThroughout platform renderer (ox.mainLoop platform waits rounds) := by
  induction rounds generalizing ox with
  | zero => exact ⟨drawn.paced, fun _ => drawn.upToDate⟩
  | succ rounds ih =>
      rw [Ox.mainLoop]
      split
      case isTrue => exact ⟨drawn.paced, fun _ => drawn.upToDate⟩
      case isFalse =>
        have dispatches := drawn.dispatchNext waits
        rcases dispatched : ox.dispatchNext platform waits with ⟨between, stop⟩
        rw [dispatched] at dispatches
        rcases dispatches with ⟨stop, rfl, paced⟩ | ⟨rfl, owing⟩
        · exact paced
        · obtain ⟨shown, rendered, drawnThen⟩ := owing.render callable
          simp only [rendered]
          exact ih drawnThen

/-- Over a whole run of the kernel, whatever its modules do, it draws once before it first waits and
then once for each wait that ended, after all that was called for it. It never waits with something
to draw, and every frame is one call of the callback of `main`, whatever that returns. -/
theorem frames_follow_events (platform : Platform Sdl World)
    (callable : platform.renderCallback ≠ 0) (sdl : Sdl) (renderer : Pointer) (world : World)
    (calls : List ApiCall) (waits rounds : Nat) :
    PacedThroughout platform renderer
      (platform.run sdl renderer world calls waits rounds) := by
  have loads := apiSteps_owing (Ox.apis_steps platform (Ox.fresh sdl renderer world) calls)
    (owing_fresh platform sdl renderer world)
  rw [Platform.run, Ox.kernel]
  rcases loaded : runUntil (Ox.api platform) (Ox.fresh sdl renderer world) calls with
    ⟨between, early⟩
  rw [loaded] at loads
  cases early with
  | some early =>
      refine ⟨loads.paced, fun unhurt => ?_⟩
      have fatal := apis_fatal loaded
      rw [unhurt early rfl] at fatal
      cases fatal
  | none =>
      obtain ⟨shown, rendered, drawn⟩ := loads.setUp.render callable
      simp only [rendered]
      exact drawn.mainLoop callable waits rounds

theorem frames_follow_events_two :
    PacedThroughout idlePlatform 0x90 (idlePlatform.run (0, []) 0x90 () quitForTwo 4 4) :=
  frames_follow_events idlePlatform (by decide) (0, []) 0x90 () quitForTwo 4 4

end Pacing

end YakUnshorn
