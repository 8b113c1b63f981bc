import YakUnshorn.LoopEvents

/-!
Which callbacks a run of the kernel calls for an event, whatever the modules publish and
subscribe meanwhile, and which quits end the loop of `main`.
-/

namespace YakUnshorn

open CMachine StepRuns History Relation

def Activity.call : Activity → Option CallbackCall
  | .called callback userData event => some (callback, userData, event)
  | _ => none

def Activity.draw : Activity → Option Draw
  | .subscribed draw => some draw
  | _ => none

def callsIn (trace : List Activity) : List CallbackCall := trace.filterMap Activity.call

def drawnIn (trace : List Activity) : List Draw := trace.filterMap Activity.draw

@[simp] theorem callsIn_concat (trace : List Activity) (activity : Activity) :
    callsIn (trace ++ [activity]) = callsIn trace ++ activity.call.toList := by
  cases seen : activity.call <;> simp [callsIn, seen]

@[simp] theorem drawnIn_concat (trace : List Activity) (activity : Activity) :
    drawnIn (trace ++ [activity]) = drawnIn trace ++ activity.draw.toList := by
  cases seen : activity.draw <;> simp [drawnIn, seen]

theorem seen_draw {Sdl : Type} (translator : Translator Sdl) (uninitialised : OxEvent)
    (answer : WaitAnswer) : (answer.seen translator uninitialised).draw = none := by
  cases answer with
  | failure => rfl
  | event sdlEvent now =>
      rw [WaitAnswer.seen]
      split <;> rfl

section Delivering

variable {Sdl World : Type} {platform : Platform Sdl World} {mayHalt : Prop} {event : OxEvent}
  {ox after : Ox Sdl World} {cursor : Option SubSlot} {entries : List Entry}

theorem quit_eventSystem (ox : Ox Sdl World) (event : OxEvent) :
    (ox.quit event).eventSystem = ox.eventSystem := by
  rw [Ox.quit]
  split <;> rfl

theorem CallStep.remaining (step : CallStep platform mayHalt event ox after)
    (remaining : Remaining ox.eventSystem cursor entries) :
    Remaining after.eventSystem cursor entries := by
  cases step with
  | api step =>
      cases step with
      | subscribed call => exact remaining.subscribeDrawn _
      | published returned => exact remaining
  | quit userData =>
      rw [quit_eventSystem]
      exact remaining
  | ran foreign returned => exact remaining
  | halted allowed foreign stopped => exact remaining

theorem callSteps_remaining (steps : ReflTransGen (CallStep platform mayHalt event) ox after)
    (remaining : Remaining ox.eventSystem cursor entries) :
    Remaining after.eventSystem cursor entries := by
  induction steps with
  | refl => exact remaining
  | tail steps step ih => exact step.remaining ih

theorem apiSteps_callsIn (steps : ReflTransGen (ApiStep platform) ox after) :
    callsIn after.trace = callsIn ox.trace := by
  induction steps with
  | refl => rfl
  | tail steps step ih => cases step <;> simpa [Ox.subscribe, Ox.note, Activity.call] using ih

variable (platform) in
theorem call_callsIn (ox : Ox Sdl World) (callback userData : Pointer) (event : OxEvent) :
    callsIn (ox.call platform callback userData event).1.trace =
      callsIn ox.trace ++ [(callback, userData, event)] := by
  rw [Ox.call]
  split
  case isTrue => simp [Ox.trace_quit, Ox.note, Activity.call]
  case isFalse =>
    cases returned : platform.code ox.world callback userData event with
    | error halt => simp [Ox.note, returned, Activity.call]
    | ok result =>
        simp only [Ox.note, returned]
        rw [apiSteps_callsIn (Ox.apis_steps platform _ result.1)]
        simp [Activity.call]

variable (platform event) in
/-- A delivery makes the calls of the callable subscriptions up to the first that is not, and all
of them unless it is interrupted. -/
theorem deliver_calls (remaining : Remaining ox.eventSystem cursor entries) {fuel : Nat}
    (enough : entries.length ≤ fuel) :
    ∃ made, made <+: (entries.takeWhile Entry.callable).map (Entry.call event) ∧
      callsIn (ox.deliver platform event fuel cursor).1.trace = callsIn ox.trace ++ made ∧
      ((ox.deliver platform event fuel cursor).2 = none →
        made = (entries.takeWhile Entry.callable).map (Entry.call event)) := by
  induction entries generalizing ox cursor fuel with
  | nil =>
      rw [remaining.nil]
      refine ⟨[], List.nil_prefix, ?_, fun _ => rfl⟩
      cases fuel <;> simp [Ox.deliver]
  | cons entry rest ih =>
      obtain ⟨sub, rfl, rfl, -⟩ := remaining.uncons
      obtain ⟨fuel, rfl⟩ : ∃ less, fuel = less + 1 := ⟨fuel - 1, by
        rw [List.length_cons] at enough
        omega⟩
      rw [List.length_cons] at enough
      by_cases null : (ox.eventSystem.items sub).callback = 0
      · have reached :
            ((ox.eventSystem.items sub).entry :: rest).takeWhile Entry.callable = [] := by
          simp [Entry.callable, OxSubscription.entry, null]
        rw [reached]
        refine ⟨[], List.nil_prefix, ?_, fun _ => rfl⟩
        simp [Ox.deliver, null]
      · have reached : ((ox.eventSystem.items sub).entry :: rest).takeWhile Entry.callable =
            (ox.eventSystem.items sub).entry :: rest.takeWhile Entry.callable := by
          simp [Entry.callable, OxSubscription.entry, null]
        have calls := call_callsIn platform ox (ox.eventSystem.items sub).callback
          (ox.eventSystem.items sub).userData event
        have steps := Ox.call_path platform True ox (ox.eventSystem.items sub).callback
          (ox.eventSystem.items sub).userData event (.inl trivial)
        rw [reached, Ox.deliver]
        rcases called : ox.call platform (ox.eventSystem.items sub).callback
          (ox.eventSystem.items sub).userData event with ⟨between, stop⟩
        rw [called] at calls steps
        simp only [null, ↓reduceIte]
        cases stop with
        | some stop =>
            refine ⟨[Entry.call event (ox.eventSystem.items sub).entry], ?_, calls, by simp⟩
            exact List.cons_prefix_cons.mpr ⟨rfl, List.nil_prefix⟩
        | none =>
            obtain ⟨same, sameSub, -, later⟩ := (callSteps_remaining steps remaining).uncons
            rw [← Option.some.inj sameSub] at later
            obtain ⟨made, before, all, whole⟩ := ih later (Nat.le_of_succ_le_succ enough)
            refine ⟨Entry.call event (ox.eventSystem.items sub).entry :: made, ?_, ?_, ?_⟩
            · exact List.cons_prefix_cons.mpr ⟨rfl, before⟩
            · rw [all, calls]
              simp [Entry.call, OxSubscription.entry]
            · intro complete
              rw [whole complete]
              rfl

end Delivering

section Dispatching

variable {Sdl World : Type} {platform : Platform Sdl World} {mayHalt : Prop}

def Ox.waitedFor (ox : Ox Sdl World) (sdl : Sdl) (seen : List Activity) : Ox Sdl World :=
  { ox with translator := { ox.translator with sdl }, trace := ox.trace ++ seen }

def Activity.isSkip : Activity → Bool
  | .skipped _ => true
  | _ => false

/-- The loop that waits comes to no event: it is not followed any further, or SDL has none. -/
inductive NoEvent (platform : Platform Sdl World) (waits : Nat) (passed : List Activity)
    (sdl : Sdl) : Interruption → Prop
  | cut (all : passed.length = waits) : NoEvent platform waits passed sdl .cut
  | waiting (none : platform.waitEvent sdl = none) : NoEvent platform waits passed sdl .waiting

inductive Awaited (platform : Platform Sdl World) (waits : Nat) (ox : Ox Sdl World)
    (passed : List Activity) (sdl : Sdl) :
    Ox Sdl World × Except Interruption (Option OxEvent) → Prop
  | stopped {stop : Interruption} (noEvent : NoEvent platform waits passed sdl stop) :
      Awaited platform waits ox passed sdl (ox.waitedFor sdl passed, .error stop)
  | failed :
      Awaited platform waits ox passed sdl (ox.waitedFor sdl (passed ++ [.waitFailed]), .ok none)
  | taken {sdlEvent : SdlEvent} {event : OxEvent} {topic : Fin topicsCount}
      (known : topicIndex event.type = some topic) :
      Awaited platform waits ox passed sdl
        (ox.waitedFor sdl (passed ++ [.taken sdlEvent event]), .ok (some event))

theorem Awaited.atOnce {waits : Nat} {ox : Ox Sdl World} {stop : Interruption}
    (noEvent : NoEvent platform waits [] ox.translator.sdl stop) :
    Awaited platform waits ox [] ox.translator.sdl (ox, .error stop) := by
  have here : Awaited platform waits ox [] ox.translator.sdl
    (ox.waitedFor ox.translator.sdl [], .error stop) := .stopped noEvent
  have same : ox.waitedFor ox.translator.sdl [] = ox := by simp [Ox.waitedFor]
  rwa [same] at here

theorem Awaited.skip {waits : Nat} {ox : Ox Sdl World} {between sdl : Sdl} {sdlEvent : SdlEvent}
    {passed : List Activity} {result : Ox Sdl World × Except Interruption (Option OxEvent)}
    (awaited : Awaited platform waits ((ox.withSdl between).note (.skipped sdlEvent)) passed sdl
      result) :
    Awaited platform (waits + 1) ox (.skipped sdlEvent :: passed) sdl result := by
  have longer (seen : List Activity) :
      ((ox.withSdl between).note (.skipped sdlEvent)).waitedFor sdl seen =
        ox.waitedFor sdl (.skipped sdlEvent :: seen) := by
    simp [Ox.waitedFor, Ox.note, Ox.withSdl]
  cases awaited with
  | stopped noEvent =>
      rw [longer]
      cases noEvent with
      | cut all => exact .stopped (.cut (congrArg (· + 1) all))
      | waiting none => exact .stopped (.waiting none)
  | failed =>
      rw [longer]
      exact .failed
  | taken known =>
      rw [longer]
      exact .taken known

variable (platform) in
theorem await_cases (uninitialised : OxEvent) (waits : Nat) (ox : Ox Sdl World) :
    ∃ passed sdl, (∀ activity ∈ passed, activity.isSkip = true) ∧
      Awaited platform waits ox passed sdl (ox.await platform uninitialised waits) := by
  induction waits generalizing ox with
  | zero => exact ⟨[], ox.translator.sdl, by simp, .atOnce (.cut rfl)⟩
  | succ waits ih =>
      rw [Ox.await]
      cases answered : platform.waitEvent ox.translator.sdl with
      | none => exact ⟨[], ox.translator.sdl, by simp, .atOnce (.waiting answered)⟩
      | some result =>
          obtain ⟨answer, sdl⟩ := result
          cases answer with
          | failure => exact ⟨[], sdl, by simp, .failed⟩
          | event sdlEvent now =>
              cases translated : oxiFromSdlEvent ox.translator now sdlEvent uninitialised with
              | some event =>
                  obtain ⟨topic, known⟩ := topicIndex_translated translated
                  refine ⟨[], sdl, by simp, ?_⟩
                  simp only [translated]
                  exact .taken known
              | none =>
                  obtain ⟨passed, later, skips, awaited⟩ :=
                    ih ((ox.withSdl sdl).note (.skipped sdlEvent))
                  refine ⟨.skipped sdlEvent :: passed, later, ?_, ?_⟩
                  · exact List.forall_mem_cons.mpr ⟨rfl, skips⟩
                  · simp only [translated]
                    exact awaited.skip

inductive Dispatched (platform : Platform Sdl World) (waits : Nat) (ox : Ox Sdl World)
    (passed : List Activity) (sdl : Sdl) : Ox Sdl World × Option Interruption → Prop
  | stopped {stop : Interruption} (noEvent : NoEvent platform waits passed sdl stop) :
      Dispatched platform waits ox passed sdl (ox.waitedFor sdl passed, some stop)
  | failed :
      Dispatched platform waits ox passed sdl (ox.waitedFor sdl (passed ++ [.waitFailed]), none)
  | taken {sdlEvent : SdlEvent} {event : OxEvent} {topic : Fin topicsCount}
      (known : topicIndex event.type = some topic) :
      Dispatched platform waits ox passed sdl
        ((ox.waitedFor sdl (passed ++ [.taken sdlEvent event])).deliver platform event subMax
          (ox.eventSystem.topics topic))

variable (platform) in
theorem dispatchNext_cases (waits : Nat) (ox : Ox Sdl World) :
    ∃ passed sdl, (∀ activity ∈ passed, activity.isSkip = true) ∧
      Dispatched platform waits ox passed sdl (ox.dispatchNext platform waits) := by
  obtain ⟨passed, sdl, skips, awaited⟩ :=
    await_cases platform (platform.uninitialised ox.trace) waits ox
  refine ⟨passed, sdl, skips, ?_⟩
  rw [Ox.dispatchNext]
  generalize ox.await platform (platform.uninitialised ox.trace) waits = result at awaited ⊢
  cases awaited with
  | stopped noEvent => exact .stopped noEvent
  | failed => exact .failed
  | taken known =>
      simp only [known]
      exact .taken known

end Dispatching

def heard (draws : List Draw) (topic : Fin topicsCount) : List Entry :=
  (if Overrun draws topic then [] else madeFor draws topic).takeWhile Entry.callable

def callsFor (before : List Activity) : Activity → List CallbackCall
  | .taken _ event => (topicIndex event.type).elim [] fun topic =>
      (heard (drawnIn before) topic).map (Entry.call event)
  | _ => []

def expectedFrom : List Activity → List Activity → List CallbackCall
  | _, [] => []
  | before, activity :: rest =>
      callsFor before activity ++ expectedFrom (before ++ [activity]) rest

/-- For each event that was taken, in order, the calls of the subscriptions that its topic held by
then. -/
def expectedCalls (trace : List Activity) : List CallbackCall := expectedFrom [] trace

theorem expectedFrom_concat (before trace : List Activity) (activity : Activity) :
    expectedFrom before (trace ++ [activity]) =
      expectedFrom before trace ++ callsFor (before ++ trace) activity := by
  induction trace generalizing before with
  | nil => simp [expectedFrom]
  | cons first rest ih => simp [expectedFrom, ih]

@[simp] theorem expectedCalls_concat (trace : List Activity) (activity : Activity) :
    expectedCalls (trace ++ [activity]) = expectedCalls trace ++ callsFor trace activity :=
  expectedFrom_concat [] trace activity

theorem callsFor_other {activity : Activity} (other : activity.isAnswer = false)
    (before : List Activity) : callsFor before activity = [] := by
  cases activity <;> first | rfl | cases other

theorem skips_nothing {passed : List Activity}
    (skips : ∀ activity ∈ passed, activity.isSkip = true) (trace : List Activity) :
    callsIn (trace ++ passed) = callsIn trace ∧ drawnIn (trace ++ passed) = drawnIn trace ∧
      expectedCalls (trace ++ passed) = expectedCalls trace := by
  induction passed using List.reverseRecOn with
  | nil => simp
  | append_singleton passed activity ih =>
      obtain ⟨calls, draws, expected⟩ := ih fun other member => skips other (by simp [member])
      have skip := skips activity (by simp)
      cases activity with
      | skipped sdlEvent =>
          simp only [← List.append_assoc, callsIn_concat, drawnIn_concat, expectedCalls_concat,
            calls, draws, expected]
          simp [Activity.call, Activity.draw, callsFor]
      | _ => cases skip

section Expecting

variable {Sdl World : Type} {platform : Platform Sdl World} {mayHalt : Prop}
  {ox after : Ox Sdl World}

theorem api_fatal {apiCall : ApiCall} {stop : Interruption}
    (stopped : ox.api platform apiCall = (after, some stop)) : stop.isFatal = true := by
  cases apiCall with
  | subscribe call => cases stopped
  | publish event =>
      rw [Ox.api, Ox.publish] at stopped
      split at stopped <;> cases stopped <;> rfl

theorem apis_fatal {calls : List ApiCall} {stop : Interruption}
    (stopped : runUntil (Ox.api platform) ox calls = (after, some stop)) :
    stop.isFatal = true := by
  induction calls generalizing ox with
  | nil => cases stopped
  | cons apiCall rest ih =>
      rcases made : ox.api platform apiCall with ⟨between, first⟩
      cases first with
      | none =>
          rw [runUntil_cons_none rest made] at stopped
          exact ih stopped
      | some first =>
          rw [runUntil_cons_some rest made] at stopped
          cases stopped
          exact api_fatal made

theorem call_fatal {callback userData : Pointer} {event : OxEvent} {stop : Interruption}
    (stopped : ox.call platform callback userData event = (after, some stop)) :
    stop.isFatal = true := by
  rw [Ox.call] at stopped
  split at stopped
  case isTrue => cases stopped
  case isFalse =>
    cases returned : platform.code ox.world callback userData event with
    | error halt =>
        simp only [Ox.note, returned] at stopped
        cases stopped
        rfl
    | ok result =>
        simp only [Ox.note, returned] at stopped
        exact apis_fatal stopped

theorem deliver_fatal {event : OxEvent} {fuel : Nat} {cursor : Option SubSlot}
    {stop : Interruption}
    (stopped : ox.deliver platform event fuel cursor = (after, some stop)) :
    stop.isFatal = true := by
  induction fuel generalizing ox cursor with
  | zero =>
      cases cursor with
      | none => cases stopped
      | some sub =>
          cases stopped
          rfl
  | succ fuel ih =>
      cases cursor with
      | none => cases stopped
      | some sub =>
          rw [Ox.deliver] at stopped
          split at stopped
          case isTrue => cases stopped
          case isFalse =>
            rcases called : ox.call platform (ox.eventSystem.items sub).callback
              (ox.eventSystem.items sub).userData event with ⟨between, first⟩
            cases first with
            | none =>
                simp only [called] at stopped
                exact ih stopped
            | some first =>
                simp only [called] at stopped
                cases stopped
                exact call_fatal called

/-- The event system is what the subscriptions seen so far made of it, with the ids that `rand` gave
in order. -/
structure Recorded (platform : Platform Sdl World) (ox : Ox Sdl World) : Prop where
  system : ox.eventSystem = subscribeAll oxiMakeEventSystem (drawnIn ox.trace)
  ids : (drawnIn ox.trace).map Draw.id = (List.range ox.draws).map platform.rand

theorem recorded_fresh (platform : Platform Sdl World) (sdl : Sdl) (renderer : Pointer)
    (world : World) : Recorded platform (Ox.fresh sdl renderer world) := ⟨rfl, rfl⟩

theorem Recorded.note (recorded : Recorded platform ox) {activity : Activity}
    (other : activity.draw = none) (trace : after.trace = ox.trace ++ [activity])
    (system : after.eventSystem = ox.eventSystem) (draws : after.draws = ox.draws) :
    Recorded platform after := by
  have drawn : drawnIn after.trace = drawnIn ox.trace := by simp [trace, other]
  exact ⟨by rw [system, drawn, recorded.system], by rw [draws, drawn, recorded.ids]⟩

theorem ApiStep.recorded (step : ApiStep platform ox after) (recorded : Recorded platform ox) :
    Recorded platform after := by
  cases step with
  | subscribed call =>
      constructor
      · simp [Ox.subscribe, Ox.note, Activity.draw, recorded.system, subscribeAll_concat]
      · simp [Ox.subscribe, Ox.note, Activity.draw, recorded.ids, List.range_succ]
  | published returned => exact recorded.note rfl rfl rfl rfl

theorem quit_draws (ox : Ox Sdl World) (event : OxEvent) : (ox.quit event).draws = ox.draws := by
  rw [Ox.quit]
  split <;> rfl

theorem OxStep.recorded (step : OxStep platform mayHalt ox after)
    (recorded : Recorded platform ox) : Recorded platform after := by
  cases step with
  | api step => exact step.recorded recorded
  | call taken step =>
      cases step with
      | api step => exact step.recorded recorded
      | quit userData =>
          exact recorded.note rfl (Ox.trace_quit _ _) (quit_eventSystem _ _) (quit_draws _ _)
      | ran foreign returned => exact recorded.note rfl rfl rfl rfl
      | halted allowed foreign stopped => exact recorded.note rfl rfl rfl rfl
  | waited uninitialised answered => exact recorded.note (seen_draw _ _ _) rfl rfl rfl
  | rendered trace => exact recorded.note rfl rfl rfl rfl
  | registered renderCb userData => exact ⟨recorded.system, recorded.ids⟩

theorem steps_recorded (steps : ReflTransGen (OxStep platform mayHalt) ox after)
    (recorded : Recorded platform ox) : Recorded platform after := by
  induction steps with
  | refl => exact recorded
  | tail steps step ih => exact step.recorded ih

theorem drawnIn_extends {before after : List Activity} (earlier : before <+: after) :
    drawnIn before <+: drawnIn after := by
  obtain ⟨rest, rfl⟩ := earlier
  exact ⟨drawnIn rest, (List.filterMap_append ..).symm⟩

theorem callSteps_expected {event : OxEvent}
    (steps : ReflTransGen (CallStep platform mayHalt event) ox after) :
    expectedCalls after.trace = expectedCalls ox.trace := by
  induction steps with
  | refl => rfl
  | tail steps step ih =>
      obtain ⟨activity, grown, other⟩ := step.trace_grows
      rw [grown, expectedCalls_concat, callsFor_other other, List.append_nil, ih]

/-- The calls seen are the ones expected, all of them unless the run ended inside a call. -/
def CallsAsExpected (run : Ox Sdl World × Option Interruption) : Prop :=
  callsIn run.1.trace <+: expectedCalls run.1.trace ∧
    ((∀ stop, run.2 = some stop → stop.isFatal = false) →
      callsIn run.1.trace = expectedCalls run.1.trace)

theorem callsAsExpected_of_eq {run : Ox Sdl World × Option Interruption}
    (same : callsIn run.1.trace = expectedCalls run.1.trace) : CallsAsExpected run :=
  ⟨same ▸ List.prefix_refl _, fun _ => same⟩

theorem Recorded.remaining (recorded : Recorded platform ox)
    (distinct : ((drawnIn ox.trace).map Draw.id).Nodup) (topic : Fin topicsCount) :
    Remaining ox.eventSystem (ox.eventSystem.topics topic)
      (if Overrun (drawnIn ox.trace) topic then [] else madeFor (drawnIn ox.trace) topic) := by
  rw [recorded.system]
  exact subscribeAll_distinct distinct topic

theorem deliver_expected {event : OxEvent} {cursor : Option SubSlot} {entries : List Entry}
    (listed : Remaining ox.eventSystem cursor entries)
    (before : expectedCalls ox.trace =
      callsIn ox.trace ++ (entries.takeWhile Entry.callable).map (Entry.call event)) :
    CallsAsExpected (ox.deliver platform event subMax cursor) := by
  obtain ⟨made, part, seen, whole⟩ :=
    deliver_calls platform event listed listed.length_le
  have expected := (callSteps_expected (Ox.deliver_steps platform event subMax ox
    cursor)).trans before
  refine ⟨?_, fun unhurt => ?_⟩
  · rw [seen, expected]
    exact (List.prefix_append_right_inj _).mpr part
  · have returned : (ox.deliver platform event subMax cursor).2 = none := by
      cases stopped : (ox.deliver platform event subMax cursor).2 with
      | none => rfl
      | some stop =>
          have fatal := deliver_fatal (Prod.ext rfl stopped)
          rw [unhurt stop stopped] at fatal
          cases fatal
    rw [seen, expected, whole returned]

theorem dispatchNext_expected (recorded : Recorded platform ox)
    (distinct : ((drawnIn ox.trace).map Draw.id).Nodup)
    (settled : callsIn ox.trace = expectedCalls ox.trace) (waits : Nat) :
    CallsAsExpected (ox.dispatchNext platform waits) := by
  obtain ⟨passed, sdl, skips, dispatched⟩ := dispatchNext_cases platform waits ox
  obtain ⟨calls, draws, expected⟩ := skips_nothing skips ox.trace
  generalize ox.dispatchNext platform waits = result at dispatched ⊢
  cases dispatched with
  | stopped noEvent =>
      apply callsAsExpected_of_eq
      simp only [Ox.waitedFor, calls, expected, settled]
  | failed =>
      apply callsAsExpected_of_eq
      simp [Ox.waitedFor, ← List.append_assoc, calls, expected, settled, Activity.call, callsFor]
  | @taken sdlEvent event topic known =>
      refine deliver_expected (recorded.remaining distinct topic) ?_
      simp [Ox.waitedFor, ← List.append_assoc, calls, expected, settled, callsFor, known, draws,
        heard, Activity.call]

theorem distinct_of_extends {before after : List Activity} (earlier : before <+: after)
    (distinct : ((drawnIn after).map Draw.id).Nodup) : ((drawnIn before).map Draw.id).Nodup :=
  distinct.sublist ((drawnIn_extends earlier).sublist.map _)

theorem render_trace {ox after : Ox Sdl World} {stop : Option Interruption}
    (rendered : ox.render platform = (after, stop)) :
    (stop = none ∧ ∃ trace, after = ox.note (.rendered trace)) ∨
      (after = ox ∧ ∃ fault, stop = some (.halt (.fault fault))) := by
  rw [Ox.render] at rendered
  split at rendered
  · cases rendered
    exact .inr ⟨rfl, _, rfl⟩
  · cases rendered
    exact .inl ⟨rfl, _, rfl⟩

theorem render_settled {ox after : Ox Sdl World} {stop : Option Interruption}
    (rendered : ox.render platform = (after, stop))
    (settled : callsIn ox.trace = expectedCalls ox.trace) :
    callsIn after.trace = expectedCalls after.trace := by
  rcases render_trace rendered with ⟨-, trace, rfl⟩ | ⟨rfl, -⟩
  · simp [Ox.note, settled, Activity.call, callsFor]
  · exact settled

theorem mainLoop_expected (recorded : Recorded platform ox)
    (settled : callsIn ox.trace = expectedCalls ox.trace) (waits rounds : Nat)
    (distinct : ((drawnIn (ox.mainLoop platform waits rounds).1.trace).map Draw.id).Nodup) :
    CallsAsExpected (ox.mainLoop platform waits rounds) := by
  induction rounds generalizing ox with
  | zero => exact callsAsExpected_of_eq settled
  | succ rounds ih =>
      have here :=
        distinct_of_extends (steps_trace_extends (Ox.mainLoop_steps platform waits _ ox)) distinct
      rw [Ox.mainLoop] at distinct ⊢
      split
      case isTrue => exact callsAsExpected_of_eq settled
      case isFalse running =>
        rw [if_neg running] at distinct
        have dispatches := dispatchNext_expected recorded here settled waits
        have steps := Ox.dispatchNext_steps platform waits ox
        rcases dispatched : ox.dispatchNext platform waits with ⟨between, stop⟩
        rw [dispatched] at dispatches steps
        cases stop with
        | some stop => exact dispatches
        | none =>
            have settledNow := dispatches.2 (by simp)
            have renders := Ox.render_steps platform between
            rcases rendered : between.render platform with ⟨after, stop⟩
            rw [rendered] at renders
            have settledThen := render_settled rendered settledNow
            simp only [dispatched, rendered] at distinct ⊢
            cases stop with
            | some stop => exact callsAsExpected_of_eq settledThen
            | none =>
                exact ih (steps_recorded (steps.trans renders) recorded) settledThen distinct

structure Beginning (platform : Platform Sdl World) (ox : Ox Sdl World) : Prop where
  recorded : Recorded platform ox
  exits : ExitsWhenHandled platform ox
  unanswered : ∀ activity ∈ ox.trace, activity.isAnswer = false
  settled : callsIn ox.trace = expectedCalls ox.trace

theorem Beginning.step (beginning : Beginning platform ox) (step : OxStep platform True ox after)
    {activity : Activity} (other : activity.isAnswer = false) (quiet : activity.call = none)
    (trace : after.trace = ox.trace ++ [activity]) : Beginning platform after where
  recorded := step.recorded beginning.recorded
  exits := step.exitsWhenHandled beginning.exits
  unanswered := by
    rw [trace, List.forall_mem_append]
    exact ⟨beginning.unanswered, by simpa using other⟩
  settled := by simp [trace, beginning.settled, quiet, callsFor_other other]

theorem beginning_fresh (platform : Platform Sdl World) (sdl : Sdl) (renderer : Pointer)
    (world : World) : Beginning platform (Ox.fresh sdl renderer world) where
  recorded := recorded_fresh platform sdl renderer world
  exits := exitsWhenHandled_fresh platform sdl renderer world
  unanswered := by simp [Ox.fresh]
  settled := rfl

theorem Beginning.apiSteps (beginning : Beginning platform ox)
    (steps : ReflTransGen (ApiStep platform) ox after) : Beginning platform after := by
  induction steps with
  | refl => exact beginning
  | tail steps step ih =>
      cases step with
      | subscribed call => exact ih.step (.api (.subscribed _ call)) rfl rfl rfl
      | published returned => exact ih.step (.api (.published returned)) rfl rfl rfl

theorem Beginning.setUp (beginning : Beginning platform ox) :
    Beginning platform (ox.setUp platform) := by
  have subscribed := beginning.step (.api (.subscribed ox
    ⟨OxEventType.quit.topic, platform.quitHandler, platform.ox⟩)) rfl rfl rfl
  exact ⟨⟨subscribed.recorded.system, subscribed.recorded.ids⟩, subscribed.exits,
    subscribed.unanswered, subscribed.settled⟩

theorem Beginning.render (beginning : Beginning platform ox) {stop : Option Interruption}
    (rendered : ox.render platform = (after, stop)) : Beginning platform after := by
  rcases render_trace rendered with ⟨-, trace, rfl⟩ | ⟨rfl, -⟩
  · exact beginning.step (.rendered ox trace) rfl rfl rfl
  · exact beginning

def Subscribed (trace : List Activity) (call : SubscribeCall) : Prop :=
  ∃ id, .subscribed ⟨call, id⟩ ∈ trace

theorem Subscribed.mono {before after : List Activity} {call : SubscribeCall}
    (subscribed : Subscribed before call) (earlier : before <+: after) : Subscribed after call :=
  subscribed.imp fun _ member => earlier.subset member

def Platform.quitCall (platform : Platform Sdl World) : SubscribeCall :=
  ⟨OxEventType.quit.topic, platform.quitHandler, platform.ox⟩

theorem apis_subscribed {calls : List ApiCall}
    (made : runUntil (Ox.api platform) ox calls = (after, none)) {call : SubscribeCall}
    (member : .subscribe call ∈ calls) : Subscribed after.trace call := by
  induction calls generalizing ox with
  | nil => cases member
  | cons first rest ih =>
      rcases stepped : ox.api platform first with ⟨between, stop⟩
      cases stop with
      | some stop =>
          rw [runUntil_cons_some rest stepped] at made
          cases made
      | none =>
          rw [runUntil_cons_none rest stepped] at made
          rcases List.mem_cons.mp member with rfl | later
          · cases stepped
            have steps := Ox.apis_steps platform (ox.subscribe platform call) rest
            rw [made] at steps
            have here : Subscribed (ox.subscribe platform call).trace call :=
              ⟨_, List.mem_append_right _ (List.mem_singleton.mpr rfl)⟩
            exact here.mono (steps_trace_extends ((steps_rule platform True).apiSteps steps))
          · exact ih made later

variable (platform) in
/-- A run of the kernel is interrupted before its loop begins, or it is a run of the loop. -/
theorem run_cases (sdl : Sdl) (renderer : Pointer) (world : World) (calls : List ApiCall)
    (waits rounds : Nat) :
    ∃ begun, Beginning platform begun ∧
      ((∃ stop, stop.isFatal = true ∧
          platform.run sdl renderer world calls waits rounds = (begun, some stop)) ∨
        ((∀ call, .subscribe call ∈ calls → Subscribed begun.trace call) ∧
          Subscribed begun.trace platform.quitCall) ∧
          platform.run sdl renderer world calls waits rounds =
            begun.mainLoop platform waits rounds) := by
  have loads := (beginning_fresh platform sdl renderer world).apiSteps
    (Ox.apis_steps platform _ calls)
  rw [Platform.run, Ox.kernel]
  rcases loaded : runUntil (Ox.api platform) (Ox.fresh sdl renderer world) calls with
    ⟨between, stop⟩
  rw [loaded] at loads
  cases stop with
  | some stop => exact ⟨between, loads, .inl ⟨stop, apis_fatal loaded, rfl⟩⟩
  | none =>
      rcases rendered : (between.setUp platform).render platform with ⟨begun, stop⟩
      have begins := loads.setUp.render rendered
      rcases render_trace rendered with ⟨rfl, trace, rfl⟩ | ⟨rfl, fault, rfl⟩
      · have subscribed : Subscribed (between.setUp platform).trace platform.quitCall :=
          ⟨_, List.mem_append_right _ (List.mem_singleton.mpr rfl)⟩
        have shown := List.prefix_append (between.setUp platform).trace [.rendered trace]
        have earlier := (List.prefix_append between.trace _).trans shown
        simp only [rendered]
        refine ⟨_, begins, .inr ⟨⟨fun call member => ?_, subscribed.mono shown⟩, rfl⟩⟩
        exact (apis_subscribed loaded member).mono earlier
      · simp only [rendered]
        exact ⟨_, begins, .inl ⟨_, rfl, rfl⟩⟩

/-- Over a whole run of the kernel, whatever its modules publish and subscribe while it delivers,
each event that is taken goes to the subscriptions that its topic holds by then, newest first and
as far as they have callbacks. A run that ends inside a call has made the first of these calls. -/
theorem calls_as_expected (platform : Platform Sdl World) (sdl : Sdl) (renderer : Pointer)
    (world : World) (calls : List ApiCall) (waits rounds : Nat)
    (distinct : ((drawnIn (platform.run sdl renderer world calls waits rounds).1.trace).map
      Draw.id).Nodup) :
    CallsAsExpected (platform.run sdl renderer world calls waits rounds) := by
  obtain ⟨begun, beginning, ⟨stop, -, ended⟩ | ⟨-, goesOn⟩⟩ :=
    run_cases platform sdl renderer world calls waits rounds
  · rw [ended]
    exact callsAsExpected_of_eq beginning.settled
  · rw [goesOn] at distinct ⊢
    exact mainLoop_expected beginning.recorded beginning.settled waits rounds distinct

def quitForTwo : List ApiCall :=
  [.subscribe ⟨OxEventType.quit.topic, 0x73, 5⟩, .publish (some quitEvent)]

theorem calls_as_expected_two :
    CallsAsExpected (idlePlatform.run (0, []) 0x90 () quitForTwo 4 4) :=
  calls_as_expected idlePlatform (0, []) 0x90 () quitForTwo 4 4 (by decide)

theorem mem_expectedFrom {before trace : List Activity} {call : CallbackCall}
    (member : call ∈ expectedFrom before trace) :
    ∃ front activity back, trace = front ++ activity :: back ∧
      call ∈ callsFor (before ++ front) activity := by
  induction trace generalizing before with
  | nil => cases member
  | cons first rest ih =>
      rcases List.mem_append.mp member with here | later
      · exact ⟨[], first, rest, rfl, by simpa using here⟩
      · obtain ⟨front, activity, back, rfl, found⟩ := ih later
        exact ⟨first :: front, activity, back, rfl, by simpa using found⟩

theorem mem_expectedCalls {trace : List Activity} {call : CallbackCall}
    (member : call ∈ expectedCalls trace) :
    ∃ front sdlEvent event back topic, trace = front ++ .taken sdlEvent event :: back ∧
      topicIndex event.type = some topic ∧
      ∃ entry ∈ heard (drawnIn front) topic, call = entry.call event := by
  obtain ⟨front, activity, back, split, found⟩ := mem_expectedFrom member
  cases activity with
  | taken sdlEvent event =>
      rw [List.nil_append, callsFor] at found
      cases known : topicIndex event.type with
      | none => simp [known] at found
      | some topic =>
          rw [known, Option.elim_some] at found
          obtain ⟨entry, inside, rfl⟩ := List.mem_map.mp found
          exact ⟨front, sdlEvent, event, back, topic, split, known, entry, inside, rfl⟩
  | _ => cases found

theorem heard_subscribed {draws : List Draw} {topic : Fin topicsCount} {entry : Entry}
    (member : entry ∈ heard draws topic) :
    ∃ draw ∈ draws, draw.entry = entry ∧ draw.type = topic := by
  have inside := (List.takeWhile_prefix _).subset member
  split at inside
  · cases inside
  · obtain ⟨draw, made, rfl⟩ := List.mem_map.mp (List.mem_reverse.mp inside)
    exact ⟨draw, (List.mem_filter.mp made).1, rfl, of_decide_eq_true (List.mem_filter.mp made).2⟩

/-- No callback is ever called with an event of a type that it did not subscribe to, or with user
data that it did not give for it. -/
theorem called_as_subscribed (platform : Platform Sdl World) (sdl : Sdl) (renderer : Pointer)
    (world : World) (calls : List ApiCall) (waits rounds : Nat)
    (distinct : ((drawnIn (platform.run sdl renderer world calls waits rounds).1.trace).map
      Draw.id).Nodup)
    {callback userData : Pointer} {event : OxEvent}
    (called : .called callback userData event ∈
      (platform.run sdl renderer world calls waits rounds).1.trace) :
    ∃ draw, .subscribed draw ∈ (platform.run sdl renderer world calls waits rounds).1.trace ∧
      draw.callback = callback ∧ draw.userData = userData ∧
        topicIndex event.type = some draw.type := by
  have member : (callback, userData, event) ∈
      callsIn (platform.run sdl renderer world calls waits rounds).1.trace :=
    List.mem_filterMap.mpr ⟨_, called, rfl⟩
  have expected := calls_as_expected platform sdl renderer world calls waits rounds distinct
  obtain ⟨front, sdlEvent, taken, back, topic, split, known, entry, inside, same⟩ :=
    mem_expectedCalls (expected.1.subset member)
  obtain ⟨draw, drawn, rfl, rfl⟩ := heard_subscribed inside
  obtain ⟨activity, seen, isDraw⟩ := List.mem_filterMap.mp drawn
  cases same
  refine ⟨draw, ?_, rfl, rfl, known⟩
  cases activity with
  | subscribed other =>
      cases isDraw
      rw [split]
      exact List.mem_append_left _ seen
  | _ => cases isDraw

theorem called_as_subscribed_two :
    ∃ draw, .subscribed draw ∈ (idlePlatform.run (0, []) 0x90 () quitForTwo 4 4).1.trace ∧
      draw.callback = 0x73 ∧ draw.userData = 5 ∧ topicIndex quitEvent.type = some draw.type :=
  called_as_subscribed idlePlatform (0, []) 0x90 () quitForTwo 4 4 (by decide) (by decide)

end Expecting

end YakUnshorn
