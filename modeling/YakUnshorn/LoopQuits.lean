import YakUnshorn.LoopCalls

/-!
Which quits end the loop of `main`: the handler of `main` has to hear of them, and then
no further event is taken.
-/

namespace YakUnshorn

open CMachine StepRuns History Relation

section Listening

variable {draws : List Draw} {topic : Fin topicsCount} {callback : Pointer}

/-- A callback subscribed to the topic, and no null callback did since then, which would hide it. -/
def Unhidden (callback : Pointer) (draws : List Draw) (topic : Fin topicsCount) : Prop :=
  ∃ front draw back, draws = front ++ draw :: back ∧ draw.type = topic ∧
    draw.callback = callback ∧ ∀ other ∈ draw :: back, other.type = topic → other.callback ≠ 0

/-- No call for the topic found the store full either, which would have emptied the list. -/
def Listens (callback : Pointer) (draws : List Draw) (topic : Fin topicsCount) : Prop :=
  ¬Overrun draws topic ∧ Unhidden callback draws topic

theorem unhidden_concat (draws : List Draw) (last : Draw) :
    Unhidden callback (draws ++ [last]) topic ↔
      (last.type = topic → last.callback ≠ 0) ∧
        ((last.type = topic ∧ last.callback = callback) ∨ Unhidden callback draws topic) := by
  constructor
  · rintro ⟨front, draw, back, split, here, same, callable⟩
    rcases concat_eq_split_iff.mp split with ⟨rfl, rfl, rfl⟩ | ⟨rest, rfl, rfl⟩
    · exact ⟨callable last (by simp), .inl ⟨here, same⟩⟩
    · refine ⟨callable last (by simp), .inr ⟨front, draw, rest, rfl, here, same, ?_⟩⟩
      exact fun other member => callable other (by simp at member ⊢; tauto)
  · rintro ⟨callable, ⟨here, same⟩ | ⟨front, draw, rest, rfl, here, same, earlier⟩⟩
    · exact ⟨draws, last, [], rfl, here, same, by simpa using callable⟩
    · refine ⟨front, draw, rest ++ [last], by simp, here, same, fun other member => ?_⟩
      rw [← List.cons_append, List.mem_append, List.mem_singleton] at member
      rcases member with before | rfl
      · exact earlier other before
      · exact callable

theorem unhidden_iff :
    Unhidden callback draws topic ↔
      ∃ entry ∈ (madeFor draws topic).takeWhile Entry.callable, entry.callback = callback := by
  induction draws using List.reverseRecOn with
  | nil => simp [Unhidden, madeFor]
  | append_singleton draws last ih =>
      rw [unhidden_concat, ih, madeFor_concat]
      by_cases same : last.type = topic
      · by_cases null : last.callback = 0
        · simp [same, null, Entry.callable, Draw.entry]
        · simp [same, null, Entry.callable, Draw.entry]
      · simp [same]

theorem listens_iff :
    Listens callback draws topic ↔ ∃ entry ∈ heard draws topic, entry.callback = callback := by
  rw [Listens, heard, unhidden_iff]
  split
  case isTrue overrun => simp [overrun]
  case isFalse kept => simp [kept]

/-- No id comes twice, no call finds the store full, and no null callback subscribes to the
topics. -/
structure LetsThrough (topics : List (Fin topicsCount)) (trace : List Activity) : Prop where
  distinct : ((drawnIn trace).map Draw.id).Nodup
  room : (drawnIn trace).length ≤ subMax
  callable : ∀ draw ∈ drawnIn trace, draw.type ∈ topics → draw.callback ≠ 0

theorem LetsThrough.of_subset {topics fewer : List (Fin topicsCount)} {trace : List Activity}
    (lets : LetsThrough topics trace) (part : fewer ⊆ topics) : LetsThrough fewer trace where
  distinct := lets.distinct
  room := lets.room
  callable draw seen member := lets.callable draw seen (part member)

/-- Then an event gets to all that subscribed to its topic by the time it is taken. -/
theorem LetsThrough.heard_eq {topics : List (Fin topicsCount)} {before trace : List Activity}
    (lets : LetsThrough topics trace) (earlier : before <+: trace) (member : topic ∈ topics) :
    heard (drawnIn before) topic = madeFor (drawnIn before) topic := by
  have fewer := drawnIn_extends earlier
  have kept : ¬Overrun (drawnIn before) topic := by
    rintro ⟨draw, beyond, -⟩
    rw [List.drop_eq_nil_of_le (Nat.le_trans fewer.length_le lets.room)] at beyond
    cases beyond
  rw [heard, if_neg kept, List.takeWhile_eq_self_iff]
  intro entry made
  obtain ⟨draw, drawn, rfl⟩ := List.mem_map.mp (List.mem_reverse.mp made)
  obtain ⟨seen, here⟩ := List.mem_filter.mp drawn
  rw [decide_eq_true_eq] at here
  exact decide_eq_true (lets.callable draw (fewer.subset seen) (here ▸ member))

theorem LetsThrough.hears {topics : List (Fin topicsCount)} {before trace : List Activity}
    (lets : LetsThrough topics trace) (earlier : before <+: trace) {call : SubscribeCall}
    (subscribed : Subscribed before call) (member : call.type ∈ topics) :
    ∃ id, Draw.entry ⟨call, id⟩ ∈ heard (drawnIn before) call.type := by
  obtain ⟨id, seen⟩ := subscribed
  rw [lets.heard_eq earlier member]
  refine ⟨id, List.mem_reverse.mpr (List.mem_map_of_mem ?_)⟩
  exact List.mem_filter.mpr ⟨List.mem_filterMap.mpr ⟨_, seen, rfl⟩, decide_eq_true rfl⟩

theorem LetsThrough.listens {topics : List (Fin topicsCount)} {before trace : List Activity}
    (lets : LetsThrough topics trace) (earlier : before <+: trace) {call : SubscribeCall}
    (subscribed : Subscribed before call) (member : call.type ∈ topics) :
    Listens call.callback (drawnIn before) call.type := by
  obtain ⟨id, hears⟩ := lets.hears earlier subscribed member
  exact listens_iff.mpr ⟨_, hears, rfl⟩

end Listening

section Hearing

variable {Sdl World : Type} {platform : Platform Sdl World} {mayHalt : Prop} {trace : List Activity}
  {activity : Activity}

/-- A quit was taken, and the handler of `main` was listening. -/
def QuitHeard (platform : Platform Sdl World) (before : List Activity) : Activity → Prop
  | .taken _ event => event.type = OxEventType.quit.code ∧
      Listens platform.quitHandler (drawnIn before) OxEventType.quit.topic
  | _ => False

def HeardQuit (platform : Platform Sdl World) (trace : List Activity) : Prop :=
  ∃ before activity after, trace = before ++ activity :: after ∧
    QuitHeard platform before activity

/-- Once the handler of `main` heard a quit, `SDL_WaitEvent` is not called again. -/
def HeardLast (platform : Platform Sdl World) (trace : List Activity) : Prop :=
  ∀ before activity after, trace = before ++ activity :: after →
    QuitHeard platform before activity → ∀ later ∈ after, later.isAnswer = false

theorem QuitHeard.isAnswer (heard : QuitHeard platform trace activity) :
    activity.isAnswer = true := by
  cases activity with
  | taken sdlEvent event => rfl
  | _ => cases heard

theorem heardQuit_concat :
    HeardQuit platform (trace ++ [activity]) ↔
      HeardQuit platform trace ∨ QuitHeard platform trace activity := by
  constructor
  · rintro ⟨before, other, after, split, heard⟩
    rcases concat_eq_split_iff.mp split with ⟨rfl, rfl, rfl⟩ | ⟨rest, rfl, rfl⟩
    · exact .inr heard
    · exact .inl ⟨before, other, rest, rfl, heard⟩
  · rintro (⟨before, other, after, rfl, heard⟩ | heard)
    · exact ⟨before, other, after ++ [activity], by simp, heard⟩
    · exact ⟨trace, activity, [], rfl, heard⟩

theorem heardLast_of_none (none : ¬HeardQuit platform trace) : HeardLast platform trace :=
  fun before activity after split heard => absurd ⟨before, activity, after, split, heard⟩ none

theorem heardLast_concat (none : ¬HeardQuit platform trace) (activity : Activity) :
    HeardLast platform (trace ++ [activity]) := by
  intro before other after split heard
  rcases concat_eq_split_iff.mp split with ⟨rfl, rfl, rfl⟩ | ⟨rest, rfl, rfl⟩
  · simp
  · exact absurd ⟨before, other, rest, rfl, heard⟩ none

theorem HeardLast.note (last : HeardLast platform trace) (other : activity.isAnswer = false) :
    HeardLast platform (trace ++ [activity]) := by
  intro before earlier after split heard
  rcases concat_eq_split_iff.mp split with ⟨rfl, rfl, rfl⟩ | ⟨rest, rfl, rfl⟩
  · simp
  · rw [List.forall_mem_append]
    exact ⟨last before earlier rest rfl heard, by simpa using other⟩

theorem not_heardQuit_append (none : ¬HeardQuit platform trace) {passed : List Activity}
    (deaf : ∀ activity ∈ passed, ∀ before, ¬QuitHeard platform before activity) :
    ¬HeardQuit platform (trace ++ passed) := by
  induction passed using List.reverseRecOn with
  | nil => simpa using none
  | append_singleton passed activity ih =>
      rw [← List.append_assoc, heardQuit_concat, not_or]
      exact ⟨ih fun other member => deaf other (by simp [member]), deaf activity (by simp) _⟩

theorem quitHeard_skip (skip : activity.isSkip = true) : ¬QuitHeard platform trace activity := by
  cases activity with
  | skipped sdlEvent => exact id
  | _ => cases skip

theorem mem_callsFor_handler :
    (∃ userData event, (platform.quitHandler, userData, event) ∈ callsFor trace activity ∧
        event.type = OxEventType.quit.code) ↔
      QuitHeard platform trace activity := by
  cases activity with
  | taken sdlEvent event =>
      rw [QuitHeard, callsFor, listens_iff]
      constructor
      · rintro ⟨userData, same, member, isQuit⟩
        cases known : topicIndex event.type with
        | none => simp [known] at member
        | some topic =>
            rw [known, Option.elim_some] at member
            obtain ⟨entry, inside, called⟩ := List.mem_map.mp member
            simp only [Entry.call, Prod.mk.injEq] at called
            obtain ⟨handler, -, rfl⟩ := called
            rw [isQuit] at known
            cases known
            exact ⟨isQuit, entry, inside, handler⟩
      · rintro ⟨isQuit, entry, inside, handler⟩
        have known : topicIndex event.type = some OxEventType.quit.topic := by
          rw [isQuit]
          rfl
        refine ⟨entry.userData, event, ?_, isQuit⟩
        rw [known, Option.elim_some, List.mem_map]
        exact ⟨entry, inside, by rw [Entry.call, handler]⟩
  | _ => simp [callsFor, QuitHeard]

theorem mem_expectedCalls_handler (platform : Platform Sdl World) (trace : List Activity) :
    (∃ userData event, (platform.quitHandler, userData, event) ∈ expectedCalls trace ∧
        event.type = OxEventType.quit.code) ↔
      HeardQuit platform trace := by
  induction trace using List.reverseRecOn with
  | nil => simp [expectedCalls, expectedFrom, HeardQuit]
  | append_singleton trace activity ih =>
      rw [heardQuit_concat, ← ih, ← mem_callsFor_handler]
      simp only [expectedCalls_concat, List.mem_append]
      constructor
      · rintro ⟨userData, event, before | here, isQuit⟩
        · exact .inl ⟨userData, event, before, isQuit⟩
        · exact .inr ⟨userData, event, here, isQuit⟩
      · rintro (⟨userData, event, before, isQuit⟩ | ⟨userData, event, here, isQuit⟩)
        · exact ⟨userData, event, .inl before, isQuit⟩
        · exact ⟨userData, event, .inr here, isQuit⟩

theorem heardQuit_iff {ox : Ox Sdl World} (exits : ExitsWhenHandled platform ox)
    (settled : callsIn ox.trace = expectedCalls ox.trace) :
    ox.shouldExit = true ↔ HeardQuit platform ox.trace := by
  refine exits.trans ?_
  rw [← mem_expectedCalls_handler, ← settled]
  constructor
  · rintro ⟨userData, event, called, isQuit⟩
    exact ⟨userData, event, List.mem_filterMap.mpr ⟨_, called, rfl⟩, isQuit⟩
  · rintro ⟨userData, event, member, isQuit⟩
    obtain ⟨activity, seen, same⟩ := List.mem_filterMap.mp member
    cases activity with
    | called callback data other =>
        cases same
        exact ⟨userData, event, seen, isQuit⟩
    | _ => cases same

end Hearing

section Leaving

variable {Sdl World : Type} {platform : Platform Sdl World} {mayHalt : Prop}
  {ox after : Ox Sdl World}

theorem callSteps_heardLast {event : OxEvent}
    (steps : ReflTransGen (CallStep platform mayHalt event) ox after)
    (last : HeardLast platform ox.trace) : HeardLast platform after.trace := by
  induction steps with
  | refl => exact last
  | tail steps step ih =>
      obtain ⟨activity, grown, other⟩ := step.trace_grows
      rw [grown]
      exact ih.note other

theorem dispatchNext_heardLast (none : ¬HeardQuit platform ox.trace) (waits : Nat) :
    HeardLast platform (ox.dispatchNext platform waits).1.trace := by
  obtain ⟨passed, sdl, skips, dispatched⟩ := dispatchNext_cases platform waits ox
  have noneYet : ¬HeardQuit platform (ox.trace ++ passed) :=
    not_heardQuit_append none fun activity member _ => quitHeard_skip (skips activity member)
  generalize ox.dispatchNext platform waits = result at dispatched ⊢
  cases dispatched with
  | stopped noEvent => exact heardLast_of_none noneYet
  | failed =>
      simp only [Ox.waitedFor, ← List.append_assoc]
      exact heardLast_concat noneYet _
  | @taken sdlEvent event topic known =>
      refine callSteps_heardLast (Ox.deliver_steps platform event subMax _ _) ?_
      simp only [Ox.waitedFor, ← List.append_assoc]
      exact heardLast_concat noneYet _

/-- A wait that does not come to an end leaves the flag of the loop as it was. -/
theorem dispatchNext_stopped {waits : Nat} {stop : Interruption}
    (stopped : ox.dispatchNext platform waits = (after, some stop))
    (unhurt : stop.isFatal = false) : after.shouldExit = ox.shouldExit := by
  obtain ⟨passed, sdl, skips, dispatched⟩ := dispatchNext_cases platform waits ox
  generalize ox.dispatchNext platform waits = result at dispatched stopped
  cases dispatched with
  | stopped noEvent =>
      cases stopped
      rfl
  | failed => cases stopped
  | taken known =>
      have fatal := deliver_fatal stopped
      rw [unhurt] at fatal
      cases fatal

structure LeavesByQuit (platform : Platform Sdl World) (run : Ox Sdl World × Option Interruption) :
    Prop where
  last : HeardLast platform run.1.trace
  left_iff : (∀ stop, run.2 = some stop → stop.isFatal = false) →
    (run.2 = none ↔ HeardQuit platform run.1.trace)

theorem leavesByQuit_interrupted {stop : Interruption} (last : HeardLast platform after.trace)
    (deaf : stop.isFatal = false → ¬HeardQuit platform after.trace) :
    LeavesByQuit platform (after, some stop) where
  last := last
  left_iff unhurt := iff_of_false (by simp) (deaf (unhurt stop rfl))

theorem mainLoop_leavesByQuit (recorded : Recorded platform ox)
    (exits : ExitsWhenHandled platform ox) (settled : callsIn ox.trace = expectedCalls ox.trace)
    (last : HeardLast platform ox.trace) (waits rounds : Nat)
    (distinct : ((drawnIn (ox.mainLoop platform waits rounds).1.trace).map Draw.id).Nodup) :
    LeavesByQuit platform (ox.mainLoop platform waits rounds) := by
  induction rounds generalizing ox with
  | zero =>
      refine ⟨last, fun _ => ?_⟩
      rw [Ox.mainLoop, ← heardQuit_iff exits settled]
      cases ox.shouldExit <;> simp
  | succ rounds ih =>
      have here :=
        distinct_of_extends (steps_trace_extends (Ox.mainLoop_steps platform waits _ ox)) distinct
      rw [Ox.mainLoop] at distinct ⊢
      split
      case isTrue leaves =>
        exact ⟨last, fun _ => iff_of_true rfl ((heardQuit_iff exits settled).mp leaves)⟩
      case isFalse running =>
        rw [if_neg running] at distinct
        have none := (heardQuit_iff exits settled).not.mp running
        have dispatches := dispatchNext_expected recorded here settled waits
        have lastNow := dispatchNext_heardLast none waits
        have steps := Ox.dispatchNext_steps platform waits ox
        rcases dispatched : ox.dispatchNext platform waits with ⟨between, stop⟩
        rw [dispatched] at dispatches lastNow steps
        have exitsNow := steps_exitsWhenHandled steps exits
        cases stop with
        | some stop =>
            refine leavesByQuit_interrupted lastNow fun unhurt => ?_
            have settledNow := dispatches.2 (by simp [unhurt])
            rw [← heardQuit_iff exitsNow settledNow, dispatchNext_stopped dispatched unhurt]
            exact running
        | none =>
            have settledNow := dispatches.2 (by simp)
            have renders := Ox.render_steps platform between
            rcases rendered : between.render platform with ⟨after, stop⟩
            rw [rendered] at renders
            have settledThen := render_settled rendered settledNow
            have exitsThen := steps_exitsWhenHandled renders exitsNow
            have lastThen : HeardLast platform after.trace := by
              rcases render_trace rendered with ⟨-, trace, rfl⟩ | ⟨rfl, -⟩
              · exact lastNow.note rfl
              · exact lastNow
            simp only [dispatched, rendered] at distinct ⊢
            cases stop with
            | some stop =>
                rcases render_trace rendered with ⟨⟨⟩, -⟩ | ⟨-, fault, same⟩
                refine leavesByQuit_interrupted lastThen fun unhurt => ?_
                rw [Option.some.inj same] at unhurt
                cases unhurt
            | none =>
                exact ih (steps_recorded (steps.trans renders) recorded) exitsThen settledThen
                  lastThen distinct

theorem Beginning.none (beginning : Beginning platform ox) : ¬HeardQuit platform ox.trace := by
  rintro ⟨before, activity, rest, split, heard⟩
  have other := beginning.unanswered activity (by simp [split])
  rw [heard.isAnswer] at other
  cases other

/-- The loop of `main` is left exactly when a quit was taken that the handler of `main` was
listening for: it subscribed to quits, no null callback was subscribed to them since, and no call
for them found the store full. No event is taken any more after the first of these. -/
theorem left_iff_quit_heard (platform : Platform Sdl World) (sdl : Sdl) (renderer : Pointer)
    (world : World) (calls : List ApiCall) (waits rounds : Nat)
    (distinct : ((drawnIn (platform.run sdl renderer world calls waits rounds).1.trace).map
      Draw.id).Nodup) :
    LeavesByQuit platform (platform.run sdl renderer world calls waits rounds) := by
  obtain ⟨begun, beginning, ⟨stop, fatal, ended⟩ | ⟨-, goesOn⟩⟩ :=
    run_cases platform sdl renderer world calls waits rounds
  · rw [ended]
    exact leavesByQuit_interrupted (heardLast_of_none beginning.none) fun _ => beginning.none
  · rw [goesOn] at distinct ⊢
    exact mainLoop_leavesByQuit beginning.recorded beginning.exits beginning.settled
      (heardLast_of_none beginning.none) waits rounds distinct

theorem left_iff_quit_heard_two :
    LeavesByQuit idlePlatform (idlePlatform.run (0, []) 0x90 () quitForTwo 4 4) :=
  left_iff_quit_heard idlePlatform (0, []) 0x90 () quitForTwo 4 4 (by decide)

end Leaving

end YakUnshorn
