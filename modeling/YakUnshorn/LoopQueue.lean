import YakUnshorn.Lib.Fifo
import YakUnshorn.LoopQuits

/-!
What becomes of SDL's queue over a run of the kernel: nothing that was published is lost
or comes twice, and a quit in the queue ends the loop of `main`.
-/

namespace YakUnshorn

open CMachine StepRuns History Relation Fifo

def Activity.received : Activity → Option SdlEvent
  | .skipped sdlEvent => some sdlEvent
  | .taken sdlEvent _ => some sdlEvent
  | _ => none

def Activity.sent : Activity → Option OxEvent
  | .published event true => event
  | _ => none

def receivedIn (trace : List Activity) : List SdlEvent := trace.filterMap Activity.received

/-- The events of a trace that were published with success, each with what was seen before. -/
def sentFrom (before trace : List Activity) : List (List Activity × OxEvent) :=
  (withPast before trace).filterMap fun (earlier, activity) =>
    activity.sent.map fun event => (earlier, event)

def sentIn (trace : List Activity) : List (List Activity × OxEvent) := sentFrom [] trace

theorem sentFrom_append (before first second : List Activity) :
    sentFrom before (first ++ second) =
      sentFrom before first ++ sentFrom (before ++ first) second := by
  rw [sentFrom, withPast_append, List.filterMap_append]
  rfl

theorem sentFrom_quiet {activity : Activity} (sent : activity.sent = none)
    (before : List Activity) : sentFrom before [activity] = [] := by
  simp [sentFrom, withPast, sent]

theorem mem_sentFrom {before trace : List Activity} {event : OxEvent}
    (published : .published (some event) true ∈ trace) :
    ∃ earlier, (earlier, event) ∈ sentFrom before trace := by
  rw [← map_snd_withPast before trace] at published
  obtain ⟨⟨earlier, activity⟩, member, rfl⟩ := List.mem_map.mp published
  exact ⟨earlier, List.mem_filterMap.mpr ⟨_, member, rfl⟩⟩

/-- What SDL documents of `SDL_WaitEvent`: it takes the first event of the queue, to which others
may have come meanwhile, and it waits forever only on a queue that is empty. -/
structure WaitsInOrder {Sdl World : Type} (platform : Platform Sdl World)
    (queue : Sdl → List SdlEvent) : Prop where
  given : ∀ sdl sdlEvent now after, platform.waitEvent sdl = some (.event sdlEvent now, after) →
    ∃ arrived, queue sdl ++ arrived = sdlEvent :: queue after
  failed : ∀ sdl after, platform.waitEvent sdl = some (.failure, after) →
    ∃ arrived, queue after = queue sdl ++ arrived
  waiting : ∀ sdl, platform.waitEvent sdl = none → queue sdl = []

section Queueing

variable {Sdl World : Type} {platform : Platform Sdl World} {mayHalt : Prop}
  {queue : Sdl → List SdlEvent} {begun ox between after : Ox Sdl World}

/-- The SDL event says what the event says, with the types that the call gave to commands which
published it, where so much of the run had been seen. -/
def QueuedAs (platform : Platform Sdl World) (mayHalt : Prop) (begun : Ox Sdl World)
    (published : List Activity × OxEvent) (sdlEvent : SdlEvent) : Prop :=
  ∃ ox translator, ReflTransGen (OxStep platform mayHalt) begun ox ∧ ox.trace = published.1 ∧
    oxiPublishEvent platform.registerEvents platform.pushEvent ox.translator (some published.2) =
      some (.ok (true, translator)) ∧
    Translates translator published.2 sdlEvent

/-- Between two moments of a run, what was received left the front of the queue, and what was
published with success came to its end, in order and among what SDL added itself. -/
def Transfers (platform : Platform Sdl World) (mayHalt : Prop) (queue : Sdl → List SdlEvent)
    (begun ox after : Ox Sdl World) : Prop :=
  ∃ seen sent added, after.trace = ox.trace ++ seen ∧
    List.Forall₂ (QueuedAs platform mayHalt begun) (sentFrom ox.trace seen) sent ∧
      sent.Sublist added ∧
      Carries (queue ox.translator.sdl) (receivedIn seen) added (queue after.translator.sdl)

theorem transfers_same (trace : after.trace = ox.trace)
    (same : queue after.translator.sdl = queue ox.translator.sdl) :
    Transfers platform mayHalt queue begun ox after := by
  refine ⟨[], [], [], by simp [trace], .nil, List.nil_sublist _, ?_⟩
  rw [same]
  exact carries_refl _

theorem Transfers.trans (first : Transfers platform mayHalt queue begun ox between)
    (second : Transfers platform mayHalt queue begun between after) :
    Transfers platform mayHalt queue begun ox after := by
  obtain ⟨seen, sent, added, trace, translated, among, carries⟩ := first
  obtain ⟨seenThen, sentThen, addedThen, traceThen, translatedThen, amongThen, carriesThen⟩ :=
    second
  refine ⟨seen ++ seenThen, sent ++ sentThen, added ++ addedThen, ?_, ?_, ?_, ?_⟩
  · rw [traceThen, trace, List.append_assoc]
  · rw [trace] at translatedThen
    rw [sentFrom_append]
    exact List.rel_append translated translatedThen
  · exact among.append amongThen
  · rw [receivedIn, List.filterMap_append]
    exact carries.trans carriesThen

theorem transfers_quiet {activity : Activity} (received : activity.received = none)
    (sent : activity.sent = none) (trace : after.trace = ox.trace ++ [activity])
    (same : queue after.translator.sdl = queue ox.translator.sdl) :
    Transfers platform mayHalt queue begun ox after := by
  refine ⟨[activity], [], [], trace, ?_, List.nil_sublist _, ?_⟩
  · rw [sentFrom_quiet sent]
    exact .nil
  · simp only [receivedIn, List.filterMap_cons, received, List.filterMap_nil, same]
    exact carries_refl _

theorem published_cases {registerEvents : RegisterEvents Sdl} {pushEvent : PushEvent Sdl}
    (documented : KeepsQueue registerEvents pushEvent queue) {before last : Translator Sdl}
    {event : Option OxEvent} {pushed : Bool}
    (returned : oxiPublishEvent registerEvents pushEvent before event =
      some (.ok (pushed, last))) :
    (pushed = true ∧ ∃ oxEvent queued, event = some oxEvent ∧ Translates last oxEvent queued ∧
        queue last.sdl = queue before.sdl ++ [queued]) ∨
      (pushed = false ∧ queue last.sdl = queue before.sdl) := by
  obtain ⟨oxEvent, rfl, ⟨isQuit, sent, shape⟩ | ⟨isCommand, type, middle, typed, sent, shape⟩ |
    ⟨-, -, rfl, rfl⟩⟩ := oxiPublishEvent_cases returned
  · have translates : Translates last oxEvent (quitSdlEvent oxEvent) :=
      ⟨.inl ⟨isQuit, rfl⟩, fun _ => rfl⟩
    exact (pushed_cases documented translates sent).imp_left fun ⟨accepted, queued, rest⟩ =>
      ⟨accepted, oxEvent, queued, rfl, rest⟩
  · obtain ⟨typeEq, -, -, sdlEq, -⟩ := getCmdEventType_some typed
    have translates : Translates last oxEvent (commandSdlEvent oxEvent sdlZero type) := by
      rw [shape]
      exact ⟨.inr ⟨isCommand, typeEq, rfl⟩, fun _ => rfl⟩
    have same : queue middle.sdl = queue before.sdl := by rw [sdlEq, documented.registered]
    rw [← same]
    exact (pushed_cases documented translates sent).imp_left fun ⟨accepted, queued, rest⟩ =>
      ⟨accepted, oxEvent, queued, rfl, rest⟩
  · exact .inr ⟨rfl, rfl⟩

theorem ApiStep.transfers
    (documented : KeepsQueue platform.registerEvents platform.pushEvent queue)
    (reached : ReflTransGen (OxStep platform mayHalt) begun ox)
    (step : ApiStep platform ox after) : Transfers platform mayHalt queue begun ox after := by
  cases step with
  | subscribed call => exact transfers_quiet rfl rfl rfl rfl
  | @published event pushed translator returned =>
      rcases published_cases documented returned with
        ⟨rfl, oxEvent, queued, rfl, translates, appended⟩ | ⟨rfl, same⟩
      · have queuedAs : QueuedAs platform mayHalt begun (ox.trace, oxEvent) queued :=
          ⟨ox, translator, reached, rfl, returned, translates⟩
        refine ⟨[_], [queued], [queued], rfl, .cons queuedAs .nil, List.Sublist.refl _, ?_⟩
        simp only [appended, receivedIn, List.filterMap_cons, Activity.received,
          List.filterMap_nil]
        exact carries_added _ _
      · exact transfers_quiet rfl rfl rfl same

theorem seen_received (translator : Translator Sdl) (uninitialised : OxEvent)
    (sdlEvent : SdlEvent) (now : UInt64) :
    (WaitAnswer.seen translator uninitialised (.event sdlEvent now)).received = some sdlEvent ∧
      (WaitAnswer.seen translator uninitialised (.event sdlEvent now)).sent = none := by
  rw [WaitAnswer.seen]
  split <;> exact ⟨rfl, rfl⟩

theorem transfers_waited (inOrder : WaitsInOrder platform queue) {answer : WaitAnswer} {sdl : Sdl}
    (uninitialised : OxEvent)
    (answered : platform.waitEvent ox.translator.sdl = some (answer, sdl)) :
    Transfers platform mayHalt queue begun ox
      ((ox.withSdl sdl).note (answer.seen ox.translator uninitialised)) := by
  cases answer with
  | failure =>
      obtain ⟨arrived, grown⟩ := inOrder.failed _ _ answered
      refine ⟨[.waitFailed], [], arrived, rfl, .nil, List.nil_sublist _, ?_⟩
      exact grown.symm
  | event sdlEvent now =>
      obtain ⟨arrived, taken⟩ := inOrder.given _ _ _ _ answered
      obtain ⟨received, sent⟩ := seen_received ox.translator uninitialised sdlEvent now
      refine ⟨[_], [], arrived, rfl, ?_, List.nil_sublist _, ?_⟩
      · rw [sentFrom_quiet sent]
        exact .nil
      · simp only [receivedIn, List.filterMap_cons, received, List.filterMap_nil]
        exact taken

theorem CallStep.transfers
    (documented : KeepsQueue platform.registerEvents platform.pushEvent queue) {event : OxEvent}
    (reached : ReflTransGen (OxStep platform mayHalt) begun ox)
    (step : CallStep platform mayHalt event ox after) :
    Transfers platform mayHalt queue begun ox after := by
  cases step with
  | api step => exact step.transfers documented reached
  | quit userData =>
      exact transfers_quiet rfl rfl (Ox.trace_quit _ _) (by rw [quit_translator]; rfl)
  | ran foreign returned => exact transfers_quiet rfl rfl rfl rfl
  | halted allowed foreign stopped => exact transfers_quiet rfl rfl rfl rfl

theorem OxStep.transfers
    (documented : KeepsQueue platform.registerEvents platform.pushEvent queue)
    (inOrder : WaitsInOrder platform queue)
    (reached : ReflTransGen (OxStep platform mayHalt) begun ox)
    (step : OxStep platform mayHalt ox after) :
    Transfers platform mayHalt queue begun ox after := by
  cases step with
  | api step => exact step.transfers documented reached
  | call taken step => exact step.transfers documented reached
  | waited uninitialised answered => exact transfers_waited inOrder uninitialised answered
  | rendered trace => exact transfers_quiet rfl rfl rfl rfl
  | registered renderCb userData => exact transfers_same rfl rfl

theorem steps_transfers
    (documented : KeepsQueue platform.registerEvents platform.pushEvent queue)
    (inOrder : WaitsInOrder platform queue)
    (steps : ReflTransGen (OxStep platform mayHalt) begun after) :
    Transfers platform mayHalt queue begun begun after := by
  induction steps with
  | refl => exact transfers_same rfl rfl
  | tail steps step ih => exact ih.trans (step.transfers documented inOrder steps)

end Queueing

def answersIn (trace : List Activity) : Nat := trace.countP Activity.isAnswer

theorem answersIn_mono {before after : List Activity} (earlier : before <+: after) :
    answersIn before ≤ answersIn after :=
  earlier.sublist.countP_le

theorem answersIn_skips {passed : List Activity}
    (skips : ∀ activity ∈ passed, activity.isSkip = true) (trace : List Activity) :
    answersIn (trace ++ passed) = answersIn trace + passed.length := by
  have all : passed.countP Activity.isAnswer = passed.length := by
    rw [List.countP_eq_length]
    intro activity member
    have skip := skips activity member
    cases activity <;> first | rfl | cases skip
  rw [answersIn, List.countP_append, all, answersIn]

section Progress

variable {Sdl World : Type} {platform : Platform Sdl World} {mayHalt : Prop}
  {queue : Sdl → List SdlEvent} {ox after : Ox Sdl World} {stop : Option Interruption}

/-- Why a run that was not hurt goes no further: so many answers were had, or none comes. -/
inductive Paused (platform : Platform Sdl World) (before : List Activity) (answers : Nat)
    (after : Ox Sdl World) : Interruption → Prop
  | cut (many : answersIn before + answers ≤ answersIn after.trace) :
      Paused platform before answers after .cut
  | waiting (none : platform.waitEvent after.translator.sdl = none) :
      Paused platform before answers after .waiting

theorem Paused.mono {before : List Activity} {answers fewer : Nat} {stop : Interruption}
    (paused : Paused platform before answers after stop) {earlier : List Activity}
    (less : answersIn earlier + fewer ≤ answersIn before + answers) :
    Paused platform earlier fewer after stop := by
  cases paused with
  | cut many => exact .cut (Nat.le_trans less many)
  | waiting none => exact .waiting none

theorem dispatchNext_paused {waits : Nat} {stop : Interruption}
    (stopped : ox.dispatchNext platform waits = (after, some stop))
    (unhurt : stop.isFatal = false) : Paused platform ox.trace waits after stop := by
  obtain ⟨passed, sdl, skips, dispatched⟩ := dispatchNext_cases platform waits ox
  generalize ox.dispatchNext platform waits = result at dispatched stopped
  cases dispatched with
  | stopped noEvent =>
      cases stopped
      cases noEvent with
      | cut all =>
          refine .cut ?_
          rw [Ox.waitedFor, answersIn_skips skips, all]
      | waiting none => exact .waiting none
  | failed => cases stopped
  | taken known =>
      have fatal := deliver_fatal stopped
      rw [unhurt] at fatal
      cases fatal

theorem dispatchNext_answered {waits : Nat}
    (returned : ox.dispatchNext platform waits = (after, none)) :
    answersIn ox.trace + 1 ≤ answersIn after.trace := by
  obtain ⟨passed, sdl, skips, dispatched⟩ := dispatchNext_cases platform waits ox
  generalize ox.dispatchNext platform waits = result at dispatched returned
  have another {activity : Activity} (answer : activity.isAnswer = true) :
      answersIn ox.trace + 1 ≤ answersIn (ox.trace ++ (passed ++ [activity])) := by
    rw [← List.append_assoc, answersIn, answersIn, List.countP_append, List.countP_append]
    simp [answer]
  cases dispatched with
  | stopped noEvent => cases returned
  | failed =>
      cases returned
      exact another rfl
  | @taken sdlEvent event topic known =>
      have steps := Ox.deliver_steps platform event subMax
        (ox.waitedFor sdl (passed ++ [.taken sdlEvent event])) (ox.eventSystem.topics topic)
      rw [returned] at steps
      exact Nat.le_trans (another rfl) (answersIn_mono (callSteps_trace_extends steps))

theorem render_paused {stop : Interruption} (stopped : ox.render platform = (after, some stop)) :
    stop.isFatal = true := by
  rcases render_trace stopped with ⟨⟨⟩, -⟩ | ⟨-, fault, same⟩
  rw [Option.some.inj same]
  rfl

theorem mainLoop_paused {waits rounds : Nat} {stop : Interruption}
    (stopped : ox.mainLoop platform waits rounds = (after, some stop))
    (unhurt : stop.isFatal = false) : Paused platform ox.trace (min waits rounds) after stop := by
  induction rounds generalizing ox with
  | zero =>
      rw [Ox.mainLoop] at stopped
      split at stopped
      · cases stopped
      · cases stopped
        exact .cut (by simp)
  | succ rounds ih =>
      rw [Ox.mainLoop] at stopped
      split at stopped
      case isTrue => cases stopped
      case isFalse =>
        rcases dispatched : ox.dispatchNext platform waits with ⟨between, pause⟩
        simp only [dispatched] at stopped
        cases pause with
        | some pause =>
            cases stopped
            exact (dispatchNext_paused dispatched unhurt).mono (by omega)
        | none =>
            rcases rendered : between.render platform with ⟨shown, pause⟩
            simp only [rendered] at stopped
            cases pause with
            | some pause =>
                cases stopped
                have fatal := render_paused rendered
                rw [unhurt] at fatal
                cases fatal
            | none =>
                have answered := dispatchNext_answered dispatched
                have shows := Ox.render_steps platform between
                rw [rendered] at shows
                have more : answersIn between.trace ≤ answersIn shown.trace :=
                  answersIn_mono (steps_trace_extends shows)
                exact (ih stopped).mono (by omega)

/-- Nothing that is published with success is lost, changed, reordered or received twice, whatever
SDL adds itself, and a run waits forever only when it has received all of it. -/
theorem nothing_lost (documented : KeepsQueue platform.registerEvents platform.pushEvent queue)
    (inOrder : WaitsInOrder platform queue) (sdl : Sdl) (renderer : Pointer) (world : World)
    (calls : List ApiCall) (waits rounds : Nat) :
    let run := platform.run sdl renderer world calls waits rounds
    (∃ sent added,
        List.Forall₂ (QueuedAs platform True (Ox.fresh sdl renderer world)) (sentIn run.1.trace)
          sent ∧
        sent.Sublist added ∧
        queue sdl ++ added = receivedIn run.1.trace ++ queue run.1.translator.sdl) ∧
      (run.2 = some .waiting → queue run.1.translator.sdl = []) := by
  intro run
  obtain ⟨seen, sent, added, trace, translated, among, carries⟩ :=
    steps_transfers documented inOrder (Ox.kernel_steps platform calls waits rounds
      (Ox.fresh sdl renderer world))
  have whole : seen = run.1.trace := by
    rw [trace]
    rfl
  rw [whole] at translated carries
  refine ⟨⟨sent, added, translated, among, carries⟩, fun stays => ?_⟩
  obtain ⟨begun, -, ⟨stop, fatal, ended⟩ | ⟨-, goesOn⟩⟩ :=
    run_cases platform sdl renderer world calls waits rounds
  · have same : some stop = some Interruption.waiting := (congrArg Prod.snd ended).symm.trans stays
    rw [Option.some.inj same] at fatal
    cases fatal
  · have paused := mainLoop_paused (goesOn.symm.trans (Prod.ext rfl stays)) rfl
    cases paused with
    | waiting none => exact inOrder.waiting _ none

/-- Where SDL has ids for all commands, a quit that was received was taken, as a quit. -/
theorem taken_of_received {before : List Activity} {activity : Activity} {sdlEvent : SdlEvent}
    (received : activity.received = some sdlEvent) (isQuit : sdlEvent.type = sdlEventQuit)
    (only : OnlyBuiltIns before activity) :
    ∃ event, activity = .taken sdlEvent event ∧ event.type = OxEventType.quit.code := by
  have builtIn : builtInType sdlEventQuit = some .quit := by decide
  cases activity with
  | skipped other =>
      cases received
      rw [OnlyBuiltIns, isQuit, builtIn] at only
      cases only
  | taken other event =>
      cases received
      rw [OnlyBuiltIns, isQuit, builtIn] at only
      rcases only with own | ⟨-, strange⟩
      · exact ⟨event, rfl, (Option.some.inj own).symm⟩
      · exact absurd strange (by decide)
  | _ => cases received

theorem heardQuit_of_received {trace before rest : List Activity} {activity : Activity}
    {sdlEvent : SdlEvent} (only : Throughout OnlyBuiltIns trace)
    (lets : LetsThrough [OxEventType.quit.topic] trace)
    (split : trace = before ++ activity :: rest)
    (subscribed : Subscribed before platform.quitCall)
    (received : activity.received = some sdlEvent) (isQuit : sdlEvent.type = sdlEventQuit) :
    HeardQuit platform trace := by
  obtain ⟨event, rfl, quits⟩ := taken_of_received received isQuit (only before activity rest split)
  exact ⟨before, _, rest, split, quits,
    lets.listens ⟨_, split.symm⟩ subscribed (List.mem_singleton.mpr rfl)⟩

theorem isAnswer_of_received {activity : Activity} {sdlEvent : SdlEvent}
    (received : activity.received = some sdlEvent) : activity.isAnswer = true := by
  cases activity <;> first | rfl | cases received

theorem received_after {begun trace before rest : List Activity} {activity : Activity}
    {sdlEvent : SdlEvent} (unanswered : ∀ activity ∈ begun, activity.isAnswer = false)
    (earlier : begun <+: trace) (split : trace = before ++ activity :: rest)
    (received : activity.received = some sdlEvent) : begun <+: before := by
  rcases List.prefix_or_prefix_of_prefix earlier ⟨_, split.symm⟩ with within | beyond
  · exact within
  · obtain ⟨more, rfl⟩ := beyond
    cases more with
    | nil => simp
    | cons first more =>
        rw [split, List.prefix_append_right_inj] at earlier
        obtain ⟨rfl, -⟩ := List.cons_prefix_cons.mp earlier
        have other := unanswered first (by simp)
        rw [isAnswer_of_received received] at other
        cases other

theorem queued_of_published {begun : Ox Sdl World} {sent added : List SdlEvent}
    {before trace : List Activity}
    (translated : List.Forall₂ (QueuedAs platform mayHalt begun) (sentFrom before trace) sent)
    (among : sent.Sublist added) {event : OxEvent}
    (published : .published (some event) true ∈ trace) :
    ∃ queued ∈ added, ∃ translator : Translator Sdl, Translates translator event queued := by
  obtain ⟨earlier, member⟩ := mem_sentFrom published
  obtain ⟨index, inside, same⟩ := List.getElem_of_mem member
  have within : index < sent.length := translated.length_eq ▸ inside
  have queuedAs := translated.get inside within
  rw [List.get_eq_getElem, same] at queuedAs
  obtain ⟨ox, translator, -, -, -, translates⟩ := queuedAs
  exact ⟨sent[index], among.subset (List.getElem_mem within), translator, translates⟩

theorem heardQuit_of_published {nextId : Sdl → Nat} (keeps : KeepsIds platform nextId)
    (documented : KeepsQueue platform.registerEvents platform.pushEvent queue)
    (inOrder : WaitsInOrder platform queue) {sdl : Sdl} {renderer : Pointer} {world : World}
    (steps : ReflTransGen (OxStep platform True) (Ox.fresh sdl renderer world) after)
    (empty : queue after.translator.sdl = []) {begun : List Activity}
    (unanswered : ∀ activity ∈ begun, activity.isAnswer = false) (earlier : begun <+: after.trace)
    (subscribed : Subscribed begun platform.quitCall)
    (lets : LetsThrough [OxEventType.quit.topic] after.trace)
    (fits : nextId sdl + 7 * commandsPublished after.trace ≤ 0x10000)
    {event : OxEvent} (isQuit : event.type = OxEventType.quit.code)
    (published : .published (some event) true ∈ after.trace) : HeardQuit platform after.trace := by
  obtain ⟨seen, sent, added, trace, translated, among, carries⟩ :=
    steps_transfers documented inOrder steps
  have whole : seen = after.trace := by
    rw [trace]
    rfl
  rw [whole] at translated carries
  rw [Carries, empty, List.append_nil] at carries
  obtain ⟨queued, member, translator, translates⟩ :=
    queued_of_published translated among published
  have quits : queued.type = sdlEventQuit := by
    rcases translates.type with ⟨-, same⟩ | ⟨isCommand, -⟩
    · exact same
    · rw [isQuit] at isCommand
      exact absurd isCommand (by decide)
  have taken : queued ∈ receivedIn after.trace := carries ▸ List.mem_append_right _ member
  obtain ⟨activity, inside, received⟩ := List.mem_filterMap.mp taken
  obtain ⟨before, rest, split⟩ := List.append_of_mem inside
  exact heardQuit_of_received (steps_onlyBuiltIns keeps steps fits) lets split
    (subscribed.mono (received_after unanswered earlier split received)) received quits

theorem not_waiting_of_published {nextId : Sdl → Nat} (keeps : KeepsIds platform nextId)
    (documented : KeepsQueue platform.registerEvents platform.pushEvent queue)
    (inOrder : WaitsInOrder platform queue) {sdl : Sdl} {renderer : Pointer} {world : World}
    {calls : List ApiCall} {waits rounds : Nat}
    (ended : platform.run sdl renderer world calls waits rounds = (after, stop))
    (lets : LetsThrough [OxEventType.quit.topic] after.trace)
    (fits : nextId sdl + 7 * commandsPublished after.trace ≤ 0x10000) {event : OxEvent}
    (isQuit : event.type = OxEventType.quit.code)
    (published : .published (some event) true ∈ after.trace) : stop ≠ some .waiting := by
  rintro rfl
  have steps : ReflTransGen (OxStep platform True) (Ox.fresh sdl renderer world)
      (platform.run sdl renderer world calls waits rounds).1 :=
    Ox.kernel_steps platform calls waits rounds _
  rw [ended] at steps
  obtain ⟨begun, beginning, ⟨other, fatal, interrupted⟩ | ⟨subscribed, goesOn⟩⟩ :=
    run_cases platform sdl renderer world calls waits rounds
  · have same := congrArg Prod.snd (interrupted.symm.trans ended)
    rw [Option.some.inj same] at fatal
    cases fatal
  have goesOnTo := goesOn.symm.trans ended
  have later := Ox.mainLoop_steps platform waits rounds begun
  have leaves := mainLoop_leavesByQuit beginning.recorded beginning.exits beginning.settled
    (heardLast_of_none beginning.none) waits rounds
  rw [goesOnTo] at later leaves
  have empty : queue after.translator.sdl = [] := by
    cases mainLoop_paused goesOnTo rfl with
    | waiting none => exact inOrder.waiting _ none
  have heard := heardQuit_of_published keeps documented inOrder steps empty
    beginning.unanswered (steps_trace_extends later) subscribed.2 lets fits isQuit published
  have left := ((leaves lets.distinct).left_iff fun stop same => by
    rw [← Option.some.inj same]
    rfl).mpr heard
  cases left

theorem ended_cases (whole : stop ≠ some .cut) (moves : stop ≠ some .waiting) :
    stop = none ∨ ∃ fatal, stop = some fatal ∧ fatal.isFatal = true := by
  match stop with
  | none => exact .inl rfl
  | some .cut => exact absurd rfl whole
  | some .waiting => exact absurd rfl moves
  | some .overflow => exact .inr ⟨_, rfl, rfl⟩
  | some (.halt halt) => exact .inr ⟨_, rfl, rfl⟩

end Progress

theorem idlePlatform_waitsInOrder : WaitsInOrder idlePlatform Prod.snd where
  given sdl sdlEvent now after given := by
    simp only [idlePlatform, waitInOrder] at given
    split at given
    case h_1 => cases given
    case h_2 waiting =>
      cases given
      exact ⟨[], by rw [waiting, List.append_nil]⟩
  failed sdl after failed := by
    simp only [idlePlatform, waitInOrder] at failed
    split at failed <;> cases failed
  waiting sdl waiting := by
    simp only [idlePlatform, waitInOrder] at waiting
    split at waiting
    case h_1 empty => exact empty
    case h_2 => cases waiting

theorem nothing_lost_two :
    let run := idlePlatform.run (0, [keyDownEvent]) 0x90 () quitForTwo 4 4
    (∃ sent added,
        List.Forall₂ (QueuedAs idlePlatform True (Ox.fresh (0, [keyDownEvent]) 0x90 ()))
          (sentIn run.1.trace) sent ∧
        sent.Sublist added ∧
        [keyDownEvent] ++ added = receivedIn run.1.trace ++ run.1.translator.sdl.2) ∧
      (run.2 = some .waiting → run.1.translator.sdl.2 = []) :=
  nothing_lost pushInOrder_keepsQueue idlePlatform_waitsInOrder (0, [keyDownEvent]) 0x90 ()
    quitForTwo 4 4

end YakUnshorn
