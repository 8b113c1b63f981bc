import YakUnshorn.ChordContext
import YakUnshorn.LoopQueue

/-!
The command module on the kernel: what the keys that SDL reports come to in its set of
held keys, and what a key can do to the loop of `main`.
-/

namespace YakUnshorn

open CMachine StepRuns History Relation

section Loading

variable {Sdl Parsers : Type}

/-- The code of the command module. What lies on its stack and what time it is are up to the
state it is in. -/
structure CommandCode (Parsers : Type) where
  address : Pointer
  cmdState : Pointer
  parse : ParseCommand Parsers
  clock : CommandModule Parsers → UInt64
  stack : CommandModule Parsers → OxEvent

def CommandCode.oxInit (command : CommandCode Parsers) : List ApiCall :=
  [.subscribe ⟨OxEventType.keyDown.topic, command.address, command.cmdState⟩,
    .subscribe ⟨OxEventType.keyUp.topic, command.address, command.cmdState⟩]

/-- `handle_key`, whose events go to the kernel. -/
def CommandCode.call (command : CommandCode Parsers) (module : CommandModule Parsers)
    (event : OxEvent) : Except Halt (List ApiCall × CommandModule Parsers) :=
  (handleKey command.parse (command.clock module) (command.stack module) event
    { module with published := [] }).map fun after =>
      (after.published.map fun event => .publish (some event), after)

/-- The platform with the command module beside its other modules, which reach nothing of it but
its parsers. -/
def Platform.withCommand (platform : Platform Sdl Parsers) (command : CommandCode Parsers) :
    Platform Sdl (CommandModule Parsers) where
  registerEvents := platform.registerEvents
  pushEvent := platform.pushEvent
  waitEvent := platform.waitEvent
  rand := platform.rand
  code module callback userData event :=
    if callback = command.address then command.call module event
    else (platform.code module.world callback userData event).map fun (calls, world) =>
      (calls, { module with world })
  quitHandler := platform.quitHandler
  ox := platform.ox
  renderCallback := platform.renderCallback
  uninitialised := platform.uninitialised
  painted := platform.painted

theorem KeepsIds.withCommand {platform : Platform Sdl Parsers} {nextId : Sdl → Nat}
    (keeps : KeepsIds platform nextId) (command : CommandCode Parsers) :
    KeepsIds (platform.withCommand command) nextId :=
  ⟨keeps.handsOut, keeps.pushed, keeps.waited⟩

theorem WaitsInOrder.withCommand {platform : Platform Sdl Parsers} {queue : Sdl → List SdlEvent}
    (inOrder : WaitsInOrder platform queue) (command : CommandCode Parsers) :
    WaitsInOrder (platform.withCommand command) queue :=
  ⟨inOrder.given, inOrder.failed, inOrder.waiting⟩

end Loading

def Activity.handledBy (address : Pointer) : Activity → Option OxEvent
  | .called callback _ event => if callback = address then some event else none
  | _ => none

def handledIn (address : Pointer) (trace : List Activity) : List OxEvent :=
  trace.filterMap (Activity.handledBy address)

def Activity.keyTaken : Activity → Option OxEvent
  | .taken _ event => if event.IsKeyEvent then some event else none
  | _ => none

def keysTaken (trace : List Activity) : List OxEvent := trace.filterMap Activity.keyTaken

@[simp] theorem handledIn_concat (address : Pointer) (trace : List Activity)
    (activity : Activity) : handledIn address (trace ++ [activity]) =
      handledIn address trace ++ (activity.handledBy address).toList := by
  cases seen : activity.handledBy address <;> simp [handledIn, seen]

section Tracking

variable {Sdl Parsers : Type} {platform : Platform Sdl Parsers} {command : CommandCode Parsers}
  {ox after : Ox Sdl (CommandModule Parsers)}

theorem seen_handledBy (address : Pointer) (translator : Translator Sdl)
    (uninitialised : OxEvent) (answer : WaitAnswer) :
    (answer.seen translator uninitialised).handledBy address = none := by
  cases answer with
  | failure => rfl
  | event sdlEvent now =>
      rw [WaitAnswer.seen]
      split <;> rfl

theorem quit_world {World : Type} (ox : Ox Sdl World) (event : OxEvent) :
    (ox.quit event).world = ox.world := by
  rw [Ox.quit]
  split <;> rfl

theorem handledIn_quiet {activity : Activity} {address : Pointer}
    (quiet : activity.handledBy address = none) (trace : List Activity) :
    handledIn address (trace ++ [activity]) = handledIn address trace := by
  rw [handledIn_concat, quiet, Option.toList_none, List.append_nil]

theorem ApiStep.handledIn {World : Type} {platform : Platform Sdl World}
    {ox after : Ox Sdl World} (step : ApiStep platform ox after) (address : Pointer) :
    after.world = ox.world ∧ handledIn address after.trace = handledIn address ox.trace := by
  cases step <;> exact ⟨rfl, handledIn_quiet rfl _⟩

structure ModuleInvariant (command : CommandCode Parsers)
    (holds : CommandModule Parsers → List OxEvent → Prop) : Prop where
  handled : ∀ {module events event calls later}, holds module events →
    command.call module event = .ok (calls, later) → holds later (events ++ [event])
  others : ∀ {module events} world, holds module events → holds { module with world } events

variable {holds : CommandModule Parsers → List OxEvent → Prop}

theorem CallStep.keepsModule (invariant : ModuleInvariant command holds)
    (foreign : command.address ≠ platform.quitHandler) {event : OxEvent}
    (step : CallStep (platform.withCommand command) False event ox after)
    (held : holds ox.world (handledIn command.address ox.trace)) :
    holds after.world (handledIn command.address after.trace) := by
  cases step with
  | api step =>
      obtain ⟨world, events⟩ := step.handledIn command.address
      rwa [world, events]
  | quit userData =>
      rw [quit_world, Ox.trace_quit, Ox.note, handledIn_quiet]
      · exact held
      · exact if_neg (Ne.symm foreign)
  | @ran callback userData calls world other returned =>
      by_cases own : callback = command.address
      · simp only [Platform.withCommand, if_pos own] at returned
        rw [Ox.note, handledIn_concat, Activity.handledBy, if_pos own]
        exact invariant.handled held returned
      · simp only [Platform.withCommand, if_neg own] at returned
        cases answered : platform.code ox.world.world callback userData event with
        | error halt =>
            rw [answered] at returned
            cases returned
        | ok result =>
            rw [answered] at returned
            cases returned
            rw [Ox.note, handledIn_quiet]
            · exact invariant.others _ held
            · exact if_neg own
  | halted allowed => exact allowed.elim

theorem OxStep.keepsModule (invariant : ModuleInvariant command holds)
    (foreign : command.address ≠ platform.quitHandler)
    (step : OxStep (platform.withCommand command) False ox after)
    (held : holds ox.world (handledIn command.address ox.trace)) :
    holds after.world (handledIn command.address after.trace) := by
  cases step with
  | api step =>
      obtain ⟨world, events⟩ := step.handledIn command.address
      rwa [world, events]
  | call taken step => exact step.keepsModule invariant foreign held
  | waited uninitialised answered =>
      rw [Ox.note, handledIn_quiet (seen_handledBy _ _ _ _)]
      exact held
  | rendered trace =>
      rw [Ox.note, handledIn_quiet rfl]
      exact held
  | registered renderCb userData => exact held

theorem steps_keepsModule (invariant : ModuleInvariant command holds)
    (foreign : command.address ≠ platform.quitHandler)
    (steps : ReflTransGen (OxStep (platform.withCommand command) False) ox after)
    (held : holds ox.world (handledIn command.address ox.trace)) :
    holds after.world (handledIn command.address after.trace) := by
  induction steps with
  | refl => exact held
  | tail steps step ih => exact step.keepsModule invariant foreign ih

/-- The handler has returned, of events that its assertion lets through. -/
theorem CommandCode.call_returned {module later : CommandModule Parsers} {event : OxEvent}
    {calls : List ApiCall} (returned : command.call module event = .ok (calls, later)) :
    event.IsKeyEvent ∧ calls = later.published.map (fun event => .publish (some event)) ∧
      keyStep command.parse { module with published := [] }
        ⟨event, command.stack module, command.clock module⟩ = some later := by
  rw [CommandCode.call] at returned
  cases handled : handleKey command.parse (command.clock module) (command.stack module) event
      { module with published := [] } with
  | error halt =>
      rw [handled] at returned
      cases returned
  | ok after =>
      rw [handled] at returned
      cases returned
      refine ⟨?_, rfl, by rw [keyStep, handled]; rfl⟩
      by_contra other
      rw [handleKey, if_pos (not_or.mp other)] at handled
      cases handled

def TracksKeys (module : CommandModule Parsers) (events : List OxEvent) : Prop :=
  (∀ event ∈ events, event.IsKeyEvent) ∧ module.state.keysDown = keysAfter events

theorem tracksKeys_invariant (keeps : KeepsKeys command.parse) :
    ModuleInvariant command TracksKeys where
  handled := by
    rintro module events event calls later ⟨keyEvents, tracks⟩ returned
    obtain ⟨keyEvent, -, stepped⟩ := command.call_returned returned
    refine ⟨?_, ?_⟩
    · rw [List.forall_mem_append]
      exact ⟨keyEvents, by simpa using keyEvent⟩
    · rw [keyStep_keysDown keeps keyEvent stepped]
      change (keyOp event).elim module.state.keysDown (module.state.keysDown.setStep keyEq) = _
      rw [tracks]
      cases op : keyOp event <;> simp [keysAfter, op]
  others world tracks := tracks

end Tracking

section Hearing

variable {address : Pointer} {draws : List Draw} {topic : Fin topicsCount}

def keyTopics : List (Fin topicsCount) := [OxEventType.keyDown.topic, OxEventType.keyUp.topic]

def attachedBy (address : Pointer) (draws : List Draw) : List Draw :=
  draws.filter fun draw => draw.callback = address

/-- The code at the address is subscribed once to each of the key topics and to no other. -/
def AttachedOnce (address : Pointer) (draws : List Draw) : Prop :=
  (attachedBy address draws).map (fun draw => draw.type) = keyTopics

instance (address : Pointer) (draws : List Draw) : Decidable (AttachedOnce address draws) :=
  inferInstanceAs (Decidable (_ = _))

theorem madeFor_countP (address : Pointer) (draws : List Draw) (topic : Fin topicsCount) :
    (madeFor draws topic).countP (fun entry => entry.callback = address) =
      ((attachedBy address draws).map fun draw => draw.type).count topic := by
  simp only [madeFor, attachedBy, List.countP_reverse, List.countP_map, List.countP_filter,
    List.count]
  refine List.countP_congr fun draw _ => ?_
  simp only [Function.comp_apply, Bool.and_eq_true, decide_eq_true_eq, beq_iff_eq]
  exact and_comm

theorem AttachedOnce.madeFor_countP (once : AttachedOnce address draws)
    (topic : Fin topicsCount) :
    (madeFor draws topic).countP (fun entry => entry.callback = address) =
      if topic ∈ keyTopics then 1 else 0 := by
  rw [YakUnshorn.madeFor_countP, once]
  exact List.Nodup.count (by decide) ..

/-- An event for a key topic gets to the code once, and no other does. -/
theorem AttachedOnce.heard_countP {before trace : List Activity}
    (once : AttachedOnce address (drawnIn before)) (lets : LetsThrough keyTopics trace)
    (earlier : before <+: trace) (topic : Fin topicsCount) :
    (heard (drawnIn before) topic).countP (fun entry => entry.callback = address) =
      if topic ∈ keyTopics then 1 else 0 := by
  by_cases member : topic ∈ keyTopics
  · rw [lets.heard_eq earlier member]
    exact once.madeFor_countP topic
  · have none := once.madeFor_countP topic
    rw [if_neg member, List.countP_eq_zero] at none
    rw [if_neg member, List.countP_eq_zero, heard]
    intro entry inside
    have reached := (List.takeWhile_prefix _).subset inside
    split at reached
    · cases reached
    · exact none entry reached

/-- Once the code was subscribed to the last of its topics it is attached. -/
theorem AttachedOnce.earlier {earlier later : List Draw} (once : AttachedOnce address later)
    (before : earlier <+: later)
    (last : ∃ draw ∈ earlier, draw.callback = address ∧ draw.type = OxEventType.keyUp.topic) :
    AttachedOnce address earlier := by
  obtain ⟨draw, member, same, type⟩ := last
  have inside : OxEventType.keyUp.topic ∈
      (attachedBy address earlier).map (fun draw => draw.type) :=
    List.mem_map.mpr ⟨draw, List.mem_filter.mpr ⟨member, decide_eq_true same⟩, type⟩
  obtain ⟨rest, rfl⟩ := before
  rw [AttachedOnce, attachedBy, List.filter_append, List.map_append, ← attachedBy,
    keyTopics] at once
  rw [AttachedOnce]
  generalize (attachedBy address earlier).map (fun draw => draw.type) = types at inside once ⊢
  match types with
  | [] => cases inside
  | [first] =>
      have head := (List.cons.inj once).1
      rw [← List.mem_singleton.mp inside] at head
      cases head
  | first :: second :: more =>
      have heads := List.cons.inj once
      have tails := List.cons.inj heads.2
      rw [heads.1, tails.1, (List.append_eq_nil_iff.mp tails.2).1, keyTopics]

theorem topicIndex_eq_some_iff (type : UInt32) (oxType : OxEventType) :
    topicIndex type = some oxType.topic ↔ type = oxType.code := by
  constructor
  · intro known
    rw [topicIndex] at known
    split at known
    · have value := congrArg Fin.val (Option.some.inj known)
      rw [OxEventType.code, ← value, UInt32.ofNat_toNat]
    · cases known
  · rintro rfl
    cases oxType <;> rfl

theorem isKeyEvent_iff {event : OxEvent} (known : topicIndex event.type = some topic) :
    event.IsKeyEvent ↔ topic ∈ keyTopics := by
  simp only [OxEvent.IsKeyEvent, ← topicIndex_eq_some_iff, known, Option.some.injEq, keyTopics,
    List.mem_cons, List.not_mem_nil, or_false]

def CallbackCall.handledBy (address : Pointer) (call : CallbackCall) : Option OxEvent :=
  if call.1 = address then some call.2.2 else none

theorem handledIn_callsIn (address : Pointer) (trace : List Activity) :
    handledIn address trace = (callsIn trace).filterMap (CallbackCall.handledBy address) := by
  rw [handledIn, callsIn, List.filterMap_filterMap]
  congr 1
  funext activity
  cases activity <;> rfl

theorem handledBy_calls (address : Pointer) (event : OxEvent) (entries : List Entry) :
    (entries.map (Entry.call event)).filterMap (CallbackCall.handledBy address) =
      List.replicate (entries.countP fun entry => entry.callback = address) event := by
  induction entries with
  | nil => rfl
  | cons entry rest ih =>
      rw [List.map_cons, List.filterMap_cons, List.countP_cons, ih]
      by_cases same : entry.callback = address
      · simp [CallbackCall.handledBy, Entry.call, same, List.replicate_succ]
      · simp [CallbackCall.handledBy, Entry.call, same]

variable {before trace : List Activity}

theorem callsFor_handledBy (once : AttachedOnce address (drawnIn before))
    (lets : LetsThrough keyTopics trace) (earlier : before <+: trace) (activity : Activity) :
    (callsFor before activity).filterMap (CallbackCall.handledBy address) =
      activity.keyTaken.toList := by
  cases activity with
  | taken sdlEvent event =>
      rw [callsFor, Activity.keyTaken]
      cases index : topicIndex event.type with
      | none =>
          have other : ¬event.IsKeyEvent := by
            rintro (down | up)
            · rw [(topicIndex_eq_some_iff _ .keyDown).mpr down] at index
              cases index
            · rw [(topicIndex_eq_some_iff _ .keyUp).mpr up] at index
              cases index
          rw [if_neg other]
          rfl
      | some topic =>
          rw [Option.elim_some, handledBy_calls, once.heard_countP lets earlier]
          by_cases key : event.IsKeyEvent
          · rw [if_pos key, if_pos ((isKeyEvent_iff index).mp key)]
            rfl
          · rw [if_neg key, if_neg fun inside => key ((isKeyEvent_iff index).mpr inside)]
            rfl
  | _ => rfl

@[simp] theorem keysTaken_concat (trace : List Activity) (activity : Activity) :
    keysTaken (trace ++ [activity]) = keysTaken trace ++ activity.keyTaken.toList := by
  cases seen : activity.keyTaken <;> simp [keysTaken, seen]

theorem nothing_unanswered {begun : List Activity}
    (unanswered : ∀ activity ∈ begun, activity.isAnswer = false) :
    expectedCalls begun = [] ∧ keysTaken begun = [] := by
  induction begun using List.reverseRecOn with
  | nil => exact ⟨rfl, rfl⟩
  | append_singleton begun activity ih =>
      obtain ⟨expected, keys⟩ := ih fun other member => unanswered other (by simp [member])
      have other := unanswered activity (by simp)
      rw [expectedCalls_concat, keysTaken_concat, expected, keys, callsFor_other other]
      cases activity <;> first | exact ⟨rfl, rfl⟩ | cases other

/-- From when it is attached, the code is expected to be called with all key events and nothing
else. -/
theorem expected_handledBy {begun seen : List Activity}
    (unanswered : ∀ activity ∈ begun, activity.isAnswer = false)
    (lets : LetsThrough keyTopics trace) (part : begun ++ seen <+: trace)
    (attached : ∀ before, begun <+: before → before <+: trace →
      AttachedOnce address (drawnIn before)) :
    (expectedCalls (begun ++ seen)).filterMap (CallbackCall.handledBy address) =
      keysTaken (begun ++ seen) := by
  induction seen using List.reverseRecOn with
  | nil =>
      obtain ⟨expected, keys⟩ := nothing_unanswered unanswered
      rw [List.append_nil, expected, keys]
      rfl
  | append_singleton seen activity ih =>
      rw [← List.append_assoc] at part ⊢
      have earlier := (List.prefix_append _ _).trans part
      rw [expectedCalls_concat, List.filterMap_append, ih earlier, keysTaken_concat]
      congr 1
      exact callsFor_handledBy (attached _ (List.prefix_append _ _) earlier) lets earlier activity

end Hearing

section Keyboard

variable {Sdl World : Type} {platform : Platform Sdl World} {begun after : Ox Sdl World}

/-- In a run whose callbacks return, the code is called with the key events that were taken, each
once and in order. -/
theorem handledIn_eq_keysTaken {address userData : Pointer} {sdl : Sdl} {renderer : Pointer}
    {world : World} {calls : List ApiCall} {waits rounds : Nat} {stop : Option Interruption}
    (ended : platform.run sdl renderer world calls waits rounds = (after, stop))
    (unhurt : ∀ interruption, stop = some interruption → interruption.isFatal = false)
    (lets : LetsThrough keyTopics after.trace)
    (loaded : .subscribe ⟨OxEventType.keyUp.topic, address, userData⟩ ∈ calls)
    (once : AttachedOnce address (drawnIn after.trace)) :
    handledIn address after.trace = keysTaken after.trace := by
  obtain ⟨begun, beginning, ⟨other, fatal, interrupted⟩ | ⟨subscribed, goesOn⟩⟩ :=
    run_cases platform sdl renderer world calls waits rounds
  · have same := congrArg Prod.snd (ended.symm.trans interrupted)
    rw [unhurt other same] at fatal
    cases fatal
  have goesOnTo := goesOn.symm.trans ended
  have later := Ox.mainLoop_steps platform waits rounds begun
  have expected := mainLoop_expected beginning.recorded beginning.settled waits rounds
  rw [goesOnTo] at later expected
  obtain ⟨seen, split⟩ := steps_trace_extends later
  have attached : ∀ before, begun.trace <+: before → before <+: after.trace →
      AttachedOnce address (drawnIn before) := by
    intro before first last
    obtain ⟨id, member⟩ := (subscribed.1 _ loaded).mono first
    exact once.earlier (drawnIn_extends last)
      ⟨_, List.mem_filterMap.mpr ⟨_, member, rfl⟩, rfl, rfl⟩
  have part : begun.trace ++ seen <+: after.trace := by
    rw [split]
  have same := expected_handledBy beginning.unanswered lets part attached
  rw [split] at same
  rw [handledIn_callsIn, (expected lets.distinct).2 unhurt, same]

theorem keysAfter_held {events : List OxEvent} (keyEvents : ∀ event ∈ events, event.IsKeyEvent)
    {key : UInt32} (member : (keysAfter events).Member keyEq key) : Held events key := by
  rw [← mem_heldKeys, heldKeys_eq keyEvents]
  exact CappedSet.foldl_applyWithin_subset polyphony _ (Finset.Subset.refl ∅)
    (((keysAfter_refines events).member key).mp member)

variable {Parsers : Type}

/-- The set of held keys follows the keyboard: after any run whose callbacks return, whatever the
other modules do, it has only keys whose latest event that was taken was a press, and it has all of
them as long as there was room. -/
theorem keys_follow_keyboard (platform : Platform Sdl Parsers) (command : CommandCode Parsers)
    (foreign : command.address ≠ platform.quitHandler) (keeps : KeepsKeys command.parse)
    {sdl : Sdl} {renderer : Pointer} {parsers : Parsers} {calls : List ApiCall}
    {waits rounds : Nat} {after : Ox Sdl (CommandModule Parsers)} {stop : Option Interruption}
    (ended : (platform.withCommand command).run sdl renderer (.zeroed parsers) calls waits rounds =
      (after, stop))
    (unhurt : ∀ interruption, stop = some interruption → interruption.isFatal = false)
    (lets : LetsThrough keyTopics after.trace) (loaded : ∀ call ∈ command.oxInit, call ∈ calls)
    (once : AttachedOnce command.address (drawnIn after.trace)) :
    let keysDown := after.world.state.keysDown
    let events := keysTaken after.trace
    keysDown.Distinct keyEq ∧ (∀ key, keysDown.Member keyEq key → Held events key) ∧
      ((∀ front, front <+: events → (heldKeys front).card ≤ polyphony) →
        ∀ key, keysDown.Member keyEq key ↔ Held events key) := by
  intro keysDown events
  have steps := (steps_rule (platform.withCommand command) False).kernel calls waits rounds
    (Ox.fresh sdl renderer (.zeroed parsers))
  rw [← Platform.run, ended] at steps
  have tracks := steps_keepsModule (tracksKeys_invariant keeps) foreign (steps (.inr unhurt))
    ⟨by simp [handledIn, Ox.fresh], rfl⟩
  have inside : .subscribe ⟨OxEventType.keyUp.topic, command.address, command.cmdState⟩ ∈ calls :=
    loaded _ (by simp [CommandCode.oxInit])
  rw [handledIn_eq_keysTaken ended unhurt lets inside once] at tracks
  obtain ⟨keyEvents, same⟩ := tracks
  have same : keysDown = keysAfter events := same
  rw [same]
  exact ⟨(keysAfter_refines events).distinct, fun key => keysAfter_held keyEvents,
    fun small => keysAfter_member_iff keyEvents small⟩

end Keyboard

def plainCommand (parse : ParseCommand Unit) : CommandCode Unit where
  address := 0x80
  cmdState := 0x81
  parse := parse
  clock _ := 9
  stack _ := quitEvent

def escapeEvent : SdlEvent := { keyDownEvent with key := ⟨41, sdlkEscape, 0, false⟩ }

theorem unhurt_of_eq {stop : Option Interruption} {interruption : Interruption}
    (same : stop = some interruption) (unhurt : interruption.isFatal = false) :
    ∀ other, stop = some other → other.isFatal = false := by
  rintro other rfl
  cases same
  exact unhurt

theorem keys_follow_keyboard_one :
    let run := (idlePlatform.withCommand (plainCommand decliningParsers)).run (0, [keyDownEvent])
      0x90 (.zeroed ()) (plainCommand decliningParsers).oxInit 2 2
    let keysDown := run.1.world.state.keysDown
    let events := keysTaken run.1.trace
    keysDown.Distinct keyEq ∧ (∀ key, keysDown.Member keyEq key → Held events key) ∧
      ((∀ front, front <+: events → (heldKeys front).card ≤ polyphony) →
        ∀ key, keysDown.Member keyEq key ↔ Held events key) := by
  intro run
  have ended : (idlePlatform.withCommand (plainCommand decliningParsers)).run (0, [keyDownEvent])
      0x90 (.zeroed ()) (plainCommand decliningParsers).oxInit 2 2 = (run.1, run.2) :=
    Prod.mk.eta.symm
  have keeps : KeepsKeys decliningParsers := by
    rintro world state parsers chord result ⟨⟩
    rfl
  have waits : run.2 = some .waiting := by decide
  exact keys_follow_keyboard idlePlatform (plainCommand decliningParsers) (by decide) keeps ended
    (unhurt_of_eq waits rfl) ⟨by decide, by decide, by decide⟩ (fun _ member => member) (by decide)

section Escaping

variable {Sdl Parsers : Type} {platform : Platform Sdl Parsers} {command : CommandCode Parsers}

def Activity.handlesEscape (address : Pointer) (activity : Activity) : Bool :=
  (activity.handledBy address).any fun event => event.keyPress.key = sdlkEscape

def Activity.publishesQuit : Activity → Bool
  | .published event _ => event.any fun event => event.type = OxEventType.quit.code
  | _ => false

def escapesHandled (address : Pointer) (trace : List Activity) : Nat :=
  trace.countP (Activity.handlesEscape address)

def quitsPublished (trace : List Activity) : Nat := trace.countP Activity.publishesQuit

/-- From one moment to another, at least as many quits were published as Escape was handled. -/
def AnswersEscape (address : Pointer) (ox after : Ox Sdl (CommandModule Parsers)) : Prop :=
  escapesHandled address after.trace + quitsPublished ox.trace ≤
    escapesHandled address ox.trace + quitsPublished after.trace

theorem answersEscape_of_none {address : Pointer} {ox after : Ox Sdl (CommandModule Parsers)}
    (earlier : ox.trace <+: after.trace)
    (none : escapesHandled address after.trace = escapesHandled address ox.trace) :
    AnswersEscape address ox after := by
  have more : quitsPublished ox.trace ≤ quitsPublished after.trace := earlier.sublist.countP_le
  rw [AnswersEscape, none]
  omega

theorem escapesHandled_concat (address : Pointer) (trace : List Activity) (activity : Activity) :
    escapesHandled address (trace ++ [activity]) =
      escapesHandled address trace + if activity.handlesEscape address then 1 else 0 := by
  simp [escapesHandled, List.countP_singleton]

theorem escapesHandled_quiet {address : Pointer} {activity : Activity}
    (quiet : activity.handledBy address = none) (trace : List Activity) :
    escapesHandled address (trace ++ [activity]) = escapesHandled address trace := by
  simp [escapesHandled_concat, Activity.handlesEscape, quiet]

theorem apiSteps_escapesHandled {ox after : Ox Sdl (CommandModule Parsers)}
    (steps : ReflTransGen (ApiStep (platform.withCommand command)) ox after) (address : Pointer) :
    escapesHandled address after.trace = escapesHandled address ox.trace := by
  induction steps with
  | refl => rfl
  | tail steps step ih =>
      rw [← ih]
      cases step <;> exact escapesHandled_quiet rfl _

theorem handlesEscape_called {address callback userData : Pointer} {event : OxEvent} :
    (Activity.called callback userData event).handlesEscape address = true ↔
      callback = address ∧ event.keyPress.key = sdlkEscape := by
  by_cases same : callback = address <;>
    simp [Activity.handlesEscape, Activity.handledBy, same]

theorem publish_quit {World : Type} (platform : Platform Sdl World) (ox : Ox Sdl World)
    {event : OxEvent} (isQuit : event.type = OxEventType.quit.code) :
    ∃ pushed translator, ox.api platform (.publish (some event)) =
      ({ ox.note (.published (some event) pushed) with translator }, none) := by
  rw [Ox.api, Ox.publish, oxiPublishEvent, oxiToSdlEvent_quit isQuit]
  exact ⟨_, _, rfl⟩

theorem CommandCode.call_escape {module later : CommandModule Parsers} {event : OxEvent}
    {calls : List ApiCall} (returned : command.call module event = .ok (calls, later))
    (escape : event.keyPress.key = sdlkEscape) :
    ∃ quit, calls = [.publish (some quit)] ∧ quit.type = OxEventType.quit.code := by
  obtain ⟨keyEvent, rfl, stepped⟩ := command.call_returned returned
  rw [keyStep, handleKey_escape keyEvent escape] at stepped
  cases stepped
  exact ⟨_, rfl, rfl⟩

theorem call_answersEscape (foreign : command.address ≠ platform.quitHandler)
    (ox : Ox Sdl (CommandModule Parsers)) (callback userData : Pointer) (event : OxEvent)
    (unhurt : Unhurt False (ox.call (platform.withCommand command) callback userData event).2) :
    AnswersEscape command.address ox
      (ox.call (platform.withCommand command) callback userData event).1 := by
  have steps := Ox.call_path (platform.withCommand command) False ox callback userData event unhurt
  have earlier := callSteps_trace_extends steps
  have noted (none : (Activity.called callback userData event).handlesEscape command.address =
      false) : escapesHandled command.address (ox.note (.called callback userData event)).trace =
        escapesHandled command.address ox.trace := by
    simp [Ox.note, escapesHandled_concat, none]
  rw [Ox.call] at unhurt earlier ⊢
  split
  case isTrue same =>
    rw [if_pos same] at earlier
    refine answersEscape_of_none earlier ?_
    rw [Ox.trace_quit]
    apply noted
    have other : callback ≠ command.address := fun here => foreign (here.symm.trans same)
    simp [Activity.handlesEscape, Activity.handledBy, other]
  case isFalse other =>
    rw [if_neg other] at unhurt earlier
    cases returned : (platform.withCommand command).code ox.world callback userData event with
    | error halt =>
        simp only [Ox.note, returned] at unhurt
        exact (unhurt.allowed rfl).elim
    | ok result =>
        obtain ⟨calls, world⟩ := result
        simp only [Ox.note, returned] at earlier ⊢
        cases escapes : (Activity.called callback userData event).handlesEscape command.address with
        | false =>
            refine answersEscape_of_none earlier ?_
            rw [apiSteps_escapesHandled (Ox.apis_steps _ _ calls)]
            exact noted escapes
        | true =>
            obtain ⟨rfl, escape⟩ := handlesEscape_called.mp escapes
            simp only [Platform.withCommand, ↓reduceIte] at returned
            obtain ⟨quit, rfl, isQuit⟩ := command.call_escape returned escape
            obtain ⟨pushed, translator, published⟩ := publish_quit (platform.withCommand command)
              { ox.note (.called command.address userData event) with world } isQuit
            rw [Ox.note] at published
            rw [runUntil_cons_none [] published]
            simp [AnswersEscape, runUntil, Ox.note, escapesHandled, quitsPublished, isQuit, escape,
              Activity.publishesQuit, Activity.handlesEscape, Activity.handledBy]
            omega

theorem escape_rule (foreign : command.address ≠ platform.quitHandler) :
    RunRule (platform.withCommand command) False (AnswersEscape command.address) where
  refl _ := Nat.le_refl _
  trans first second := by
    rw [AnswersEscape] at first second ⊢
    omega
  api step := by
    refine answersEscape_of_none step.trace_extends ?_
    exact apiSteps_escapesHandled (.single step) _
  call ox callback userData event _ unhurt :=
    call_answersEscape foreign ox callback userData event unhurt
  waited uninitialised _ :=
    answersEscape_of_none (List.prefix_append _ _)
      (escapesHandled_quiet (seen_handledBy _ _ _ _) _)
  rendered ox trace :=
    answersEscape_of_none (List.prefix_append _ _) (escapesHandled_quiet rfl _)
  registered ox renderCb userData := Nat.le_refl _

variable {queue : Sdl → List SdlEvent} {nextId : Sdl → Nat} {sdl : Sdl} {renderer : Pointer}
  {parsers : CommandModule Parsers} {calls : List ApiCall} {waits rounds : Nat}
  {after : Ox Sdl (CommandModule Parsers)} {stop : Option Interruption}

/-- Escape that SDL gave was handled, and the handler published a quit. -/
theorem quit_published_of_escape (foreign : command.address ≠ platform.quitHandler)
    (ended : (platform.withCommand command).run sdl renderer parsers calls waits rounds =
      (after, stop))
    (unhurt : ∀ interruption, stop = some interruption → interruption.isFatal = false)
    (lets : LetsThrough keyTopics after.trace)
    (loaded : ∀ call ∈ command.oxInit, call ∈ calls)
    (once : AttachedOnce command.address (drawnIn after.trace))
    (pressed : ∃ event ∈ keysTaken after.trace, event.keyPress.key = sdlkEscape) :
    ∃ activity ∈ after.trace, activity.publishesQuit = true := by
  have answers := (escape_rule foreign).kernel calls waits rounds (Ox.fresh sdl renderer parsers)
  rw [← Platform.run, ended] at answers
  have answered : AnswersEscape command.address (Ox.fresh sdl renderer parsers) after :=
    answers (.inr unhurt)
  have inside : .subscribe ⟨OxEventType.keyUp.topic, command.address, command.cmdState⟩ ∈ calls :=
    loaded _ (by simp [CommandCode.oxInit])
  obtain ⟨event, member, escape⟩ := pressed
  rw [← handledIn_eq_keysTaken ended unhurt lets inside once] at member
  obtain ⟨activity, seen, handled⟩ := List.mem_filterMap.mp member
  have some : 0 < escapesHandled command.address after.trace :=
    List.countP_pos_iff.mpr ⟨activity, seen, by simp [Activity.handlesEscape, handled, escape]⟩
  have before : escapesHandled command.address (Ox.fresh sdl renderer parsers).trace = 0 := rfl
  rw [AnswersEscape] at answered
  exact List.countP_pos_iff.mp (show 0 < quitsPublished after.trace by omega)

/-- A run that a published quit got to SDL in was left, once it is followed to its end. -/
theorem left_of_quit_published {World : Type} {platform : Platform Sdl World} {world : World}
    {after : Ox Sdl World} (keeps : KeepsIds platform nextId)
    (documented : KeepsQueue platform.registerEvents platform.pushEvent queue)
    (inOrder : WaitsInOrder platform queue)
    (ended : platform.run sdl renderer world calls waits rounds = (after, stop))
    (whole : stop ≠ some .cut)
    (unhurt : ∀ interruption, stop = some interruption → interruption.isFatal = false)
    (lets : LetsThrough [OxEventType.quit.topic] after.trace)
    (fits : nextId sdl + 7 * commandsPublished after.trace ≤ 0x10000)
    (accepted : ∀ activity ∈ after.trace, activity.publishesQuit = true →
      activity.sent.isSome = true)
    (quit : ∃ activity ∈ after.trace, activity.publishesQuit = true) : stop = none := by
  obtain ⟨activity, seen, quits⟩ := quit
  cases activity with
  | published event pushed =>
      obtain ⟨event, rfl, isQuit⟩ := (Option.any_eq_true _ _).mp quits
      rw [decide_eq_true_eq] at isQuit
      cases pushed with
      | false => cases accepted _ seen quits
      | true =>
          have moves := not_waiting_of_published keeps documented inOrder ended lets fits isQuit
            seen
          rcases ended_cases whole moves with left | ⟨interruption, same, fatal⟩
          · exact left
          · rw [unhurt interruption same] at fatal
            cases fatal
  | _ => cases quits

/-- Escape ends the loop of `main`: a run in which SDL gave it, and took the quit that follows, was
left once it is followed to its end, if its callbacks return. -/
theorem escape_ends_loop (platform : Platform Sdl Parsers) (command : CommandCode Parsers)
    (foreign : command.address ≠ platform.quitHandler)
    (keeps : KeepsIds (platform.withCommand command) nextId)
    (documented : KeepsQueue platform.registerEvents platform.pushEvent queue)
    (inOrder : WaitsInOrder (platform.withCommand command) queue)
    (ended : (platform.withCommand command).run sdl renderer parsers calls waits rounds =
      (after, stop))
    (whole : stop ≠ some .cut)
    (unhurt : ∀ interruption, stop = some interruption → interruption.isFatal = false)
    (lets : LetsThrough (OxEventType.quit.topic :: keyTopics) after.trace)
    (loaded : ∀ call ∈ command.oxInit, call ∈ calls)
    (once : AttachedOnce command.address (drawnIn after.trace))
    (fits : nextId sdl + 7 * commandsPublished after.trace ≤ 0x10000)
    (accepted : ∀ activity ∈ after.trace, activity.publishesQuit = true →
      activity.sent.isSome = true)
    (pressed : ∃ event ∈ keysTaken after.trace, event.keyPress.key = sdlkEscape) :
    stop = none := by
  have keyLets := lets.of_subset (List.subset_cons_self _ _)
  have quitLets : LetsThrough [OxEventType.quit.topic] after.trace :=
    lets.of_subset (by simp)
  have quit := quit_published_of_escape foreign ended unhurt keyLets loaded once pressed
  exact left_of_quit_published keeps documented inOrder ended whole unhurt quitLets fits accepted
    quit

end Escaping

theorem escape_ends_loop_pressed :
    let platform := idlePlatform.withCommand (plainCommand decliningParsers)
    (platform.run (0, [keyDownEvent, escapeEvent]) 0x90 (.zeroed ())
      (plainCommand decliningParsers).oxInit 3 3).2 = none := by
  intro platform
  have keeps := idlePlatform_keepsIds.withCommand (plainCommand decliningParsers)
  have inOrder := idlePlatform_waitsInOrder.withCommand (plainCommand decliningParsers)
  let run := platform.run (0, [keyDownEvent, escapeEvent]) 0x90 (.zeroed ())
    (plainCommand decliningParsers).oxInit 3 3
  have ended : platform.run (0, [keyDownEvent, escapeEvent]) 0x90 (.zeroed ())
    (plainCommand decliningParsers).oxInit 3 3 = (run.1, run.2) :=
    Prod.mk.eta.symm
  have returns : ∀ stop, run.2 = some stop → stop.isFatal = false := by
    have left : run.2 = none := by decide
    simp [left]
  exact escape_ends_loop idlePlatform (plainCommand decliningParsers) (by decide) keeps
    pushInOrder_keepsQueue inOrder ended (by decide) returns ⟨by decide, by decide, by decide⟩
    (fun _ member => member) (by decide) (by decide) (by decide) (by decide)

section Shipped

variable {Sdl Parsers : Type} {command : CommandCode Parsers}

end Shipped

end YakUnshorn
