import YakUnshorn.CommandRuns
import YakUnshorn.EventLoop
import YakUnshorn.Lib.History
import YakUnshorn.NullCallbacks

/-!
Which events a run of the kernel gets to see: what becomes of the commands that are
published, and for how long the loop of `main` can be left.
-/

namespace YakUnshorn

open CMachine StepRuns History Relation

def publishesCommand (event : Option OxEvent) : Bool :=
  event.any fun event => event.type = OxEventType.command.code

def Activity.publishesCommand : Activity → Bool
  | .published event _ => YakUnshorn.publishesCommand event
  | _ => false

def commandsPublished (trace : List Activity) : Nat := trace.countP Activity.publishesCommand

section Publishing

variable {Sdl : Type} {registerEvents : RegisterEvents Sdl} {pushEvent : PushEvent Sdl}
  {before after : Translator Sdl} {event : Option OxEvent} {pushed : Bool}

def quitSdlEvent (event : OxEvent) : SdlEvent :=
  { sdlZero with timestamp := event.timestamp, type := sdlEventQuit }

theorem oxiPublishEvent_cases
    (returned : oxiPublishEvent registerEvents pushEvent before event =
      some (.ok (pushed, after))) :
    ∃ oxEvent, event = some oxEvent ∧
      ((oxEvent.type = OxEventType.quit.code ∧
          pushEvent before.sdl (quitSdlEvent oxEvent) = (pushed, after.sdl) ∧
          after = { before with sdl := after.sdl }) ∨
        (oxEvent.type = OxEventType.command.code ∧ ∃ type middle,
          getCmdEventType registerEvents before oxEvent.cmd.code = some (type, middle) ∧
          pushEvent middle.sdl (commandSdlEvent oxEvent sdlZero type) = (pushed, after.sdl) ∧
          after = { middle with sdl := after.sdl }) ∨
        (oxEvent.type ≠ OxEventType.quit.code ∧ oxEvent.type ≠ OxEventType.command.code ∧
          pushed = false ∧ after = before)) := by
  cases event with
  | none => cases returned
  | some oxEvent =>
      refine ⟨oxEvent, rfl, ?_⟩
      rw [oxiPublishEvent] at returned
      by_cases isQuit : oxEvent.type = OxEventType.quit.code
      · rw [oxiToSdlEvent_quit isQuit] at returned
        cases returned
        exact .inl ⟨isQuit, rfl, rfl⟩
      by_cases isCommand : oxEvent.type = OxEventType.command.code
      · rw [oxiToSdlEvent_command before isCommand] at returned
        cases typed : getCmdEventType registerEvents before oxEvent.cmd.code with
        | none => simp [typed] at returned
        | some result =>
            rw [typed] at returned
            cases returned
            exact .inr (.inl ⟨isCommand, _, _, rfl, rfl, rfl⟩)
      · rw [oxiToSdlEvent_unknown isQuit isCommand] at returned
        cases returned
        exact .inr (.inr ⟨isQuit, isCommand, rfl, rfl⟩)

end Publishing

section Counting

variable {Sdl World : Type} {platform : Platform Sdl World} {mayHalt : Prop}
  {nextId : Sdl → Nat} {start : Nat}

/-- What SDL documents of its ids: they are handed out in order, and pushing events and waiting for
them hands out none. -/
structure KeepsIds (platform : Platform Sdl World) (nextId : Sdl → Nat) : Prop where
  handsOut : HandsOutIds platform.registerEvents nextId
  pushed : ∀ sdl event, nextId (platform.pushEvent sdl event).2 = nextId sdl
  waited : ∀ sdl answer after, platform.waitEvent sdl = some (answer, after) →
    nextId after = nextId sdl

theorem Counted.withSdl {n : Nat} {translator : Translator Sdl}
    (counted : Counted nextId start n translator) {sdl : Sdl}
    (same : nextId sdl = nextId translator.sdl) :
    Counted nextId start n { translator with sdl } where
  last := counted.last
  representable := counted.representable
  unused := counted.unused
  fitting fits := by simpa only [same] using counted.fitting fits
  exhausted full := by simpa only [same] using counted.exhausted full

theorem Counted.publish (keeps : KeepsIds platform nextId) {n : Nat}
    {before after : Translator Sdl} (counted : Counted nextId start n before)
    {event : Option OxEvent} {pushed : Bool}
    (returned : oxiPublishEvent platform.registerEvents platform.pushEvent before event =
      some (.ok (pushed, after))) :
    Counted nextId start (n + if publishesCommand event then 1 else 0) after := by
  obtain ⟨oxEvent, rfl, ⟨isQuit, sent, shape⟩ | ⟨isCommand, type, middle, typed, sent, shape⟩ |
    ⟨-, notCommand, -, rfl⟩⟩ := oxiPublishEvent_cases returned
  · have other : publishesCommand (some oxEvent) = false := by
      simp only [publishesCommand, Option.any_some, isQuit]
      decide
    have kept := keeps.pushed before.sdl (quitSdlEvent oxEvent)
    rw [sent] at kept
    rw [other, shape]
    exact counted.withSdl kept
  · have kept := keeps.pushed middle.sdl (commandSdlEvent oxEvent sdlZero type)
    rw [sent] at kept
    rw [shape]
    simp only [publishesCommand, Option.any_some, isCommand, decide_true, ↓reduceIte]
    exact (counted.encode keeps.handsOut typed).1.withSdl kept
  · simpa [publishesCommand, notCommand] using counted

/-- The commands published so far are as many as the translation has encoded. -/
def CountsCommands (nextId : Sdl → Nat) (start : Nat) (ox : Ox Sdl World) : Prop :=
  Counted nextId start (commandsPublished ox.trace) ox.translator

theorem commandsPublished_concat (trace : List Activity) (activity : Activity) :
    commandsPublished (trace ++ [activity]) =
      commandsPublished trace + if activity.publishesCommand then 1 else 0 := by
  simp [commandsPublished, List.countP_singleton]

theorem commandsPublished_other {activity : Activity} (other : activity.publishesCommand = false)
    (trace : List Activity) :
    commandsPublished (trace ++ [activity]) = commandsPublished trace := by
  simp [commandsPublished_concat, other]

theorem CountsCommands.note {ox after : Ox Sdl World} (counts : CountsCommands nextId start ox)
    {activity : Activity} (other : activity.publishesCommand = false)
    (trace : after.trace = ox.trace ++ [activity]) (translator : after.translator = ox.translator) :
    CountsCommands nextId start after := by
  rw [CountsCommands, trace, translator, commandsPublished_other other]
  exact counts

theorem ApiStep.countsCommands (keeps : KeepsIds platform nextId) {ox after : Ox Sdl World}
    (step : ApiStep platform ox after) (counts : CountsCommands nextId start ox) :
    CountsCommands nextId start after := by
  cases step with
  | subscribed call => exact counts.note rfl rfl rfl
  | published returned =>
      have counted := Counted.publish keeps counts returned
      rw [CountsCommands, Ox.note, commandsPublished_concat]
      exact counted

theorem quit_translator (ox : Ox Sdl World) (event : OxEvent) :
    (ox.quit event).translator = ox.translator := by
  rw [Ox.quit]
  split <;> rfl

theorem CallStep.countsCommands (keeps : KeepsIds platform nextId) {event : OxEvent}
    {ox after : Ox Sdl World} (step : CallStep platform mayHalt event ox after)
    (counts : CountsCommands nextId start ox) : CountsCommands nextId start after := by
  cases step with
  | api step => exact step.countsCommands keeps counts
  | quit userData =>
      have called : CountsCommands nextId start
          (ox.note (.called platform.quitHandler userData event)) := counts.note rfl rfl rfl
      rw [CountsCommands, Ox.trace_quit, quit_translator]
      exact called
  | ran foreign returned => exact counts.note rfl rfl rfl
  | halted allowed foreign stopped => exact counts.note rfl rfl rfl

theorem seen_publishes (translator : Translator Sdl) (uninitialised : OxEvent)
    (answer : WaitAnswer) : (answer.seen translator uninitialised).publishesCommand = false := by
  cases answer with
  | failure => rfl
  | event sdlEvent now =>
      rw [WaitAnswer.seen]
      split <;> rfl

theorem OxStep.countsCommands (keeps : KeepsIds platform nextId) {ox after : Ox Sdl World}
    (step : OxStep platform mayHalt ox after) (counts : CountsCommands nextId start ox) :
    CountsCommands nextId start after := by
  cases step with
  | api step => exact step.countsCommands keeps counts
  | call taken step => exact step.countsCommands keeps counts
  | waited uninitialised answered =>
      rw [CountsCommands, Ox.note, commandsPublished_other (seen_publishes _ _ _)]
      exact counts.withSdl (keeps.waited _ _ _ answered)
  | rendered trace => exact counts.note rfl rfl rfl
  | registered renderCb userData => exact counts

/-- What was taken and what was skipped, each by a translation that had encoded as many commands
as had been published by then. -/
def TranslatedBy (nextId : Sdl → Nat) (start : Nat) (before : List Activity) :
    Activity → Prop
  | .taken sdlEvent event => ∃ translator now uninitialised,
      Counted nextId start (commandsPublished before) translator ∧
        oxiFromSdlEvent translator now sdlEvent uninitialised = some event
  | .skipped sdlEvent => ∃ translator now uninitialised,
      Counted nextId start (commandsPublished before) translator ∧
        oxiFromSdlEvent translator now sdlEvent uninitialised = none
  | _ => True

def Activity.isAnswer : Activity → Bool
  | .taken _ _ => true
  | .skipped _ => true
  | .waitFailed => true
  | _ => false

theorem translatedBy_other {activity : Activity} (other : activity.isAnswer = false)
    (before : List Activity) : TranslatedBy nextId start before activity := by
  cases activity <;> trivial

theorem ApiStep.trace_grows {ox after : Ox Sdl World} (step : ApiStep platform ox after) :
    ∃ activity, after.trace = ox.trace ++ [activity] ∧ activity.isAnswer = false := by
  cases step <;> exact ⟨_, rfl, rfl⟩

theorem CallStep.trace_grows {event : OxEvent} {ox after : Ox Sdl World}
    (step : CallStep platform mayHalt event ox after) :
    ∃ activity, after.trace = ox.trace ++ [activity] ∧ activity.isAnswer = false := by
  cases step with
  | api step => exact step.trace_grows
  | quit userData => exact ⟨_, Ox.trace_quit _ _, rfl⟩
  | ran foreign returned => exact ⟨_, rfl, rfl⟩
  | halted allowed foreign stopped => exact ⟨_, rfl, rfl⟩

/-- A step sees one thing at most, and an answer of `SDL_WaitEvent` only where there is one. -/
theorem OxStep.trace_cases {ox after : Ox Sdl World} (step : OxStep platform mayHalt ox after) :
    after.trace = ox.trace ∨
      (∃ activity, after.trace = ox.trace ++ [activity] ∧ activity.isAnswer = false) ∨
      ∃ answer uninitialised,
        after.trace = ox.trace ++ [WaitAnswer.seen ox.translator uninitialised answer] := by
  cases step with
  | api step => exact .inr (.inl step.trace_grows)
  | call taken step => exact .inr (.inl step.trace_grows)
  | waited uninitialised answered => exact .inr (.inr ⟨_, uninitialised, rfl⟩)
  | rendered trace => exact .inr (.inl ⟨_, rfl, rfl⟩)
  | registered renderCb userData => exact .inl rfl

theorem seen_translatedBy {ox : Ox Sdl World} (counts : CountsCommands nextId start ox)
    (uninitialised : OxEvent) (answer : WaitAnswer) :
    TranslatedBy nextId start ox.trace (answer.seen ox.translator uninitialised) := by
  cases answer with
  | failure => trivial
  | event sdlEvent now =>
      cases translated : oxiFromSdlEvent ox.translator now sdlEvent uninitialised with
      | none =>
          simp only [WaitAnswer.seen, translated]
          exact ⟨_, now, uninitialised, counts, translated⟩
      | some event =>
          simp only [WaitAnswer.seen, translated]
          exact ⟨_, now, uninitialised, counts, translated⟩

theorem steps_translated (keeps : KeepsIds platform nextId) {ox after : Ox Sdl World}
    (steps : ReflTransGen (OxStep platform mayHalt) ox after)
    (counts : CountsCommands nextId start ox)
    (translated : Throughout (TranslatedBy nextId start) ox.trace) :
    CountsCommands nextId start after ∧
      Throughout (TranslatedBy nextId start) after.trace := by
  induction steps with
  | refl => exact ⟨counts, translated⟩
  | tail steps step ih =>
      refine ⟨step.countsCommands keeps ih.1, ?_⟩
      rcases step.trace_cases with same | ⟨activity, grown, other⟩ | ⟨answer, uninitialised, grown⟩
      · exact same ▸ ih.2
      · rw [grown, throughout_concat]
        exact ⟨ih.2, translatedBy_other other _⟩
      · rw [grown, throughout_concat]
        exact ⟨ih.2, seen_translatedBy ih.1 uninitialised answer⟩

theorem countsCommands_fresh (nextId : Sdl → Nat) (sdl : Sdl) (renderer : Pointer)
    (world : World) : CountsCommands nextId (nextId sdl) (Ox.fresh sdl renderer world) :=
  counted_programStart nextId sdl

theorem kernel_translated (keeps : KeepsIds platform nextId) (sdl : Sdl) (renderer : Pointer)
    (world : World) (calls : List ApiCall) (waits rounds : Nat) :
    Throughout (TranslatedBy nextId (nextId sdl))
      (platform.run sdl renderer world calls waits rounds).1.trace :=
  (steps_translated keeps (Ox.kernel_steps platform calls waits rounds _)
    (countsCommands_fresh nextId sdl renderer world) (throughout_nil _)).2

/-- Every event that a callback is called with was taken before. -/
def CalledWithTaken (before : List Activity) : Activity → Prop
  | .called _ _ event => ∃ sdlEvent, Activity.taken sdlEvent event ∈ before
  | _ => True

theorem CallStep.calledWithTaken {event : OxEvent} {ox after : Ox Sdl World}
    (step : CallStep platform mayHalt event ox after)
    (taken : ∃ sdlEvent, Activity.taken sdlEvent event ∈ ox.trace) :
    ∃ activity, after.trace = ox.trace ++ [activity] ∧ CalledWithTaken ox.trace activity := by
  cases step with
  | api step => cases step <;> exact ⟨_, rfl, trivial⟩
  | quit userData => exact ⟨_, Ox.trace_quit _ _, taken⟩
  | ran foreign returned => exact ⟨_, rfl, taken⟩
  | halted allowed foreign stopped => exact ⟨_, rfl, taken⟩

theorem seen_calledWithTaken (before : List Activity) (translator : Translator Sdl)
    (uninitialised : OxEvent) (answer : WaitAnswer) :
    CalledWithTaken before (answer.seen translator uninitialised) := by
  cases answer with
  | failure => trivial
  | event sdlEvent now =>
      rw [WaitAnswer.seen]
      split <;> trivial

theorem steps_calledWithTaken {ox after : Ox Sdl World}
    (steps : ReflTransGen (OxStep platform mayHalt) ox after)
    (initially : Throughout CalledWithTaken ox.trace) :
    Throughout CalledWithTaken after.trace := by
  induction steps with
  | refl => exact initially
  | tail steps step ih =>
      cases step with
      | api step =>
          cases step <;> exact throughout_concat.mpr ⟨ih, trivial⟩
      | call taken step =>
          obtain ⟨activity, grown, right⟩ := step.calledWithTaken taken
          rw [grown]
          exact throughout_concat.mpr ⟨ih, right⟩
      | waited uninitialised answered =>
          exact throughout_concat.mpr ⟨ih, seen_calledWithTaken _ _ _ _⟩
      | rendered trace => exact throughout_concat.mpr ⟨ih, trivial⟩
      | registered renderCb userData => exact ih

end Counting

section Fitting

variable {Sdl World : Type} {platform : Platform Sdl World} {mayHalt : Prop}
  {nextId : Sdl → Nat} {start n : Nat} {translator : Translator Sdl}

/-- While there are ids left, the range of the commands holds at most the type that SDL never
gives. -/
theorem Counted.outOfRange (counted : Counted nextId start n translator)
    (lowest : 0x8000 ≤ start) (fits : start + 7 * n ≤ 0x10000) (type : UInt32) :
    OutOfRange translator type ∨ n = 0 ∧ type = 0xFFFFFFFF := by
  have last := counted.last
  by_contra inside
  rw [not_or, OutOfRange, not_not] at inside
  obtain ⟨⟨lower, upper⟩, other⟩ := inside
  rcases Nat.eq_zero_or_pos n with rfl | some
  · refine other ⟨rfl, ?_⟩
    rw [counted.unused rfl] at lower
    have bottom : UInt32.ofInt (-1) = 0xFFFFFFFF := by decide
    rw [bottom] at lower
    have most := type.toNat_lt
    have least := UInt32.le_iff_toNat_le.mp lower
    have top : (0xFFFFFFFF : UInt32).toNat = 0xFFFFFFFF := by decide
    exact UInt32.toNat_inj.mp (by omega)
  · have first := (counted.fitting fits).2 some
    rw [UInt32.le_iff_toNat_le, toNat_ofInt (by omega) (by omega)] at lower
    rw [UInt32.le_iff_toNat_le, toNat_ofInt (by omega) (by omega)] at upper
    omega

/-- SDL's own events get through, and nothing else does unless SDL gives the type that it never
gives before the first command. -/
def OnlyBuiltIns (before : List Activity) : Activity → Prop
  | .taken sdlEvent event =>
      (builtInType sdlEvent.type).map OxEventType.code = some event.type ∨
        commandsPublished before = 0 ∧ sdlEvent.type = 0xFFFFFFFF
  | .skipped sdlEvent => builtInType sdlEvent.type = none
  | _ => True

theorem TranslatedBy.onlyBuiltIns {before : List Activity} {activity : Activity}
    (translated : TranslatedBy nextId start before activity) (lowest : 0x8000 ≤ start)
    (fits : start + 7 * commandsPublished before ≤ 0x10000) : OnlyBuiltIns before activity := by
  cases activity with
  | taken sdlEvent event =>
      obtain ⟨translator, now, uninitialised, counted, decoded⟩ := translated
      rcases counted.outOfRange lowest fits sdlEvent.type with outside | strange
      · left
        rw [← oxiFromSdlEvent_outOfRange outside now uninitialised, decoded]
        rfl
      · exact .inr strange
  | skipped sdlEvent =>
      obtain ⟨translator, now, uninitialised, counted, decoded⟩ := translated
      by_cases outside : OutOfRange translator sdlEvent.type
      · have types := oxiFromSdlEvent_outOfRange outside now uninitialised
        rw [decoded] at types
        exact Option.map_eq_none_iff.mp types.symm
      · obtain ⟨lower, upper⟩ := not_not.mp outside
        rw [oxiFromSdlEvent_inside translator sdlEvent lower upper] at decoded
        simp at decoded
  | _ => trivial

theorem commandsPublished_mono {before after : List Activity} (earlier : before <+: after) :
    commandsPublished before ≤ commandsPublished after :=
  earlier.sublist.countP_le

theorem steps_onlyBuiltIns (keeps : KeepsIds platform nextId) {sdl : Sdl} {renderer : Pointer}
    {world : World} {after : Ox Sdl World}
    (steps : ReflTransGen (OxStep platform mayHalt) (Ox.fresh sdl renderer world) after)
    (fits : nextId sdl + 7 * commandsPublished after.trace ≤ 0x10000) :
    Throughout OnlyBuiltIns after.trace := by
  have translated := (steps_translated keeps steps
    (countsCommands_fresh nextId sdl renderer world) (throughout_nil _)).2
  intro before activity rest split
  have earlier : before <+: after.trace := ⟨_, split.symm⟩
  have fewer := commandsPublished_mono earlier
  exact (translated before activity rest split).onlyBuiltIns (keeps.handsOut.lowest sdl) (by omega)

/-- While SDL has ids for all commands that a run publishes, the run gets to see SDL's own events
and no others, and no callback is called with a command, unless SDL gave an event of type
0xFFFFFFFF. -/
theorem commands_never_arrive (keeps : KeepsIds platform nextId) (sdl : Sdl) (renderer : Pointer)
    (world : World) (calls : List ApiCall) (waits rounds : Nat) :
    let trace := (platform.run sdl renderer world calls waits rounds).1.trace
    nextId sdl + 7 * commandsPublished trace ≤ 0x10000 →
      Throughout OnlyBuiltIns trace ∧
        ∀ callback userData event, .called callback userData event ∈ trace →
          event.type = OxEventType.command.code →
            ∃ sdlEvent, .taken sdlEvent event ∈ trace ∧ sdlEvent.type = 0xFFFFFFFF := by
  intro trace fits
  have steps := Ox.kernel_steps platform calls waits rounds (Ox.fresh sdl renderer world)
  have only : Throughout OnlyBuiltIns trace := steps_onlyBuiltIns keeps steps fits
  refine ⟨only, fun callback userData event called isCommand => ?_⟩
  have taken : Throughout CalledWithTaken trace :=
    steps_calledWithTaken steps (throughout_nil _)
  obtain ⟨before, earlier, sdlEvent, member⟩ := taken.of_mem called
  obtain ⟨front, -, known⟩ := only.of_mem (earlier.subset member)
  refine ⟨sdlEvent, earlier.subset member, ?_⟩
  rcases known with own | strange
  · obtain ⟨oxType, builtIn, same⟩ := Option.map_eq_some_iff.mp own
    exact absurd (same.trans isCommand) (builtInType_ne_command builtIn)
  · exact strange.2

/-- Once SDL has no ids left, what it gives is taken for commands up to the end of the range, which
every command moves further. -/
def TakenForCommand (start : Nat) (before : List Activity) : Activity → Prop
  | .taken sdlEvent event =>
      0x10000 < start + 7 * commandsPublished before →
        sdlEvent.type.toNat < 6 * commandsPublished before →
          event.type = OxEventType.command.code ∧ event.cmd.code = sdlEvent.type
  | _ => True

/-- Only a quit is taken for a quit, and only while SDL has ids or few commands were published. -/
def QuitInTime (start : Nat) (before : List Activity) : Activity → Prop
  | .taken sdlEvent event => event.type = OxEventType.quit.code →
      sdlEvent.type = sdlEventQuit ∧
        (start + 7 * commandsPublished before ≤ 0x10000 ∨ commandsPublished before ≤ 42)
  | _ => True

theorem Counted.captures (counted : Counted nextId start n translator)
    (full : 0x10000 < start + 7 * n) {sdlEvent : SdlEvent} (within : sdlEvent.type.toNat < 6 * n)
    {now : UInt64} {uninitialised event : OxEvent}
    (decoded : oxiFromSdlEvent translator now sdlEvent uninitialised = some event) :
    event.type = OxEventType.command.code ∧ event.cmd.code = sdlEvent.type := by
  have last := counted.last
  have representable := counted.representable
  have first : UInt32.ofInt translator.cmdEventTypeFirst = 0 := by
    rw [(counted.exhausted full).2 (by omega)]
    rfl
  rw [oxiFromSdlEvent_inside translator sdlEvent] at decoded
  · rw [← Option.some.inj decoded, first]
    exact ⟨rfl, UInt32.sub_zero _⟩
  · rw [first, UInt32.le_iff_toNat_le]
    exact Nat.zero_le _
  · rw [UInt32.le_iff_toNat_le, toNat_ofInt (by omega) (by omega)]
    omega

theorem decoded_quit {sdlEvent : SdlEvent} {now : UInt64} {uninitialised event : OxEvent}
    (decoded : oxiFromSdlEvent translator now sdlEvent uninitialised = some event)
    (isQuit : event.type = OxEventType.quit.code) : sdlEvent.type = sdlEventQuit := by
  by_cases outside : OutOfRange translator sdlEvent.type
  · have types := oxiFromSdlEvent_outOfRange outside now uninitialised
    rw [decoded, Option.map_some, isQuit] at types
    obtain ⟨oxType, builtIn, same⟩ := Option.map_eq_some_iff.mp types.symm
    rcases builtInType_cases builtIn with ⟨quit, -⟩ | ⟨-, rfl⟩ | ⟨-, rfl⟩ | ⟨-, rfl⟩
    · exact quit
    all_goals exact absurd same (by decide)
  · obtain ⟨lower, upper⟩ := not_not.mp outside
    rw [oxiFromSdlEvent_inside translator sdlEvent lower upper] at decoded
    rw [← Option.some.inj decoded] at isQuit
    change OxEventType.command.code = OxEventType.quit.code at isQuit
    exact absurd isQuit (by decide)

theorem TranslatedBy.takenForCommand {before : List Activity} {activity : Activity}
    (translated : TranslatedBy nextId start before activity) :
    TakenForCommand start before activity := by
  cases activity with
  | taken sdlEvent event =>
      obtain ⟨translator, now, uninitialised, counted, decoded⟩ := translated
      exact fun full within => counted.captures full within decoded
  | _ => trivial

theorem TranslatedBy.quitInTime {before : List Activity} {activity : Activity}
    (translated : TranslatedBy nextId start before activity) :
    QuitInTime start before activity := by
  cases activity with
  | taken sdlEvent event =>
      obtain ⟨translator, now, uninitialised, counted, decoded⟩ := translated
      intro isQuit
      have isSdlQuit := decoded_quit decoded isQuit
      refine ⟨isSdlQuit, ?_⟩
      by_contra late
      have number : sdlEvent.type.toNat = 0x100 := by
        rw [isSdlQuit]
        decide
      have captured := (counted.captures (by omega) (by omega) decoded).1
      rw [isQuit] at captured
      exact absurd captured (by decide)
  | _ => trivial

end Fitting

section Handling

variable {Sdl World : Type} {platform : Platform Sdl World} {mayHalt : Prop}
  {ox after : Ox Sdl World}

def QuitHandled (platform : Platform Sdl World) (trace : List Activity) : Prop :=
  ∃ userData event, .called platform.quitHandler userData event ∈ trace ∧
    event.type = OxEventType.quit.code

def ExitsWhenHandled (platform : Platform Sdl World) (ox : Ox Sdl World) : Prop :=
  ox.shouldExit = true ↔ QuitHandled platform ox.trace

def Activity.HandlesNone (platform : Platform Sdl World) (activity : Activity) : Prop :=
  ∀ userData event, activity = .called platform.quitHandler userData event →
    event.type ≠ OxEventType.quit.code

theorem quitHandled_other {activity : Activity} (none : activity.HandlesNone platform)
    (trace : List Activity) :
    QuitHandled platform (trace ++ [activity]) ↔ QuitHandled platform trace := by
  constructor
  · rintro ⟨userData, event, member, isQuit⟩
    rcases List.mem_append.mp member with before | here
    · exact ⟨userData, event, before, isQuit⟩
    · exact absurd isQuit (none userData event (List.mem_singleton.mp here).symm)
  · rintro ⟨userData, event, before, isQuit⟩
    exact ⟨userData, event, List.mem_append_left _ before, isQuit⟩

theorem ExitsWhenHandled.note (exits : ExitsWhenHandled platform ox) {activity : Activity}
    (none : activity.HandlesNone platform) (trace : after.trace = ox.trace ++ [activity])
    (same : after.shouldExit = ox.shouldExit) : ExitsWhenHandled platform after := by
  rw [ExitsWhenHandled, trace, quitHandled_other none, same]
  exact exits

theorem seen_handlesNone (translator : Translator Sdl) (uninitialised : OxEvent)
    (answer : WaitAnswer) : (answer.seen translator uninitialised).HandlesNone platform := by
  intro userData event same
  cases answer with
  | failure => cases same
  | event sdlEvent now =>
      rw [WaitAnswer.seen] at same
      split at same <;> cases same

theorem handlesNone_foreign {callback : Pointer} (foreign : callback ≠ platform.quitHandler)
    (userData : Pointer) (event : OxEvent) :
    (Activity.called callback userData event).HandlesNone platform := by
  rintro _ _ ⟨⟩
  exact absurd rfl foreign

theorem OxStep.exitsWhenHandled (step : OxStep platform mayHalt ox after)
    (exits : ExitsWhenHandled platform ox) : ExitsWhenHandled platform after := by
  cases step with
  | api step => cases step <;> exact exits.note (by simp [Activity.HandlesNone]) rfl rfl
  | @call _ event taken step =>
      cases step with
      | api step => cases step <;> exact exits.note (by simp [Activity.HandlesNone]) rfl rfl
      | quit userData =>
          by_cases isQuit : event.type = OxEventType.quit.code
          · rw [ExitsWhenHandled, Ox.trace_quit]
            refine iff_of_true ?_ ⟨userData, event, by simp [Ox.note], isQuit⟩
            simp [Ox.quit, isQuit]
          · refine exits.note ?_ (Ox.trace_quit _ _) (by rw [Ox.quit, if_pos isQuit]; rfl)
            rintro _ _ ⟨⟩
            exact isQuit
      | ran foreign returned => exact exits.note (handlesNone_foreign foreign _ _) rfl rfl
      | halted allowed foreign stopped => exact exits.note (handlesNone_foreign foreign _ _) rfl rfl
  | waited uninitialised answered => exact exits.note (seen_handlesNone _ _ _) rfl rfl
  | rendered trace => exact exits.note (by simp [Activity.HandlesNone]) rfl rfl
  | registered renderCb userData => exact exits

theorem steps_exitsWhenHandled (steps : ReflTransGen (OxStep platform mayHalt) ox after)
    (exits : ExitsWhenHandled platform ox) : ExitsWhenHandled platform after := by
  induction steps with
  | refl => exact exits
  | tail steps step ih => exact step.exitsWhenHandled ih

theorem exitsWhenHandled_fresh (platform : Platform Sdl World) (sdl : Sdl) (renderer : Pointer)
    (world : World) : ExitsWhenHandled platform (Ox.fresh sdl renderer world) := by
  simp [ExitsWhenHandled, Ox.fresh, QuitHandled]

end Handling

section Leaving

variable {Sdl World : Type} {platform : Platform Sdl World} {mayHalt : Prop} {nextId : Sdl → Nat}

theorem mainLoop_left {waits rounds : Nat} {ox after : Ox Sdl World}
    (left : ox.mainLoop platform waits rounds = (after, none)) : after.shouldExit = true := by
  induction rounds generalizing ox with
  | zero =>
      rw [Ox.mainLoop] at left
      cases exits : ox.shouldExit with
      | true =>
          cases congrArg Prod.fst left
          exact exits
      | false => simp [exits] at left
  | succ rounds ih =>
      rw [Ox.mainLoop] at left
      split at left
      case isTrue exits =>
        cases congrArg Prod.fst left
        exact exits
      case isFalse =>
        rcases dispatched : ox.dispatchNext platform waits with ⟨between, stop⟩
        cases stop with
        | some stop => simp [dispatched] at left
        | none =>
            rcases rendered : between.render platform with ⟨later, stop⟩
            cases stop with
            | some stop => simp [dispatched, rendered] at left
            | none =>
                simp only [dispatched, rendered] at left
                exact ih left

theorem kernel_left {calls : List ApiCall} {waits rounds : Nat} {ox after : Ox Sdl World}
    (left : ox.kernel platform calls waits rounds = (after, none)) : after.shouldExit = true := by
  rw [Ox.kernel] at left
  rcases loaded : runUntil (Ox.api platform) ox calls with ⟨between, stop⟩
  cases stop with
  | some stop => simp [loaded] at left
  | none =>
      rcases rendered : (between.setUp platform).render platform with ⟨later, stop⟩
      cases stop with
      | some stop => simp [loaded, rendered] at left
      | none =>
          simp only [loaded, rendered] at left
          exact mainLoop_left left

/-- The loop of `main` is left only by a quit that came in time: before SDL ran out of ids, or
before the 43rd command. From then on SDL's quits, and with more commands all of its events, are
taken for commands. -/
theorem left_in_time (keeps : KeepsIds platform nextId) (sdl : Sdl) (renderer : Pointer)
    (world : World) (calls : List ApiCall) (waits rounds : Nat) :
    let run := platform.run sdl renderer world calls waits rounds
    Throughout (TakenForCommand (nextId sdl)) run.1.trace ∧
      (run.2 = none → ∃ before sdlEvent event after,
        run.1.trace = before ++ .taken sdlEvent event :: after ∧ sdlEvent.type = sdlEventQuit ∧
          (nextId sdl + 7 * commandsPublished before ≤ 0x10000 ∨
            commandsPublished before ≤ 42)) := by
  intro run
  have translated := kernel_translated keeps sdl renderer world calls waits rounds
  refine ⟨translated.mono fun _ _ => TranslatedBy.takenForCommand, fun left => ?_⟩
  have steps := Ox.kernel_steps platform calls waits rounds (Ox.fresh sdl renderer world)
  have exits : ExitsWhenHandled platform run.1 :=
    steps_exitsWhenHandled steps (exitsWhenHandled_fresh platform sdl renderer world)
  obtain ⟨userData, event, called, isQuit⟩ := exits.mp (kernel_left (Prod.ext rfl left))
  have taken : Throughout CalledWithTaken run.1.trace :=
    steps_calledWithTaken steps (throughout_nil _)
  obtain ⟨earlier, past, sdlEvent, member⟩ := taken.of_mem called
  obtain ⟨before, after, split⟩ := List.append_of_mem (past.subset member)
  exact ⟨before, sdlEvent, event, after, split,
    (translated before _ after split).quitInTime isQuit⟩

end Leaving

def waitInOrder (sdl : SdlQueue) : Option (WaitAnswer × SdlQueue) :=
  match sdl.2 with
  | [] => none
  | event :: rest => some (.event event 1, sdl.1, rest)

/-- Modules that do nothing when they are called, on an SDL whose queue nobody else fills. -/
def idlePlatform : Platform SdlQueue Unit where
  registerEvents := registerBeside
  pushEvent := pushInOrder
  waitEvent := waitInOrder
  rand draw := draw + 1
  code _ _ _ _ := .ok ([], ())
  quitHandler := 0x70
  ox := 0x71
  renderCallback := 0x72
  uninitialised _ := quitEvent
  painted _ _ := true

theorem idlePlatform_keepsIds : KeepsIds idlePlatform fun sdl => 0x8000 + sdl.1 where
  handsOut :=
    { lowest := fun sdl => registerInOrder_handsOutIds.lowest sdl.1
      granted := fun sdl => registerInOrder_handsOutIds.granted sdl.1
      refused := fun sdl => registerInOrder_handsOutIds.refused sdl.1 }
  pushed sdl event := by
    simp only [idlePlatform, pushInOrder]
    split <;> rfl
  waited sdl answer after waited := by
    simp only [idlePlatform, waitInOrder] at waited
    split at waited
    · cases waited
    · cases waited
      rfl

theorem commands_never_arrive_idle :
    let trace := (idlePlatform.run (0, []) 0x90 ()
      [.publish (some (commandEvent 1)), .publish (some quitEvent)] 4 4).1.trace
    Throughout OnlyBuiltIns trace ∧
      ∀ callback userData event, .called callback userData event ∈ trace →
        event.type = OxEventType.command.code →
          ∃ sdlEvent, .taken sdlEvent event ∈ trace ∧ sdlEvent.type = 0xFFFFFFFF :=
  commands_never_arrive idlePlatform_keepsIds (0, []) 0x90 () _ 4 4 (by decide)

theorem left_in_time_idle :
    let run := idlePlatform.run (0, []) 0x90 ()
      [.publish (some (commandEvent 1)), .publish (some quitEvent)] 4 4
    Throughout (TakenForCommand 0x8000) run.1.trace ∧
      (run.2 = none → ∃ before sdlEvent event after,
        run.1.trace = before ++ .taken sdlEvent event :: after ∧ sdlEvent.type = sdlEventQuit ∧
          (0x8000 + 7 * commandsPublished before ≤ 0x10000 ∨ commandsPublished before ≤ 42)) :=
  left_in_time idlePlatform_keepsIds (0, []) 0x90 () _ 4 4

example : (idlePlatform.run (0, []) 0x90 ()
    [.publish (some (commandEvent 1)), .publish (some quitEvent)] 4 4).2 = none := by decide

end YakUnshorn
