import YakUnshorn.CommandParsers

/-!
The chords that `handle_key` passes to `parse_command`, over every history of key
events: which keys stand in them next to the one that is pressed or released.
-/

namespace YakUnshorn

open StepRuns

section Chords

variable {World : Type} {parse : ParseCommand World}

/-- `parse_command` as `handle_key` calls it. The command is what lay on the stack before. -/
def parsesWith (parserAt : Pointer → CmdParser World) (stack : World → OxCommand) :
    ParseCommand World := fun world state parsers chord =>
  (parseCommand parserAt (stack world) world state parsers chord).map
    fun (command, parsing) => (command, parsing.state, parsing.world)

/-- Whatever `parse_command` does, `handle_key` asks it about the chord and makes its result from
the answer. -/
def PassesChord (module : CommandModule World) (call : KeyCall) (chord : CmdChord) : Prop :=
  ∃ follow : OxCommand × CmdState × World → CommandModule World, ∀ parse : ParseCommand World,
    handleKey parse call.now call.uninitialised call.event module =
      (parse module.world module.state module.state.parsers chord).map follow

/-- The chord has the other keys that are held. -/
def InContext (events : List OxEvent) (module : CommandModule World) (call : KeyCall) : Prop :=
  ∃ chord, PassesChord module call chord ∧ ∀ key,
    chord.heldKeys.Member keyEq key ↔ key ≠ call.event.keyPress.key ∧ Held events key

theorem passesChord_keysDown {module : CommandModule World} {call : KeyCall}
    (keyEvent : call.event.IsKeyEvent) (other : call.event.keyPress.key ≠ sdlkEscape) :
    PassesChord module call ⟨module.state.keysDown, call.event.asKeyPress⟩ :=
  ⟨_, fun _ => handleKey_other keyEvent other⟩

theorem PassesChord.unique {module : CommandModule World} {call : KeyCall} {first second : CmdChord}
    (passesFirst : PassesChord module call first) (passesSecond : PassesChord module call second) :
    second = first := by
  classical
  obtain ⟨followFirst, asksFirst⟩ := passesFirst
  obtain ⟨followSecond, asksSecond⟩ := passesSecond
  -- a `parse_command` that tells the chords apart
  let parse : ParseCommand World := fun _ _ _ chord =>
    .error (.exited (if chord = first then 1 else 0))
  have same := (asksSecond parse).symm.trans (asksFirst parse)
  by_contra different
  simp [parse, different, Except.map] at same

theorem parsesWith_keepsKeys (parserAt : Pointer → CmdParser World) (stack : World → OxCommand) :
    KeepsKeys (parsesWith parserAt stack) := by
  intro world state parsers chord result returned
  by_cases null : parsers = 0
  · rw [parsesWith, parseCommand, if_pos null] at returned
    cases returned
  · rw [parsesWith, parseCommand_eq null] at returned
    cases returned
    rfl

section Histories

variable {start module : CommandModule World} {calls : List KeyCall} {call : KeyCall}

theorem keysDown_member_iff (keeps : KeepsKeys parse)
    (fresh : start.state.keysDown = FixedSet.zeroed polyphony 0)
    (keyEvents : ∀ call ∈ calls, call.event.IsKeyEvent)
    (small : ∀ front, front <+: calls.map KeyCall.event → (heldKeys front).card ≤ polyphony)
    (ran : run (keyStep parse) start calls = some module) (key : UInt32) :
    module.state.keysDown.Member keyEq key ↔ Held (calls.map KeyCall.event) key := by
  rw [keyRun_keysDown keeps keyEvents ran, fresh]
  exact keysAfter_member_iff (eventsAreKeys keyEvents) small key

theorem inContext_iff {events : List OxEvent} (keyEvent : call.event.IsKeyEvent)
    (other : call.event.keyPress.key ≠ sdlkEscape)
    (tracked : ∀ key, module.state.keysDown.Member keyEq key ↔ Held events key) :
    InContext events module call ↔ ¬Held events call.event.keyPress.key := by
  have passed : PassesChord module call ⟨module.state.keysDown, call.event.asKeyPress⟩ :=
    passesChord_keysDown keyEvent other
  constructor
  · rintro ⟨chord, passes, context⟩ held
    obtain rfl := passed.unique passes
    exact ((context _).mp ((tracked _).mpr held)).1 rfl
  · intro released
    refine ⟨_, passed, fun key => ?_⟩
    rw [tracked]
    refine ⟨fun held => ⟨?_, held⟩, And.right⟩
    rintro rfl
    exact released held

/-- The set of held keys is passed as it is before the event, so that the key itself is missing
from it exactly when the event presses the key, or releases one that was not held. -/
theorem chord_context_iff (parserAt : Pointer → CmdParser World) (stack : World → OxCommand)
    (start module : CommandModule World)
    (fresh : start.state.keysDown = FixedSet.zeroed polyphony 0) (calls : List KeyCall)
    (keyEvents : ∀ call ∈ calls, call.event.IsKeyEvent)
    (small : ∀ front, front <+: calls.map KeyCall.event → (heldKeys front).card ≤ polyphony)
    (ran : run (keyStep (parsesWith parserAt stack)) start calls = some module) (call : KeyCall)
    (keyEvent : call.event.IsKeyEvent) (other : call.event.keyPress.key ≠ sdlkEscape) :
    InContext (calls.map KeyCall.event) module call ↔
      ¬Held (calls.map KeyCall.event) call.event.keyPress.key :=
  inContext_iff keyEvent other
    (keysDown_member_iff (parsesWith_keepsKeys parserAt stack) fresh keyEvents small ran)

end Histories

end Chords

def decliningTable : ParseCommand Unit :=
  parsesWith (fun _ => eagerParser noneCommand) fun _ => noneCommand

def registeredOne : CommandModule Unit := ⟨oneParser, (), []⟩

theorem chord_context_iff_press :
    let calls := [keyCall .keyDown 0x61, keyCall .keyDown 0x73]
    ∃ module, run (keyStep decliningTable) registeredOne calls = some module ∧
      (InContext (calls.map KeyCall.event) module (keyCall .keyDown 0x64) ↔
        ¬Held (calls.map KeyCall.event) 0x64) :=
  ⟨_, rfl, chord_context_iff (fun _ => eagerParser noneCommand) (fun _ => noneCommand)
    registeredOne _ rfl [keyCall .keyDown 0x61, keyCall .keyDown 0x73] (by decide)
    (heldKeys_prefix_card (by decide)) rfl (keyCall .keyDown 0x64) (by decide) (by decide)⟩

/-- The source has -S/AD for this release, and the chord is -S/ASD. -/
theorem released_key_is_in_its_chord :
    let calls := [keyCall .keyDown 0x61, keyCall .keyDown 0x73, keyCall .keyDown 0x64]
    ∃ module, run (keyStep decliningTable) registeredOne calls = some module ∧
      PassesChord module (keyCall .keyUp 0x73)
        ⟨module.state.keysDown, (keyCall .keyUp 0x73).event.asKeyPress⟩ ∧
      module.state.keysDown.Member keyEq 0x73 ∧
      ¬InContext (calls.map KeyCall.event) module (keyCall .keyUp 0x73) := by
  obtain ⟨module, ran⟩ : ∃ module, run (keyStep decliningTable) registeredOne
    [keyCall .keyDown 0x61, keyCall .keyDown 0x73, keyCall .keyDown 0x64] = some module := ⟨_, rfl⟩
  have tracked := keysDown_member_iff (parsesWith_keepsKeys _ _) rfl (by decide)
    (heldKeys_prefix_card (by decide)) ran
  refine ⟨module, ran, passesChord_keysDown (by decide) (by decide), ?_, ?_⟩
  · rw [tracked]
    decide
  · rw [inContext_iff (by decide) (by decide) tracked]
    decide

end YakUnshorn
