import YakUnshorn.EventTranslation
import YakUnshorn.SetRuns

/-!
`handle_key` of `module/command/command.c`. What `parse_command` does is a parameter,
since it is up to the parsers that were registered.
-/

namespace YakUnshorn

open CMachine

def polyphony : Nat := 10

def maxParsers : Nat := 5

def sdlkEscape : UInt32 := 0x1B

def oxCmdNone : UInt32 := 0

def keyEq (p q : UInt32) : Bool := p == q

/-- `SDL_KeycodeSet`. -/
abbrev KeySet := FixedSet UInt32 polyphony

/-- `ox_KeyPress`, with the fields that all members of `ox_Event` begin with. -/
structure OxKeyPress where
  type : UInt32
  reserved : UInt32
  timestamp : UInt64
  keyPress : KeyPress
  deriving Repr, DecidableEq

/-- `ox_Command`, with the fields that all members of `ox_Event` begin with. -/
structure OxCommand where
  type : UInt32
  reserved : UInt32
  timestamp : UInt64
  cmd : Command
  deriving Repr, DecidableEq

def OxEvent.asKeyPress (event : OxEvent) : OxKeyPress :=
  ⟨event.type, event.reserved, event.timestamp, event.keyPress⟩

def OxEvent.setCommand (event : OxEvent) (command : OxCommand) : OxEvent :=
  { event with
    type := command.type
    reserved := command.reserved
    timestamp := command.timestamp
    cmd := command.cmd }

structure CmdChord where
  heldKeys : KeySet
  keyPress : OxKeyPress

structure CmdState where
  keysDown : KeySet
  commandParsers : Fin maxParsers → Pointer
  parserCount : Int

inductive Halt
  | fault (fault : Fault)
  | exited (status : Int)
  deriving Repr, DecidableEq

/-- `parse_command`, where `World` is what the parsers keep for themselves. A parser may be given
the state of the module as its own. -/
abbrev ParseCommand (World : Type) :=
  World → CmdState → Pointer → CmdChord → Except Halt (OxCommand × CmdState × World)

/-- The state of the module, that of its parsers, and the events it handed to
`ox_publish_event`. -/
structure CommandModule (World : Type) where
  state : CmdState
  world : World
  published : List OxEvent

section Handling

variable {World : Type}

def CommandModule.zeroed (world : World) : CommandModule World where
  state := ⟨FixedSet.zeroed polyphony 0, fun _ => 0, 0⟩
  world := world
  published := []

def CommandModule.publish (module : CommandModule World) (event : OxEvent) :
    CommandModule World :=
  { module with published := module.published ++ [event] }

/-- `*command_parsers`, which `handle_key` passes to `parse_command`. -/
def CmdState.parsers (state : CmdState) : Pointer := state.commandParsers ⟨0, by decide⟩

/-- What `handle_key` does with what it got from `parse_command`. -/
def CommandModule.follow (now : UInt64) (uninitialised event : OxEvent)
    (module : CommandModule World) (parsed : OxCommand × CmdState × World) : CommandModule World :=
  let (command, state, world) := parsed
  let module : CommandModule World := { module with state, world }
  let module :=
    if command.type ≠ oxCmdNone then
      module.publish ((oxInitEvent now uninitialised .command).setCommand command)
    else module
  let keysDown :=
    if event.type = OxEventType.keyUp.code then
      (module.state.keysDown.remove keyEq event.keyPress.key).1
    else (module.state.keysDown.add keyEq event.keyPress.key).1
  { module with state := { module.state with keysDown } }

/-- `handle_key`, called at the time `now`. The event that it may publish is `uninitialised` at
first. -/
def handleKey (parseCommand : ParseCommand World) (now : UInt64) (uninitialised event : OxEvent)
    (module : CommandModule World) : Except Halt (CommandModule World) :=
  if event.type ≠ OxEventType.keyDown.code ∧ event.type ≠ OxEventType.keyUp.code then
    .error (.fault .assertionFailed)
  else if event.keyPress.key = sdlkEscape then
    .ok (module.publish (oxInitEvent now uninitialised .quit))
  else
    let chord : CmdChord := ⟨module.state.keysDown, event.asKeyPress⟩
    match parseCommand module.world module.state module.state.parsers chord with
    | .error halt => .error halt
    | .ok parsed => .ok (module.follow now uninitialised event parsed)

structure KeyCall where
  event : OxEvent
  uninitialised : OxEvent
  now : UInt64
  deriving Repr, DecidableEq

def keyStep (parseCommand : ParseCommand World) (module : CommandModule World) (call : KeyCall) :
    Option (CommandModule World) :=
  (handleKey parseCommand call.now call.uninitialised call.event module).toOption

end Handling

def OxEvent.IsKeyEvent (event : OxEvent) : Prop :=
  event.type = OxEventType.keyDown.code ∨ event.type = OxEventType.keyUp.code

instance (event : OxEvent) : Decidable event.IsKeyEvent :=
  inferInstanceAs (Decidable (_ ∨ _))

section Following

variable {World : Type} {parse : ParseCommand World} {now : UInt64} {uninitialised event : OxEvent}
  {module : CommandModule World}

theorem OxEvent.IsKeyEvent.asserted (keyEvent : event.IsKeyEvent) :
    ¬(event.type ≠ OxEventType.keyDown.code ∧ event.type ≠ OxEventType.keyUp.code) := by
  rcases keyEvent with down | up <;> simp [*]

theorem handleKey_escape (keyEvent : event.IsKeyEvent) (escape : event.keyPress.key = sdlkEscape) :
    handleKey parse now uninitialised event module =
      .ok (module.publish (oxInitEvent now uninitialised .quit)) := by
  rw [handleKey, if_neg keyEvent.asserted, if_pos escape]

theorem handleKey_other (keyEvent : event.IsKeyEvent) (other : event.keyPress.key ≠ sdlkEscape) :
    handleKey parse now uninitialised event module =
      (parse module.world module.state module.state.parsers
        ⟨module.state.keysDown, event.asKeyPress⟩).map
          (module.follow now uninitialised event) := by
  rw [handleKey, if_neg keyEvent.asserted, if_neg other]
  dsimp only
  cases parse module.world module.state module.state.parsers
    ⟨module.state.keysDown, event.asKeyPress⟩ <;> rfl

theorem follow_published (parsed : OxCommand × CmdState × World) :
    (module.follow now uninitialised event parsed).published =
      if parsed.1.type ≠ oxCmdNone then
        module.published ++ [(oxInitEvent now uninitialised .command).setCommand parsed.1]
      else module.published := by
  by_cases none : parsed.1.type = oxCmdNone <;>
    simp [CommandModule.follow, CommandModule.publish, none]

theorem follow_keysDown (parsed : OxCommand × CmdState × World) :
    (module.follow now uninitialised event parsed).state.keysDown =
      if event.type = OxEventType.keyUp.code then
        (parsed.2.1.keysDown.remove keyEq event.keyPress.key).1
      else (parsed.2.1.keysDown.add keyEq event.keyPress.key).1 := by
  by_cases none : parsed.1.type = oxCmdNone <;>
    simp [CommandModule.follow, CommandModule.publish, none]

end Following

theorem keyEq_keyed : FixedSet.Keyed keyEq id := by
  intro p q
  simp [keyEq]

end YakUnshorn
