import YakUnshorn.HeldKeys

/-!
`parse_command` of `module/command/command.c`, and what `handle_key` publishes of the
commands that it gets. What a parser does is a parameter.
-/

namespace YakUnshorn

open CMachine

section Parsing

variable {World : Type}

structure CmdParser (World : Type) where
  parse : World → CmdState → CmdChord → Pointer → Except Halt (OxCommand × CmdState × World)
  state : Pointer

def sizeofPointer : Nat := 8

def sizeofCmdParser : Nat := 16

/-- `BUNUEL_LEN`, for the sizes of its argument and of an element of it. -/
def bunuelLen (array element : Nat) : Nat := array / element

structure Parsing (World : Type) where
  ran : List Pointer
  state : CmdState
  world : World

def Parsing.call (parserAt : Pointer → CmdParser World) (chord : CmdChord) (address : Pointer)
    (parsing : Parsing World) : Except Halt (OxCommand × Parsing World) :=
  let parser := parserAt address
  match parser.parse parsing.world parsing.state chord parser.state with
  | .error halt => .error halt
  | .ok (command, state, world) => .ok (command, ⟨parsing.ran ++ [address], state, world⟩)

/-- The loop of `parse_command`, for the turns that are left. -/
def parseLoop (parserAt : Pointer → CmdParser World) (parsers : Pointer) (chord : CmdChord) :
    Nat → Nat → OxCommand → Parsing World → Except Halt (OxCommand × Parsing World)
  | 0, _, command, parsing => .ok (command, parsing)
  | left + 1, i, _, parsing =>
      match parsing.call parserAt chord (parsers + UInt64.ofNat (i * sizeofCmdParser)) with
      | .error halt => .error halt
      | .ok (command, parsing) =>
          if command.type ≠ oxCmdNone then .ok (command, parsing)
          else parseLoop parserAt parsers chord left (i + 1) command parsing

/-- `parse_command`, with the parsers that it has run. The length is that of its argument, a
pointer. -/
def parseCommand (parserAt : Pointer → CmdParser World) (uninitialised : OxCommand) (world : World)
    (state : CmdState) (parsers : Pointer) (chord : CmdChord) :
    Except Halt (OxCommand × Parsing World) :=
  if parsers = 0 then .error (.exited (-1))
  else
    parseLoop parserAt parsers chord (bunuelLen sizeofPointer sizeofCmdParser) 0 uninitialised
      ⟨[], state, world⟩

def CmdState.registered (state : CmdState) : List Pointer :=
  (List.ofFn state.commandParsers).take state.parserCount.toNat

def tryInOrder (parserAt : Pointer → CmdParser World) (chord : CmdChord) :
    List Pointer → Parsing World → Except Halt (Option OxCommand × Parsing World)
  | [], parsing => .ok (none, parsing)
  | address :: rest, parsing =>
      match parsing.call parserAt chord address with
      | .error halt => .error halt
      | .ok (command, parsing) =>
          if command.type ≠ oxCmdNone then .ok (some command, parsing)
          else tryInOrder parserAt chord rest parsing

/-- The same parsers have run, and the command is that of the last of them or the none command. -/
def Answers (tried : Except Halt (Option OxCommand × Parsing World))
    (result : Except Halt (OxCommand × Parsing World)) : Prop :=
  match tried with
  | .error halt => result = .error halt
  | .ok (taken, parsing) => ∃ command, result = .ok (command, parsing) ∧
      taken.elim (command.type = oxCmdNone) (command = ·)

def ParsesInOrder (parserAt : Pointer → CmdParser World) (uninitialised : OxCommand)
    (world : World) (state : CmdState) (chord : CmdChord) : Prop :=
  Answers (tryInOrder parserAt chord state.registered ⟨[], state, world⟩)
    (parseCommand parserAt uninitialised world state state.parsers chord)

variable {parserAt : Pointer → CmdParser World} {chord : CmdChord}

/-- Over as many turns as there are parsers in a row, the loop tries them in order. -/
theorem parseLoop_answers (parsers : Pointer) (n i : Nat) (command : OxCommand)
    (parsing : Parsing World) (initialised : 0 < n ∨ command.type = oxCmdNone) :
    Answers
      (tryInOrder parserAt chord
        ((List.range' i n).map fun i => parsers + UInt64.ofNat (i * sizeofCmdParser)) parsing)
      (parseLoop parserAt parsers chord n i command parsing) := by
  induction n generalizing i command parsing with
  | zero => exact ⟨command, rfl, initialised.resolve_left (Nat.lt_irrefl 0)⟩
  | succ n ih =>
      simp only [List.range'_succ, List.map_cons, tryInOrder, parseLoop]
      cases parsing.call parserAt chord (parsers + UInt64.ofNat (i * sizeofCmdParser)) with
      | error halt => rfl
      | ok result =>
          by_cases none : result.1.type = oxCmdNone
          · simp only [none, ne_eq, not_true, ↓reduceIte]
            exact ih (i + 1) result.1 result.2 (.inr none)
          · simp only [none, ne_eq, not_false_eq_true, ↓reduceIte]
            exact ⟨result.1, rfl, rfl⟩

theorem call_ran {parsing after : Parsing World} {address : Pointer} {command : OxCommand}
    (called : parsing.call parserAt chord address = .ok (command, after)) :
    after.ran = parsing.ran ++ [address] := by
  simp only [Parsing.call] at called
  split at called
  case h_1 => cases called
  case h_2 => cases called; rfl

theorem tryInOrder_ran {addresses : List Pointer} {parsing after : Parsing World}
    {taken : Option OxCommand}
    (tried : tryInOrder parserAt chord addresses parsing = .ok (taken, after)) :
    ∃ ran, after.ran = parsing.ran ++ ran ∧ ran <+: addresses ∧ (addresses ≠ [] → ran ≠ []) := by
  induction addresses generalizing parsing with
  | nil =>
      cases tried
      exact ⟨[], by simp, List.nil_prefix, fun some => some⟩
  | cons address rest ih =>
      simp only [tryInOrder] at tried
      cases called : parsing.call parserAt chord address with
      | error halt => simp [called] at tried
      | ok result =>
          have first := call_ran called
          rw [called] at tried
          by_cases none : result.1.type = oxCmdNone
          · simp only [none, ne_eq, not_true, ↓reduceIte] at tried
            obtain ⟨ran, later, before, -⟩ := ih tried
            refine ⟨address :: ran, ?_, ?_, by simp⟩
            · rw [later, first, List.append_assoc, List.singleton_append]
            · exact List.cons_prefix_cons.mpr ⟨rfl, before⟩
          · simp only [none, ne_eq, not_false_eq_true, ↓reduceIte] at tried
            cases tried
            exact ⟨[address], first, by simp, by simp⟩

/-- The loop takes no turn: a pointer is smaller than what it points to. -/
theorem parseCommand_eq {parsers : Pointer} (some : parsers ≠ 0) (uninitialised : OxCommand)
    (world : World) (state : CmdState) :
    parseCommand parserAt uninitialised world state parsers chord =
      .ok (uninitialised, ⟨[], state, world⟩) := by
  rw [parseCommand, if_neg some]
  rfl

theorem registered_cons {state : CmdState} (some : 0 < state.parserCount) :
    ∃ rest, state.registered = state.parsers :: rest := by
  obtain ⟨more, count⟩ : ∃ more, state.parserCount.toNat = more + 1 :=
    ⟨state.parserCount.toNat - 1, by omega⟩
  have whole : List.ofFn state.commandParsers =
      state.parsers :: List.ofFn fun i : Fin 4 => state.commandParsers i.succ := List.ofFn_succ
  rw [CmdState.registered, count, whole, List.take_succ_cons]
  exact ⟨_, rfl⟩

theorem registered_parsers_never_tried (parserAt : Pointer → CmdParser World)
    (uninitialised : OxCommand) (world : World) (state : CmdState) (chord : CmdChord)
    (some : 0 < state.parserCount)
    (valid : ∀ address ∈ state.registered, address ≠ 0) :
    ¬ParsesInOrder parserAt uninitialised world state chord := by
  obtain ⟨rest, registered⟩ := registered_cons some
  have first : state.parsers ≠ 0 := valid _ (by simp [registered])
  rw [ParsesInOrder, parseCommand_eq first]
  cases tried : tryInOrder parserAt chord state.registered ⟨[], state, world⟩ with
  | error halt => simp [Answers]
  | ok result =>
      obtain ⟨ran, left, -, full⟩ := tryInOrder_ran tried
      rintro ⟨command, returned, -⟩
      rw [Except.ok.injEq, Prod.mk.injEq] at returned
      rw [← returned.2, List.nil_append] at left
      exact full (by simp [registered]) left.symm

end Parsing

structure SentAs (now : UInt64) (command : OxCommand) (event : OxEvent) : Prop where
  type : event.type = OxEventType.command.code
  timestamp : event.timestamp = now
  cmd : event.cmd = command.cmd

/-- The header that `ox_init_event` has written is overwritten by that of the command. -/
theorem command_published_iff {World : Type} (parse : ParseCommand World) (now : UInt64)
    (uninitialised event : OxEvent) (module : CommandModule World) (keyEvent : event.IsKeyEvent)
    (other : event.keyPress.key ≠ sdlkEscape) (command : OxCommand) (state : CmdState)
    (world : World)
    (parsed : parse module.world module.state module.state.parsers
      ⟨module.state.keysDown, event.asKeyPress⟩ = .ok (command, state, world))
    (taken : command.type ≠ oxCmdNone) :
    ∃ after published, handleKey parse now uninitialised event module = .ok after ∧
      after.published = module.published ++ [published] ∧
      (SentAs now command published ↔
        command.type = OxEventType.command.code ∧ command.timestamp = now) := by
  refine ⟨module.follow now uninitialised event (command, state, world),
    (oxInitEvent now uninitialised .command).setCommand command, ?_, ?_, ?_⟩
  · rw [handleKey_other keyEvent other, parsed]
    rfl
  · rw [follow_published, if_pos taken]
  · constructor
    · rintro ⟨type, timestamp, -⟩
      exact ⟨type, timestamp⟩
    · rintro ⟨type, timestamp⟩
      exact ⟨type, timestamp, rfl⟩

def eagerParser (command : OxCommand) : CmdParser Unit where
  parse world state _ _ := .ok (command, state, world)
  state := 0

def noneCommand : OxCommand := ⟨oxCmdNone, 0, 0, ⟨0, 0, 0⟩⟩

def quitCommand : OxCommand := ⟨OxEventType.command.code, 0, 9, ⟨1, 0, 0⟩⟩

def oneParser : CmdState where
  keysDown := FixedSet.zeroed polyphony 0
  commandParsers i := if i.val = 0 then 0x70 else 0
  parserCount := 1

theorem oneParser_registered : oneParser.registered = [0x70] := rfl

def pressedA : CmdChord := ⟨oneParser.keysDown, (keyCall .keyDown 0x61).event.asKeyPress⟩

theorem registered_parsers_never_tried_one :
    ¬ParsesInOrder (fun _ => eagerParser quitCommand) noneCommand () oneParser pressedA :=
  registered_parsers_never_tried _ noneCommand () oneParser pressedA (by decide)
    (by simp [oneParser_registered])

theorem eager_parser_is_skipped :
    tryInOrder (fun _ => eagerParser quitCommand) pressedA oneParser.registered
        ⟨[], oneParser, ()⟩ = .ok (some quitCommand, ⟨[0x70], oneParser, ()⟩) ∧
      parseCommand (fun _ => eagerParser quitCommand) noneCommand () oneParser 0x70 pressedA =
        .ok (noneCommand, ⟨[], oneParser, ()⟩) ∧
      ¬ParsesInOrder (fun _ => eagerParser quitCommand) noneCommand () oneParser pressedA := by
  refine ⟨rfl, rfl, ?_⟩
  rintro ⟨command, returned, -⟩
  cases returned

def answering (command : OxCommand) : ParseCommand Unit := fun world state _ _ =>
  .ok (command, state, world)

theorem command_published_iff_quit :
    let call := keyCall .keyDown 0x61
    let module : CommandModule Unit := CommandModule.zeroed ()
    ∃ after published,
      handleKey (answering quitCommand) call.now call.uninitialised call.event module =
        .ok after ∧
      after.published = module.published ++ [published] ∧
      (SentAs call.now quitCommand published ↔
        quitCommand.type = OxEventType.command.code ∧ quitCommand.timestamp = call.now) :=
  command_published_iff (answering quitCommand) 9 _ _ (CommandModule.zeroed ()) (by decide)
    (by decide) quitCommand _ () rfl (by decide)

theorem foreign_type_is_published :
    let call := keyCall .keyDown 0x61
    let command : OxCommand := { quitCommand with type := OxEventType.textInput.code }
    ∃ after published,
      handleKey (answering command) call.now call.uninitialised call.event
        (CommandModule.zeroed ()) = .ok after ∧
      after.published = [published] ∧ published.type = OxEventType.textInput.code ∧
      ¬SentAs call.now command published := by
  refine ⟨_, _, rfl, rfl, rfl, fun sent => ?_⟩
  exact absurd sent.type (by decide)

end YakUnshorn
