import YakUnshorn.CommandCodec

/-!
Runs of command events through the translation: what becomes of the commands that
wait in SDL's queue, and of SDL's own events.
-/

namespace YakUnshorn

open CMachine StepRuns

section Waiting

variable {Sdl : Type} {registerEvents : RegisterEvents Sdl} {nextId : Sdl → Nat}

def countingCalls (registerEvents : RegisterEvents Sdl) : RegisterEvents (Sdl × Nat) :=
  fun sdl count =>
    let (base, after) := registerEvents sdl.1 count
    (base, after, sdl.2 + 1)

theorem countingCalls_handsOutIds (documented : HandsOutIds registerEvents nextId) :
    HandsOutIds (countingCalls registerEvents) fun sdl => nextId sdl.1 where
  lowest sdl := documented.lowest sdl.1
  granted sdl := documented.granted sdl.1
  refused sdl := documented.refused sdl.1

abbrev WaitingCommand := OxEvent × SdlEvent

def encodeAll (registerEvents : RegisterEvents Sdl) :
    Translator Sdl → List (OxEvent × SdlEvent) → Option (List WaitingCommand × Translator Sdl)
  | translator, [] => some ([], translator)
  | translator, (event, buffer) :: rest => do
      let (_, sdlEvent, translator) ← oxiToSdlEvent registerEvents translator (some event) buffer
      let (waiting, translator) ← encodeAll registerEvents translator rest
      some ((event, sdlEvent) :: waiting, translator)

/-- SDL is asked for ids at most once, types stand for codes one to one, and every command that
waits is still decoded to its code. -/
structure Stable (waiting : List WaitingCommand) (after : Translator (Sdl × Nat)) : Prop where
  askedOnce : after.sdl.2 ≤ 1
  oneToOne : ∀ first ∈ waiting, ∀ second ∈ waiting,
    first.1.cmd.code = second.1.cmd.code ↔ first.2.type = second.2.type
  decodes : ∀ command ∈ waiting, ∀ now uninitialised, ∃ decoded,
    oxiFromSdlEvent after now command.2 uninitialised = some decoded ∧
      decoded.type = OxEventType.command.code ∧ decoded.cmd.code = command.1.cmd.code

theorem encodeAll_command (translator : Translator Sdl) {event : OxEvent}
    (isCommand : event.type = OxEventType.command.code) (buffer : SdlEvent)
    (rest : List (OxEvent × SdlEvent)) :
    encodeAll registerEvents translator ((event, buffer) :: rest) =
      (getCmdEventType registerEvents translator event.cmd.code).bind fun result =>
        (encodeAll registerEvents result.2 rest).map fun later =>
          ((event, commandSdlEvent event buffer result.1) :: later.1, later.2) := by
  rw [encodeAll, oxiToSdlEvent_command translator isCommand]
  cases getCmdEventType registerEvents translator event.cmd.code with
  | none => rfl
  | some result => cases later : encodeAll registerEvents result.2 rest <;> simp [later]

theorem getCmdEventType_calls {translator after : Translator (Sdl × Nat)} {code type : UInt32}
    (returned : getCmdEventType (countingCalls registerEvents) translator code =
      some (type, after)) : after.sdl.2 = translator.sdl.2 + 1 := by
  rw [(getCmdEventType_some returned).2.2.2.1]
  rfl

theorem encodeAll_calls {translator after : Translator (Sdl × Nat)}
    {published : List (OxEvent × SdlEvent)} {waiting : List WaitingCommand}
    (commands : ∀ command ∈ published, command.1.type = OxEventType.command.code)
    (encoded : encodeAll (countingCalls registerEvents) translator published =
      some (waiting, after)) : after.sdl.2 = translator.sdl.2 + published.length := by
  induction published generalizing translator waiting with
  | nil =>
      simp only [encodeAll, Option.some.injEq, Prod.mk.injEq] at encoded
      simp [encoded.2]
  | cons command rest ih =>
      rw [encodeAll_command translator (commands command (by simp))] at encoded
      obtain ⟨⟨type, middle⟩, returned, later⟩ := Option.bind_eq_some_iff.mp encoded
      obtain ⟨⟨behind, final⟩, followed, last⟩ := Option.map_eq_some_iff.mp later
      obtain ⟨rfl, rfl⟩ := Prod.mk.inj last
      rw [ih (fun other member => commands other (by simp [member])) followed,
        getCmdEventType_calls returned, List.length_cons]
      omega

theorem stable_single_iff (documented : HandsOutIds registerEvents nextId) (sdl : Sdl)
    {event : OxEvent} (isCommand : event.type = OxEventType.command.code)
    (system : event.cmd.code.toNat < oxCmdSystemMax) (buffer : SdlEvent) :
    (∃ waiting after, encodeAll (countingCalls registerEvents) (programStart (sdl, 0))
        [(event, buffer)] = some (waiting, after) ∧ Stable waiting after) ↔
      RangeReaches (nextId sdl) 0 event.cmd.code := by
  have counting := countingCalls_handsOutIds documented
  have counted := counted_programStart (fun sdl : Sdl × Nat => nextId sdl.1) (sdl, 0)
  obtain ⟨type, after, returned⟩ := counted.encode_defined (countingCalls registerEvents)
    (by decide) event.cmd.code
  have encoded : encodeAll (countingCalls registerEvents) (programStart (sdl, 0))
      [(event, buffer)] = some ([(event, commandSdlEvent event buffer type)], after) := by
    rw [encodeAll_command _ isCommand, returned]
    rfl
  simp only [encoded, Option.some.injEq, Prod.mk.injEq]
  constructor
  · rintro ⟨_, _, ⟨rfl, rfl⟩, stable⟩
    by_contra missed
    obtain ⟨decoded, translated, -⟩ := stable.decodes _ (List.mem_singleton.mpr rfl) 0 event
    rw [counted.decode_missed counting (documented.lowest sdl) system returned missed rfl]
      at translated
    simp at translated
  · intro reaches
    refine ⟨_, _, ⟨rfl, rfl⟩, ?_, ?_, ?_⟩
    · rw [getCmdEventType_calls returned]
      exact Nat.le_refl 1
    · simp
    · intro command member now uninitialised
      rw [List.mem_singleton.mp member]
      have survives := (counted.roundTrips_iff counting (documented.lowest sdl) isCommand system
        buffer).mpr reaches
      obtain ⟨decoded, translated, sameType, sameCommand, -⟩ :=
        survives (commandSdlEvent event buffer type) after
          (by rw [oxiToSdlEvent_command _ isCommand, returned]; rfl) now uninitialised
      exact ⟨decoded, translated, sameType, by rw [sameCommand]⟩

/-- Over a run of commands with system codes, the encoding is stable exactly when there is at
most one command, SDL has no ids left for it, and its code is not the last system code. -/
theorem command_encoding_stable_iff (documented : HandsOutIds registerEvents nextId) (sdl : Sdl)
    (published : List (OxEvent × SdlEvent))
    (commands : ∀ command ∈ published, command.1.type = OxEventType.command.code ∧
      command.1.cmd.code.toNat < oxCmdSystemMax) :
    (∃ waiting after, encodeAll (countingCalls registerEvents) (programStart (sdl, 0)) published =
        some (waiting, after) ∧ Stable waiting after) ↔
      published = [] ∨ ∃ event buffer, published = [(event, buffer)] ∧
        0x10000 < nextId sdl + oxCmdSystemMax ∧ event.cmd.code.toNat ≠ 6 := by
  match published with
  | [] =>
      simp only [true_or, iff_true]
      exact ⟨[], _, rfl, by simp [programStart], by simp, by simp⟩
  | [(event, buffer)] =>
      obtain ⟨isCommand, system⟩ := commands (event, buffer) (by simp)
      rw [stable_single_iff documented sdl isCommand system buffer]
      simp [RangeReaches, oxCmdSystemMax]
  | first :: second :: rest =>
      simp only [reduceCtorEq, false_or, List.cons.injEq, false_and, and_false, exists_false,
        iff_false]
      rintro ⟨waiting, after, encoded, stable⟩
      have calls := encodeAll_calls (fun command member => (commands command member).1) encoded
      have once := stable.askedOnce
      simp only [programStart, List.length_cons] at calls
      omega

end Waiting

theorem command_encoding_stable_iff_exhausted :
    (∃ waiting after, encodeAll (countingCalls registerInOrder) (programStart (0x7FFA, 0))
        [(commandEvent 2, sdlZero)] = some (waiting, after) ∧ Stable waiting after) ↔
      [(commandEvent 2, sdlZero)] = [] ∨ ∃ event buffer,
        [(commandEvent 2, sdlZero)] = [(event, buffer)] ∧
          0x10000 < 0x8000 + 0x7FFA + oxCmdSystemMax ∧ event.cmd.code.toNat ≠ 6 :=
  command_encoding_stable_iff registerInOrder_handsOutIds 0x7FFA _ (by decide)

theorem equal_codes_different_types :
    ∃ first second after,
      encodeAll (countingCalls registerInOrder) (programStart (0, 0))
          [(commandEvent 1, sdlZero), (commandEvent 1, sdlZero)] = some ([first, second], after) ∧
        first.1.cmd.code = second.1.cmd.code ∧ first.2.type ≠ second.2.type ∧
        after.sdl.2 = 2 ∧ oxiFromSdlEvent after 0 first.2 (commandEvent 0) = none := by
  refine ⟨(commandEvent 1, { sdlZero with type := 0x8001, user := ⟨1, 0, 0⟩ }),
    (commandEvent 1, { sdlZero with type := 0x8008, user := ⟨1, 0, 0⟩ }),
    ⟨0x8007, 11, (14, 2)⟩, ?_, ?_, ?_, ?_, ?_⟩ <;> decide

section BuiltIns

variable {Sdl : Type} {registerEvents : RegisterEvents Sdl} {nextId : Sdl → Nat}

def BuiltInsTranslated (translator : Translator Sdl) : Prop :=
  ∀ sdlEvent oxType, builtInType sdlEvent.type = some oxType → ∀ now uninitialised, ∃ event,
    oxiFromSdlEvent translator now sdlEvent uninitialised = some event ∧
      event.type = oxType.code

theorem builtInType_ne_command {type : UInt32} {oxType : OxEventType}
    (builtIn : builtInType type = some oxType) : oxType.code ≠ OxEventType.command.code := by
  rcases builtInType_cases builtIn with ⟨-, rfl⟩ | ⟨-, rfl⟩ | ⟨-, rfl⟩ | ⟨-, rfl⟩ <;> decide

theorem builtInsTranslated_iff (translator : Translator Sdl) :
    BuiltInsTranslated translator ↔
      ∀ type, (builtInType type).isSome → OutOfRange translator type := by
  constructor
  · rintro translated type someType ⟨lower, upper⟩
    obtain ⟨oxType, builtIn⟩ := Option.isSome_iff_exists.mp someType
    obtain ⟨event, decoded, sameType⟩ :=
      translated { sdlZero with type := type } oxType builtIn 0 (commandEvent 0)
    rw [oxiFromSdlEvent_inside translator { sdlZero with type := type } lower upper] at decoded
    rw [← Option.some.inj decoded] at sameType
    exact builtInType_ne_command builtIn sameType.symm
  · intro outside sdlEvent oxType builtIn now uninitialised
    have translated := oxiFromSdlEvent_outOfRange (outside sdlEvent.type (by simp [builtIn])) now
      uninitialised
    rw [builtIn, Option.map_some] at translated
    exact Option.map_eq_some_iff.mp translated

/-- SDL's own events stay out of the range while there are ids left. Once they have run out the
range starts at 0, and it gets to SDL's own types with the 43rd command. -/
theorem Counted.builtIns_iff {start n : Nat} {translator : Translator Sdl}
    (counted : Counted nextId start n translator) (lowest : 0x8000 ≤ start) :
    BuiltInsTranslated translator ↔ start + 7 * n ≤ 0x10000 ∨ n ≤ 42 := by
  have last := counted.last
  have representable := counted.representable
  rw [builtInsTranslated_iff]
  constructor
  · intro outside
    by_contra captured
    have first := (counted.exhausted (by omega)).2 (by omega)
    refine outside sdlEventQuit (by decide) ⟨?_, ?_⟩
    · rw [first, UInt32.le_iff_toNat_le]
      exact Nat.zero_le _
    · have quit : sdlEventQuit.toNat = 0x100 := by decide
      rw [UInt32.le_iff_toNat_le, toNat_ofInt (by omega) (by omega), quit]
      omega
  · rintro few type someType ⟨lower, upper⟩
    obtain ⟨oxType, builtIn⟩ := Option.isSome_iff_exists.mp someType
    obtain ⟨atLeast, atMost⟩ := builtInType_toNat builtIn
    rw [UInt32.le_iff_toNat_le] at lower upper
    rcases Nat.eq_zero_or_pos n with rfl | some
    · rw [counted.unused rfl] at lower
      have top : (UInt32.ofInt (-1)).toNat = 0xFFFFFFFF := by decide
      omega
    · by_cases fits : start + 7 * n ≤ 0x10000
      · have first := (counted.fitting fits).2 some
        rw [toNat_ofInt (by omega) (by omega)] at lower
        omega
      · rw [toNat_ofInt (by omega) (by omega)] at upper
        omega

/-- After any run of calls, SDL's own events are translated to the event types they stand for
exactly when SDL had ids for all the commands of the run, or there were at most 42 of them. -/
theorem builtIns_translated_iff (documented : HandsOutIds registerEvents nextId) (sdl : Sdl)
    (calls : List EncodeCall) :
    (∃ after, run (encodeStep registerEvents) (programStart sdl) calls = some after ∧
        BuiltInsTranslated after) ↔
      nextId sdl + 7 * commandCount calls ≤ 0x10000 ∨ commandCount calls ≤ 42 := by
  have counted := counted_programStart nextId sdl
  have lowest := documented.lowest sdl
  constructor
  · rintro ⟨after, ran, translated⟩
    have counts := counted.run documented ran
    rw [Nat.zero_add] at counts
    exact (counts.builtIns_iff lowest).mp translated
  · intro few
    obtain ⟨after, ran⟩ := counted.run_defined documented calls (by omega)
    have counts := counted.run documented ran
    rw [Nat.zero_add] at counts
    exact ⟨after, ran, (counts.builtIns_iff lowest).mpr few⟩

end BuiltIns

theorem builtIns_translated_iff_three :
    let calls : List EncodeCall :=
      [(some (commandEvent 1), sdlZero), (none, sdlZero), (some (commandEvent 3), sdlZero)]
    (∃ after, run (encodeStep registerInOrder) (programStart 0) calls = some after ∧
        BuiltInsTranslated after) ↔
      0x8000 + 0 + 7 * commandCount calls ≤ 0x10000 ∨ commandCount calls ≤ 42 :=
  builtIns_translated_iff registerInOrder_handsOutIds 0 _

theorem quit_becomes_command :
    ∃ after event,
      run (encodeStep registerInOrder) (programStart 0)
          (List.replicate 4682 (some (commandEvent 1), sdlZero)) = some after ∧
        oxiFromSdlEvent after 0 { sdlZero with type := sdlEventQuit } (commandEvent 0) =
          some event ∧
        event.type = OxEventType.command.code ∧ event.cmd.code = 0x100 := by
  have counted := counted_programStart (fun handedOut => 0x8000 + handedOut) 0
  have commands : commandCount (List.replicate 4682 (some (commandEvent 1), sdlZero)) = 4682 := by
    rw [commandCount, List.countP_replicate]
    decide
  obtain ⟨after, ran⟩ := counted.run_defined registerInOrder_handsOutIds
    (List.replicate 4682 (some (commandEvent 1), sdlZero)) (by rw [commands]; decide)
  have counts := counted.run registerInOrder_handsOutIds ran
  rw [commands] at counts
  have first : after.cmdEventTypeFirst = 0 := (counts.exhausted (by decide)).2 (by decide)
  have last : after.cmdEventTypeLast = 28091 := by rw [counts.last]; rfl
  have captured := oxiFromSdlEvent_inside after { sdlZero with type := sdlEventQuit }
    (by rw [first]; decide) (by rw [last]; decide) 0 (commandEvent 0)
  refine ⟨after, _, ran, captured, rfl, ?_⟩
  rw [first]
  decide

end YakUnshorn
