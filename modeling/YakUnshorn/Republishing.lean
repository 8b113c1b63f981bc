import YakUnshorn.CommandCodec

/-!
Publishing an event again that was received: which events of SDL come out of the two
translations as they went in.
-/

namespace YakUnshorn

open CMachine

section Republishing

variable {Sdl : Type} {registerEvents : RegisterEvents Sdl} {translator : Translator Sdl}
  {sdlEvent : SdlEvent} {uninitialised event : OxEvent} {now : UInt64}

/-- The events agree in all that an `OxEvent` of the type carries. -/
structure SameEvent (oxType : UInt32) (sdlEvent again : SdlEvent) : Prop where
  type : again.type = sdlEvent.type
  timestamp : again.timestamp = sdlEvent.timestamp
  key : oxType = OxEventType.keyDown.code ∨ oxType = OxEventType.keyUp.code →
    again.key = sdlEvent.key
  user : oxType = OxEventType.command.code →
    again.user.data1 = sdlEvent.user.data1 ∧ again.user.data2 = sdlEvent.user.data2

def Republishes (registerEvents : RegisterEvents Sdl) (translator : Translator Sdl)
    (sdlEvent : SdlEvent) (event : OxEvent) (buffer : SdlEvent) : Prop :=
  ∃ again after, oxiToSdlEvent registerEvents translator (some event) buffer =
    some (true, again, after) ∧ SameEvent event.type sdlEvent again

/-- SDL would give out the ids of the present range once more, and the end of the range can
still be moved. -/
def RangeStays (registerEvents : RegisterEvents Sdl) (translator : Translator Sdl) : Prop :=
  (registerEvents translator.sdl oxCmdSystemMax).1 =
      UInt32.ofInt translator.cmdEventTypeFirst ∧
    -2 ^ 31 ≤ translator.cmdEventTypeLast + oxCmdSystemMax - 1 ∧
    translator.cmdEventTypeLast + oxCmdSystemMax < 2 ^ 31

theorem oxiFromSdlEvent_timestamp
    (decoded : oxiFromSdlEvent translator now sdlEvent uninitialised = some event) :
    event.timestamp = sdlEvent.timestamp := by
  simp only [oxiFromSdlEvent] at decoded
  split_ifs at decoded <;> exact Option.some.inj decoded ▸ rfl

variable (registerEvents translator) in
theorem getCmdEventType_again_iff (type : UInt32) :
    (∃ after, getCmdEventType registerEvents translator
        (type - UInt32.ofInt translator.cmdEventTypeFirst) = some (type, after)) ↔
      RangeStays registerEvents translator := by
  simp only [getCmdEventType_eq, RangeStays, oxCmdSystemMax, Nat.cast_ofNat, ofInt_toInt32]
  constructor
  · rintro ⟨after, returned⟩
    obtain ⟨raised, raisedEq, rest⟩ := Option.bind_eq_some_iff.mp returned
    obtain ⟨last, lastEq, result⟩ := Option.bind_eq_some_iff.mp rest
    obtain ⟨rfl, -, upper⟩ := cInt_some raisedEq
    obtain ⟨-, lower, -⟩ := cInt_some lastEq
    have sum := congrArg Prod.fst (Option.some.inj result)
    refine ⟨?_, lower, upper⟩
    rw [← UInt32.add_right_inj (type - UInt32.ofInt translator.cmdEventTypeFirst),
      UInt32.sub_add_cancel]
    exact sum
  · rintro ⟨base, lower, upper⟩
    rw [cInt_eq_some (by omega) upper, Option.bind_some, cInt_eq_some lower (by omega),
      Option.bind_some, base, UInt32.sub_add_cancel]
    exact ⟨_, rfl⟩

theorem republishes_command_iff
    (inside : ¬OutOfRange translator sdlEvent.type)
    (decoded : oxiFromSdlEvent translator now sdlEvent uninitialised = some event)
    (buffer : SdlEvent) :
    Republishes registerEvents translator sdlEvent event buffer ↔
      RangeStays registerEvents translator := by
  obtain ⟨lower, upper⟩ := not_not.mp inside
  rw [oxiFromSdlEvent_inside translator sdlEvent lower upper] at decoded
  obtain rfl := Option.some.inj decoded
  rw [← getCmdEventType_again_iff registerEvents translator sdlEvent.type]
  constructor
  · rintro ⟨again, after, encoded, same⟩
    obtain ⟨type, returned, rfl⟩ := oxiToSdlEvent_command_some rfl encoded
    have typeEq : type = sdlEvent.type := same.type
    exact ⟨after, typeEq ▸ returned⟩
  · rintro ⟨after, returned⟩
    rw [Republishes, oxiToSdlEvent_command translator rfl, returned]
    have notKey : ¬(OxEventType.command.code = OxEventType.keyDown.code ∨
        OxEventType.command.code = OxEventType.keyUp.code) := by decide
    exact ⟨_, after, rfl, rfl, rfl, fun isKey => absurd isKey notKey, fun _ => ⟨rfl, rfl⟩⟩

theorem oxiToSdlEvent_quit (isQuit : event.type = OxEventType.quit.code) (buffer : SdlEvent) :
    oxiToSdlEvent registerEvents translator (some event) buffer =
      some (true, { buffer with timestamp := event.timestamp, type := sdlEventQuit },
        translator) := by
  simp only [oxiToSdlEvent, isQuit, ↓reduceIte]

theorem oxiToSdlEvent_unknown (notQuit : event.type ≠ OxEventType.quit.code)
    (notCommand : event.type ≠ OxEventType.command.code) (buffer : SdlEvent) :
    oxiToSdlEvent registerEvents translator (some event) buffer =
      some (false, { buffer with timestamp := event.timestamp }, translator) := by
  simp only [oxiToSdlEvent, notQuit, notCommand, ↓reduceIte]

/-- Of SDL's own events the encoder knows one, the decoder four. -/
theorem republishes_builtIn_iff (outside : OutOfRange translator sdlEvent.type)
    (decoded : oxiFromSdlEvent translator now sdlEvent uninitialised = some event)
    (buffer : SdlEvent) :
    Republishes registerEvents translator sdlEvent event buffer ↔
      sdlEvent.type = sdlEventQuit := by
  have timestamp := oxiFromSdlEvent_timestamp decoded
  have translated := oxiFromSdlEvent_outOfRange outside now uninitialised
  rw [decoded, Option.map_some, eq_comm, Option.map_eq_some_iff] at translated
  obtain ⟨oxType, builtIn, code⟩ := translated
  constructor
  · rintro ⟨again, after, encoded, -⟩
    rcases builtInType_cases builtIn with ⟨quit, -⟩ | ⟨-, rfl⟩ | ⟨-, rfl⟩ | ⟨-, rfl⟩
    · exact quit
    all_goals
      rw [oxiToSdlEvent_unknown (by rw [← code]; decide) (by rw [← code]; decide)] at encoded
      simp at encoded
  · intro quit
    have isQuit : event.type = OxEventType.quit.code := by
      rw [builtInType, if_pos quit] at builtIn
      rw [← code, ← Option.some.inj builtIn]
    refine ⟨_, translator, oxiToSdlEvent_quit isQuit buffer, quit.symm, timestamp, ?_, ?_⟩
    · rw [isQuit]
      exact fun isKey => absurd isKey (by decide)
    · rw [isQuit]
      exact fun isCommand => absurd isCommand (by decide)

/-- In any state of the translation, an event that was decoded comes out of the encoder as it
was exactly when it is the quit event, or a command and the range of commands stays. -/
theorem republishes_iff (registerEvents : RegisterEvents Sdl) (translator : Translator Sdl)
    (now : UInt64) (sdlEvent : SdlEvent) (uninitialised event : OxEvent)
    (decoded : oxiFromSdlEvent translator now sdlEvent uninitialised = some event)
    (buffer : SdlEvent) :
    Republishes registerEvents translator sdlEvent event buffer ↔
      (OutOfRange translator sdlEvent.type ∧ sdlEvent.type = sdlEventQuit) ∨
        (¬OutOfRange translator sdlEvent.type ∧ RangeStays registerEvents translator) := by
  by_cases outside : OutOfRange translator sdlEvent.type
  · rw [republishes_builtIn_iff outside decoded]
    simp only [outside, true_and, not_true, false_and, or_false]
  · rw [republishes_command_iff outside decoded]
    simp only [outside, false_and, not_false_eq_true, true_and, false_or]

end Republishing

def keyDownEvent : SdlEvent := { sdlZero with type := sdlEventKeyDown, key := ⟨4, 97, 0, false⟩ }

theorem republishes_iff_exhausted :
    let translator : Translator Nat := ⟨0, 5, 0x7FFF⟩
    let sdlEvent := { sdlZero with type := 3, timestamp := 9 }
    Republishes registerInOrder translator sdlEvent { commandEvent 3 with timestamp := 9 }
        sdlZero ↔
      (OutOfRange translator sdlEvent.type ∧ sdlEvent.type = sdlEventQuit) ∨
        (¬OutOfRange translator sdlEvent.type ∧ RangeStays registerInOrder translator) :=
  republishes_iff registerInOrder ⟨0, 5, 0x7FFF⟩ 0 { sdlZero with type := 3, timestamp := 9 }
    (commandEvent 0) { commandEvent 3 with timestamp := 9 } (by decide) sdlZero

theorem key_event_is_not_republished :
    ∃ event, oxiFromSdlEvent (programStart 0) 0 keyDownEvent (commandEvent 0) = some event ∧
      ¬Republishes registerInOrder (programStart 0) keyDownEvent event sdlZero := by
  refine ⟨{ commandEvent 0 with
    type := OxEventType.keyDown.code, keyPress := ⟨4, 97, 0, false⟩ }, by decide, ?_⟩
  rintro ⟨again, after, encoded, -⟩
  rw [oxiToSdlEvent_unknown (by decide) (by decide)] at encoded
  simp at encoded

end YakUnshorn
