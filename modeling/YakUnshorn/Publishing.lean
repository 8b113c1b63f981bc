import YakUnshorn.Republishing

/-!
`oxi_publish_event` of `ox-kernel/event.c` as one step that either appends to SDL's
queue or changes nothing there. `SDL_PushEvent` is a parameter.
-/

namespace YakUnshorn

open CMachine

abbrev PushEvent (Sdl : Type) := Sdl → SdlEvent → Bool × Sdl

/-- `oxi_publish_event`. There is no result where the arithmetic of the translation overflows. -/
def oxiPublishEvent {Sdl : Type} (registerEvents : RegisterEvents Sdl) (pushEvent : PushEvent Sdl)
    (translator : Translator Sdl) (oxEvent : Option OxEvent) :
    Option (Except Fault (Bool × Translator Sdl)) := do
  let (couldTranslate, sdlEvent, translator) ←
    oxiToSdlEvent registerEvents translator oxEvent sdlZero
  if ¬couldTranslate then
    -- the message reads `ox_event->type`
    match oxEvent with
    | none => some (.error .nullDereference)
    | some _ => some (.ok (false, translator))
  else
    let (pushed, sdl) := pushEvent translator.sdl sdlEvent
    some (.ok (pushed, { translator with sdl }))

/-- What SDL documents of `SDL_PushEvent` and `SDL_RegisterEvents` with respect to the queue: an
event that is accepted is copied to its end, with the present time if it has none. -/
structure KeepsQueue {Sdl : Type} (registerEvents : RegisterEvents Sdl) (pushEvent : PushEvent Sdl)
    (queue : Sdl → List SdlEvent) : Prop where
  registered : ∀ sdl count, queue (registerEvents sdl count).2 = queue sdl
  accepted : ∀ sdl event, (pushEvent sdl event).1 = true → ∃ now,
    queue (pushEvent sdl event).2 = queue sdl ++
      [{ event with timestamp := if event.timestamp = 0 then now else event.timestamp }]
  refused : ∀ sdl event, (pushEvent sdl event).1 = false →
    queue (pushEvent sdl event).2 = queue sdl

/-- The SDL event says what the event says, with the types that commands have by then. -/
structure Translates {Sdl : Type} (translator : Translator Sdl) (event : OxEvent)
    (sdlEvent : SdlEvent) : Prop where
  type : event.type = OxEventType.quit.code ∧ sdlEvent.type = sdlEventQuit ∨
    event.type = OxEventType.command.code ∧
      sdlEvent.type = event.cmd.code + UInt32.ofInt translator.cmdEventTypeFirst ∧
      sdlEvent.user = ⟨event.cmd.code.toInt32, event.cmd.data, event.cmd.context⟩
  timestamp : event.timestamp ≠ 0 → sdlEvent.timestamp = event.timestamp

/-- The call returns, and it returns true for a translation at the end of the queue and false
for the queue as it was. -/
def AllOrNothing {Sdl : Type} (registerEvents : RegisterEvents Sdl) (pushEvent : PushEvent Sdl)
    (queue : Sdl → List SdlEvent) (before : Translator Sdl) (oxEvent : Option OxEvent) : Prop :=
  ∃ result after,
    oxiPublishEvent registerEvents pushEvent before oxEvent = some (.ok (result, after)) ∧
      ((result = true ∧ ∃ event sdlEvent, oxEvent = some event ∧ Translates after event sdlEvent ∧
          queue after.sdl = queue before.sdl ++ [sdlEvent]) ∨
        (result = false ∧ queue after.sdl = queue before.sdl))

section Publishing

variable {Sdl : Type} {registerEvents : RegisterEvents Sdl} {pushEvent : PushEvent Sdl}
  {queue : Sdl → List SdlEvent} {before : Translator Sdl} {event : OxEvent}

theorem Translates.stamped {sdlEvent : SdlEvent} (translates : Translates before event sdlEvent)
    (now : UInt64) :
    Translates before event { sdlEvent with
      timestamp := if sdlEvent.timestamp = 0 then now else sdlEvent.timestamp } := by
  refine ⟨translates.type, fun given => ?_⟩
  have same := translates.timestamp given
  have stays : sdlEvent.timestamp ≠ 0 := by rwa [same]
  simp only [stays, ↓reduceIte]
  exact same

/-- An event that `SDL_PushEvent` gets is at the end of the queue afterwards, or nothing is. -/
theorem pushed_cases (documented : KeepsQueue registerEvents pushEvent queue)
    {translator : Translator Sdl} {sdlEvent : SdlEvent}
    (translates : Translates translator event sdlEvent) {sdl last : Sdl} {pushed : Bool}
    (sent : pushEvent sdl sdlEvent = (pushed, last)) :
    (pushed = true ∧ ∃ queued, Translates translator event queued ∧
        queue last = queue sdl ++ [queued]) ∨
      (pushed = false ∧ queue last = queue sdl) := by
  have accepted := documented.accepted sdl sdlEvent
  have refused := documented.refused sdl sdlEvent
  rw [sent] at accepted refused
  cases pushed with
  | true =>
      obtain ⟨now, appended⟩ := accepted rfl
      exact .inl ⟨rfl, _, translates.stamped now, appended⟩
  | false => exact .inr ⟨rfl, refused rfl⟩

theorem allOrNothing_translated (documented : KeepsQueue registerEvents pushEvent queue)
    {middle : Translator Sdl} {sdlEvent : SdlEvent}
    (translated : oxiToSdlEvent registerEvents before (some event) sdlZero =
      some (true, sdlEvent, middle))
    (translates : Translates middle event sdlEvent) (kept : queue middle.sdl = queue before.sdl) :
    AllOrNothing registerEvents pushEvent queue before (some event) := by
  rcases sent : pushEvent middle.sdl sdlEvent with ⟨pushed, last⟩
  refine ⟨pushed, { middle with sdl := last }, ?_, ?_⟩
  · rw [oxiPublishEvent, translated]
    simp [sent]
  · rcases pushed_cases documented translates sent with ⟨rfl, queued, again, appended⟩ |
      ⟨rfl, same⟩
    · exact .inl ⟨rfl, event, queued, rfl, ⟨again.type, again.timestamp⟩, by rw [appended, kept]⟩
    · exact .inr ⟨rfl, by rw [same, kept]⟩

theorem allOrNothing_command_iff (documented : KeepsQueue registerEvents pushEvent queue)
    (lower : -2 ^ 31 ≤ before.cmdEventTypeLast)
    (isCommand : event.type = OxEventType.command.code) :
    AllOrNothing registerEvents pushEvent queue before (some event) ↔
      before.cmdEventTypeLast + 7 < 2 ^ 31 := by
  constructor
  · rintro ⟨result, after, returned, -⟩
    obtain ⟨⟨could, sdlEvent, middle⟩, translated, -⟩ := Option.bind_eq_some_iff.mp returned
    rw [oxiToSdlEvent_command before isCommand] at translated
    obtain ⟨⟨type, state⟩, typed, -⟩ := Option.bind_eq_some_iff.mp translated
    exact (getCmdEventType_some typed).2.2.2.2
  · intro room
    obtain ⟨type, middle, typed⟩ : ∃ type middle,
        getCmdEventType registerEvents before event.cmd.code = some (type, middle) := by
      rw [getCmdEventType_eq, cInt_eq_some (by omega) room, Option.bind_some,
        cInt_eq_some (by omega) (by omega)]
      exact ⟨_, _, rfl⟩
    obtain ⟨typeEq, -, -, sdlEq, -⟩ := getCmdEventType_some typed
    apply allOrNothing_translated documented
    · rw [oxiToSdlEvent_command before isCommand, typed]
      rfl
    · exact ⟨.inr ⟨isCommand, typeEq, rfl⟩, fun _ => rfl⟩
    · rw [sdlEq, documented.registered]

/-- Publishing is all or nothing of every event, up to the overflow of the range of command types,
and of NULL it is not. -/
theorem publish_all_or_nothing_iff (documented : KeepsQueue registerEvents pushEvent queue)
    (before : Translator Sdl) (lower : -2 ^ 31 ≤ before.cmdEventTypeLast)
    (oxEvent : Option OxEvent) :
    AllOrNothing registerEvents pushEvent queue before oxEvent ↔
      ∃ event, oxEvent = some event ∧
        (event.type = OxEventType.command.code → before.cmdEventTypeLast + 7 < 2 ^ 31) := by
  cases oxEvent with
  | none =>
      refine iff_of_false ?_ (by simp)
      rintro ⟨result, after, returned, -⟩
      cases returned
  | some event =>
      simp only [Option.some.injEq, exists_eq_left']
      by_cases isCommand : event.type = OxEventType.command.code
      · rw [allOrNothing_command_iff documented lower isCommand]
        simp only [isCommand, true_imp_iff]
      · refine iff_of_true ?_ fun command => absurd command isCommand
        by_cases isQuit : event.type = OxEventType.quit.code
        · exact allOrNothing_translated documented (oxiToSdlEvent_quit isQuit sdlZero)
            ⟨.inl ⟨isQuit, rfl⟩, fun _ => rfl⟩ rfl
        · refine ⟨false, before, ?_, .inr ⟨rfl, rfl⟩⟩
          rw [oxiPublishEvent, oxiToSdlEvent_unknown isQuit isCommand]
          rfl

end Publishing

abbrev SdlQueue := Nat × List SdlEvent

def registerBeside : RegisterEvents SdlQueue := fun sdl count =>
  let (first, handedOut) := registerInOrder sdl.1 count
  (first, handedOut, sdl.2)

/-- SDL's queue holds no more than 65535 events. -/
def pushInOrder : PushEvent SdlQueue := fun sdl event =>
  if sdl.2.length < 65535 then
    let timestamp := if event.timestamp = 0 then 1 else event.timestamp
    (true, sdl.1, sdl.2 ++ [{ event with timestamp }])
  else (false, sdl)

theorem pushInOrder_keepsQueue : KeepsQueue registerBeside pushInOrder Prod.snd where
  registered _ _ := rfl
  accepted sdl event pushed := by
    simp only [pushInOrder] at pushed ⊢
    split at pushed
    case isTrue room => exact ⟨1, by rw [if_pos room]⟩
    case isFalse => cases pushed
  refused sdl event pushed := by
    simp only [pushInOrder] at pushed ⊢
    split at pushed
    case isTrue => cases pushed
    case isFalse full => rw [if_neg full]

theorem publish_all_or_nothing_iff_command :
    let before : Translator SdlQueue := programStart (0, [])
    let event := { commandEvent 2 with timestamp := 9 }
    AllOrNothing registerBeside pushInOrder Prod.snd before (some event) ↔
      ∃ published, some event = some published ∧
        (published.type = OxEventType.command.code → before.cmdEventTypeLast + 7 < 2 ^ 31) :=
  publish_all_or_nothing_iff pushInOrder_keepsQueue (programStart (0, [])) (by decide)
    (some { commandEvent 2 with timestamp := 9 })

theorem publishing_null_reads_it :
    oxiPublishEvent registerBeside pushInOrder (programStart (0, [])) none =
        some (.error .nullDereference) ∧
      ¬AllOrNothing registerBeside pushInOrder Prod.snd (programStart (0, [])) none := by
  refine ⟨rfl, ?_⟩
  rintro ⟨result, after, returned, -⟩
  cases returned

end YakUnshorn
