import YakUnshorn.EventTranslation
import Mathlib.Tactic.SplitIfs

/-!
Which command events survive the way through SDL's queue, and what the range of
command types does to SDL's own events, over every history of `oxi_to_sdl_event`.
-/

namespace YakUnshorn

open CMachine StepRuns

section Histories

variable {Sdl : Type} {registerEvents : RegisterEvents Sdl} {nextId : Sdl → Nat}

/-- The state after `n` calls on command events, the first id having been `start`. SDL is asked
for ids in each of them, and the end of the range moves by six while its start moves by seven,
until there are no ids left and the start falls to 0. -/
structure Counted (nextId : Sdl → Nat) (start n : Nat) (translator : Translator Sdl) : Prop where
  last : translator.cmdEventTypeLast = 6 * n - 1
  representable : translator.cmdEventTypeLast < 2 ^ 31
  unused : n = 0 → translator.cmdEventTypeFirst = -1
  fitting : start + 7 * n ≤ 0x10000 → nextId translator.sdl = start + 7 * n ∧
    (0 < n → translator.cmdEventTypeFirst = start + 7 * n - 7)
  exhausted : 0x10000 < start + 7 * n → 0x10000 < nextId translator.sdl + 7 ∧
    (0 < n → translator.cmdEventTypeFirst = 0)

theorem counted_programStart (nextId : Sdl → Nat) (sdl : Sdl) :
    Counted nextId (nextId sdl) 0 (programStart sdl) where
  last := rfl
  representable := by simp [programStart]
  unused _ := rfl
  fitting _ := ⟨rfl, fun impossible => absurd impossible (Nat.lt_irrefl 0)⟩
  exhausted full := ⟨by simp only [programStart]; omega,
    fun impossible => absurd impossible (Nat.lt_irrefl 0)⟩

/-- The test for the first use is no test: every call asks SDL for ids. -/
theorem getCmdEventType_eq (translator : Translator Sdl) (code : UInt32) :
    getCmdEventType registerEvents translator code =
      (cInt (translator.cmdEventTypeLast + 7)).bind fun raised =>
        (cInt (raised - 1)).bind fun last =>
          some (code + UInt32.ofInt (registerEvents translator.sdl 7).1.toInt32.toInt,
            ⟨(registerEvents translator.sdl 7).1.toInt32.toInt, last,
              (registerEvents translator.sdl 7).2⟩) := rfl

theorem getCmdEventType_some {translator after : Translator Sdl} {code type : UInt32}
    (returned : getCmdEventType registerEvents translator code = some (type, after)) :
    type = code + UInt32.ofInt after.cmdEventTypeFirst ∧
      after.cmdEventTypeFirst = (registerEvents translator.sdl 7).1.toInt32.toInt ∧
      after.cmdEventTypeLast = translator.cmdEventTypeLast + 6 ∧
      after.sdl = (registerEvents translator.sdl 7).2 ∧
      translator.cmdEventTypeLast + 7 < 2 ^ 31 := by
  rw [getCmdEventType_eq] at returned
  obtain ⟨raised, raisedEq, rest⟩ := Option.bind_eq_some_iff.mp returned
  obtain ⟨last, lastEq, result⟩ := Option.bind_eq_some_iff.mp rest
  obtain ⟨rfl, -, bound⟩ := cInt_some raisedEq
  obtain ⟨rfl, -⟩ := cInt_some lastEq
  simp only [Option.some.injEq, Prod.mk.injEq] at result
  obtain ⟨rfl, rfl⟩ := result
  refine ⟨rfl, rfl, ?_, rfl, bound⟩
  simp only
  omega

theorem Counted.encode (documented : HandsOutIds registerEvents nextId) {start n : Nat}
    {translator after : Translator Sdl} (counted : Counted nextId start n translator)
    {code type : UInt32}
    (returned : getCmdEventType registerEvents translator code = some (type, after)) :
    Counted nextId start (n + 1) after ∧ type = code + UInt32.ofInt after.cmdEventTypeFirst := by
  obtain ⟨typeEq, firstEq, lastEq, sdlEq, bound⟩ := getCmdEventType_some returned
  refine ⟨⟨?_, ?_, ?_, ?_, ?_⟩, typeEq⟩
  · rw [lastEq, counted.last]
    omega
  · omega
  · omega
  · intro fits
    obtain ⟨next, -⟩ := counted.fitting (by omega)
    obtain ⟨base, nextAfter⟩ := documented.granted translator.sdl 7 (by omega) (by omega)
    refine ⟨by rw [sdlEq, nextAfter]; omega, fun _ => ?_⟩
    rw [firstEq, toInt32_of_small (by omega), base]
    omega
  · intro full
    have noIds : 0x10000 < nextId translator.sdl + 7 := by
      by_cases fitted : start + 7 * n ≤ 0x10000
      · obtain ⟨next, -⟩ := counted.fitting fitted
        omega
      · exact (counted.exhausted (by omega)).1
    obtain ⟨base, nextAfter⟩ := documented.refused translator.sdl 7 noIds
    refine ⟨by rw [sdlEq]; omega, fun _ => ?_⟩
    rw [firstEq, base]
    rfl

variable (registerEvents) in
theorem Counted.encode_defined {start n : Nat} {translator : Translator Sdl}
    (counted : Counted nextId start n translator) (small : 6 * n + 6 < 2 ^ 31) (code : UInt32) :
    ∃ type after, getCmdEventType registerEvents translator code = some (type, after) := by
  have last := counted.last
  rw [getCmdEventType_eq, cInt_eq_some (by omega) (by omega), Option.bind_some,
    cInt_eq_some (by omega) (by omega)]
  exact ⟨_, _, rfl⟩

def commandSdlEvent (event : OxEvent) (buffer : SdlEvent) (type : UInt32) : SdlEvent :=
  { buffer with
    timestamp := event.timestamp
    type := type
    user :=
      { code := event.cmd.code.toInt32
        data1 := event.cmd.data
        data2 := event.cmd.context } }

theorem oxiToSdlEvent_command (translator : Translator Sdl) {event : OxEvent}
    (isCommand : event.type = OxEventType.command.code) (buffer : SdlEvent) :
    oxiToSdlEvent registerEvents translator (some event) buffer =
      (getCmdEventType registerEvents translator event.cmd.code).bind fun result =>
        some (true, commandSdlEvent event buffer result.1, result.2) := by
  simp only [oxiToSdlEvent, isCommand, ↓reduceIte]
  rw [if_neg (by decide)]
  rfl

theorem oxiToSdlEvent_command_some {translator after : Translator Sdl} {event : OxEvent}
    (isCommand : event.type = OxEventType.command.code) {buffer sdlEvent : SdlEvent}
    (encoded : oxiToSdlEvent registerEvents translator (some event) buffer =
      some (true, sdlEvent, after)) :
    ∃ type, getCmdEventType registerEvents translator event.cmd.code = some (type, after) ∧
      sdlEvent = commandSdlEvent event buffer type := by
  rw [oxiToSdlEvent_command translator isCommand] at encoded
  obtain ⟨⟨type, state⟩, returned, result⟩ := Option.bind_eq_some_iff.mp encoded
  simp only [Option.some.injEq, Prod.mk.injEq, true_and] at result
  obtain ⟨rfl, rfl⟩ := result
  exact ⟨type, returned, rfl⟩

theorem encodeStep_other (translator : Translator Sdl) {call : EncodeCall}
    (other : call.isCommand = false) :
    encodeStep registerEvents translator call = some translator := by
  obtain ⟨argument, buffer⟩ := call
  cases argument with
  | none => rfl
  | some event =>
      have notCommand : event.type ≠ OxEventType.command.code := by
        simpa [EncodeCall.isCommand] using other
      simp only [encodeStep, oxiToSdlEvent, notCommand, ↓reduceIte]
      split <;> rfl

variable (registerEvents) in
theorem encodeStep_command (translator : Translator Sdl) {call : EncodeCall}
    (isCommand : call.isCommand = true) : ∃ code, encodeStep registerEvents translator call =
      (getCmdEventType registerEvents translator code).map Prod.snd := by
  obtain ⟨argument, buffer⟩ := call
  cases argument with
  | none => simp [EncodeCall.isCommand] at isCommand
  | some event =>
      refine ⟨event.cmd.code, ?_⟩
      have command : event.type = OxEventType.command.code := by
        simpa [EncodeCall.isCommand] using isCommand
      rw [encodeStep, oxiToSdlEvent_command translator command]
      cases getCmdEventType registerEvents translator event.cmd.code <;> rfl

theorem encodeStep_cases {translator after : Translator Sdl} {call : EncodeCall}
    (stepped : encodeStep registerEvents translator call = some after) :
    (call.isCommand = false ∧ after = translator) ∨
      (call.isCommand = true ∧ ∃ code type,
        getCmdEventType registerEvents translator code = some (type, after)) := by
  cases isCommand : call.isCommand with
  | false =>
      rw [encodeStep_other translator isCommand] at stepped
      exact .inl ⟨rfl, (Option.some.inj stepped).symm⟩
  | true =>
      obtain ⟨code, shape⟩ := encodeStep_command registerEvents translator isCommand
      rw [shape] at stepped
      obtain ⟨⟨type, state⟩, returned, rfl⟩ := Option.map_eq_some_iff.mp stepped
      exact .inr ⟨rfl, code, type, returned⟩

theorem Counted.run (documented : HandsOutIds registerEvents nextId) {start n : Nat}
    {translator after : Translator Sdl} {calls : List EncodeCall}
    (counted : Counted nextId start n translator)
    (ran : StepRuns.run (encodeStep registerEvents) translator calls = some after) :
    Counted nextId start (n + commandCount calls) after := by
  induction calls generalizing n translator with
  | nil => exact Option.some.inj ran ▸ counted
  | cons call rest ih =>
      obtain ⟨middle, stepped, later⟩ := Option.bind_eq_some_iff.mp ran
      rcases encodeStep_cases stepped with ⟨isCommand, rfl⟩ | ⟨isCommand, code, type, returned⟩
      · simpa [commandCount, isCommand] using ih counted later
      · have next := ih (counted.encode documented returned).1 later
        have counts : n + commandCount (call :: rest) = n + 1 + commandCount rest := by
          simp only [commandCount, List.countP_cons, isCommand, ↓reduceIte]
          omega
        rw [counts]
        exact next

theorem Counted.run_defined (documented : HandsOutIds registerEvents nextId) {start n : Nat}
    {translator : Translator Sdl} (calls : List EncodeCall)
    (counted : Counted nextId start n translator) (small : 6 * (n + commandCount calls) < 2 ^ 31) :
    ∃ after, StepRuns.run (encodeStep registerEvents) translator calls = some after := by
  induction calls generalizing n translator with
  | nil => exact ⟨translator, rfl⟩
  | cons call rest ih =>
      simp only [commandCount, List.countP_cons] at small
      cases isCommand : call.isCommand with
      | false =>
          obtain ⟨after, ran⟩ := ih counted (by simpa [commandCount, isCommand] using small)
          refine ⟨after, ?_⟩
          rw [run_cons, encodeStep_other translator isCommand, Option.bind_some, ran]
      | true =>
          obtain ⟨code, shape⟩ := encodeStep_command registerEvents translator isCommand
          simp only [isCommand, ↓reduceIte] at small
          obtain ⟨type, middle, returned⟩ := counted.encode_defined registerEvents (by omega) code
          obtain ⟨after, ran⟩ := ih (counted.encode documented returned).1
            (by simp only [commandCount]; omega)
          refine ⟨after, ?_⟩
          rw [run_cons, shape, returned, Option.map_some, Option.bind_some, ran]

def builtInType (type : UInt32) : Option OxEventType :=
  if type = sdlEventQuit then some .quit
  else if type = sdlEventWindowExposed then some .windowExposed
  else if type = sdlEventKeyDown then some .keyDown
  else if type = sdlEventKeyUp then some .keyUp
  else none

theorem builtInType_cases {type : UInt32} {oxType : OxEventType}
    (builtIn : builtInType type = some oxType) :
    (type = sdlEventQuit ∧ oxType = .quit) ∨
      (type = sdlEventWindowExposed ∧ oxType = .windowExposed) ∨
      (type = sdlEventKeyDown ∧ oxType = .keyDown) ∨ (type = sdlEventKeyUp ∧ oxType = .keyUp) := by
  simp only [builtInType] at builtIn
  split_ifs at builtIn <;> simp_all

theorem builtInType_toNat {type : UInt32} {oxType : OxEventType}
    (builtIn : builtInType type = some oxType) : 0x100 ≤ type.toNat ∧ type.toNat ≤ 0x301 := by
  rcases builtInType_cases builtIn with ⟨rfl, -⟩ | ⟨rfl, -⟩ | ⟨rfl, -⟩ | ⟨rfl, -⟩ <;> decide

def OutOfRange (translator : Translator Sdl) (type : UInt32) : Prop :=
  ¬(UInt32.ofInt translator.cmdEventTypeFirst ≤ type ∧
    type ≤ UInt32.ofInt translator.cmdEventTypeLast)

theorem oxiFromSdlEvent_outOfRange {translator : Translator Sdl} {sdlEvent : SdlEvent}
    (outside : OutOfRange translator sdlEvent.type) (now : UInt64) (event : OxEvent) :
    (oxiFromSdlEvent translator now sdlEvent event).map OxEvent.type =
      (builtInType sdlEvent.type).map OxEventType.code := by
  rw [oxiFromSdlEvent, if_neg outside, builtInType]
  by_cases quit : sdlEvent.type = sdlEventQuit
  · simp [quit, oxInitEvent]
  by_cases exposed : sdlEvent.type = sdlEventWindowExposed
  · simp [exposed, oxInitEvent, sdlEventQuit, sdlEventWindowExposed]
  by_cases down : sdlEvent.type = sdlEventKeyDown
  · simp [down, oxInitEvent, sdlEventQuit, sdlEventWindowExposed, sdlEventKeyDown, sdlEventKeyUp]
  by_cases up : sdlEvent.type = sdlEventKeyUp
  · simp [up, oxInitEvent, sdlEventQuit, sdlEventWindowExposed, sdlEventKeyDown, sdlEventKeyUp]
  · simp [quit, exposed, down, up]

theorem oxiFromSdlEvent_above {translator : Translator Sdl} {sdlEvent : SdlEvent}
    (beyond : (UInt32.ofInt translator.cmdEventTypeLast).toNat < sdlEvent.type.toNat)
    (user : builtInType sdlEvent.type = none) (now : UInt64) (event : OxEvent) :
    oxiFromSdlEvent translator now sdlEvent event = none := by
  have outside : OutOfRange translator sdlEvent.type := by
    rintro ⟨-, upper⟩
    have := UInt32.le_iff_toNat_le.mp upper
    omega
  have translated := oxiFromSdlEvent_outOfRange outside now event
  rw [user] at translated
  simpa using translated

theorem builtInType_none {type : UInt32} (other : type.toNat < 0x100 ∨ 0x301 < type.toNat) :
    builtInType type = none := by
  cases builtIn : builtInType type with
  | none => rfl
  | some oxType =>
      have := builtInType_toNat builtIn
      omega

theorem oxiFromSdlEvent_inside (translator : Translator Sdl) (sdlEvent : SdlEvent)
    (lower : UInt32.ofInt translator.cmdEventTypeFirst ≤ sdlEvent.type)
    (upper : sdlEvent.type ≤ UInt32.ofInt translator.cmdEventTypeLast) (now : UInt64)
    (event : OxEvent) :
    oxiFromSdlEvent translator now sdlEvent event =
      some { event with
        type := OxEventType.command.code
        timestamp := sdlEvent.timestamp
        cmd :=
          { code := sdlEvent.type - UInt32.ofInt translator.cmdEventTypeFirst
            data := sdlEvent.user.data1
            context := sdlEvent.user.data2 } } := by
  rw [oxiFromSdlEvent, if_pos ⟨lower, upper⟩]
  rfl

theorem Counted.decode_granted {start n : Nat} {translator : Translator Sdl}
    (counted : Counted nextId start n translator) (some : 0 < n) (lowest : 0x8000 ≤ start)
    (fits : start + 7 * n ≤ 0x10000) {sdlEvent : SdlEvent} {code : UInt32}
    (system : code.toNat < oxCmdSystemMax)
    (type : sdlEvent.type = code + UInt32.ofInt translator.cmdEventTypeFirst) (now : UInt64)
    (event : OxEvent) : oxiFromSdlEvent translator now sdlEvent event = none := by
  have first := (counted.fitting fits).2 some
  have firstNat : (UInt32.ofInt translator.cmdEventTypeFirst).toNat = start + 7 * n - 7 := by
    rw [toNat_ofInt (by omega) (by omega)]
    omega
  have lastNat : (UInt32.ofInt translator.cmdEventTypeLast).toNat = 6 * n - 1 := by
    have last := counted.last
    rw [toNat_ofInt (by omega) (by omega)]
    omega
  have typeNat : sdlEvent.type.toNat = code.toNat + (start + 7 * n - 7) := by
    simp only [oxCmdSystemMax] at system
    rw [type, UInt32.toNat_add, firstNat]
    omega
  exact oxiFromSdlEvent_above (by omega) (builtInType_none (by omega)) now event

/-- Once the ids have run out, the types of commands are their codes, and the range starts
at 0. -/
theorem Counted.decode_exhausted {start n : Nat} {translator : Translator Sdl}
    (counted : Counted nextId start n translator) (some : 0 < n)
    (full : 0x10000 < start + 7 * n) (event : OxEvent) (buffer : SdlEvent)
    (inRange : event.cmd.code.toNat < 6 * n) (now : UInt64) (uninitialised : OxEvent) :
    oxiFromSdlEvent translator now (commandSdlEvent event buffer
        (event.cmd.code + UInt32.ofInt translator.cmdEventTypeFirst)) uninitialised =
      Option.some { uninitialised with
        type := OxEventType.command.code
        timestamp := event.timestamp
        cmd := event.cmd } := by
  have first := (counted.exhausted full).2 some
  have zero : UInt32.ofInt translator.cmdEventTypeFirst = 0 := by rw [first]; rfl
  have last := counted.last
  have representable := counted.representable
  rw [oxiFromSdlEvent_inside]
  · simp only [commandSdlEvent, zero, UInt32.add_zero, UInt32.sub_zero]
  · rw [zero, UInt32.le_iff_toNat_le]
    exact Nat.zero_le _
  · rw [zero, UInt32.le_iff_toNat_le, toNat_ofInt (by omega) (by omega)]
    simp only [commandSdlEvent, UInt32.add_zero]
    omega

def RoundTrips (registerEvents : RegisterEvents Sdl) (before : Translator Sdl) (event : OxEvent)
    (buffer : SdlEvent) : Prop :=
  ∀ sdlEvent after,
    oxiToSdlEvent registerEvents before (some event) buffer = some (true, sdlEvent, after) →
      ∀ now uninitialised, ∃ decoded,
        oxiFromSdlEvent after now sdlEvent uninitialised = some decoded ∧
          decoded.type = OxEventType.command.code ∧ decoded.cmd = event.cmd ∧
          decoded.timestamp = event.timestamp

/-- The condition under which the decoder finds the type that the encoder has just made up: SDL
has run out of ids, and the code is not the first one past the end of the first range. -/
def RangeReaches (start n : Nat) (code : UInt32) : Prop :=
  0x10000 < start + 7 * (n + 1) ∧ (code.toNat = 6 → 0 < n)

theorem Counted.decode_missed (documented : HandsOutIds registerEvents nextId) {start n : Nat}
    {before after : Translator Sdl} (counted : Counted nextId start n before)
    (lowest : 0x8000 ≤ start) {code type : UInt32} (system : code.toNat < oxCmdSystemMax)
    (returned : getCmdEventType registerEvents before code = some (type, after))
    (missed : ¬RangeReaches start n code) {sdlEvent : SdlEvent} (sameType : sdlEvent.type = type)
    (now : UInt64) (event : OxEvent) : oxiFromSdlEvent after now sdlEvent event = none := by
  obtain ⟨next, typeEq⟩ := counted.encode documented returned
  by_cases full : 0x10000 < start + 7 * (n + 1)
  · have largest : code.toNat = 6 ∧ n = 0 := by
      simp only [RangeReaches] at missed
      omega
    have zero : UInt32.ofInt after.cmdEventTypeFirst = 0 := by
      rw [(next.exhausted full).2 (by omega)]
      rfl
    have typeNat : sdlEvent.type.toNat = 6 := by
      rw [sameType, typeEq, zero, UInt32.add_zero, largest.1]
    have last : after.cmdEventTypeLast = 5 := by
      rw [next.last, largest.2]
      rfl
    have beyond : (UInt32.ofInt after.cmdEventTypeLast).toNat < sdlEvent.type.toNat := by
      rw [typeNat, last]
      decide
    exact oxiFromSdlEvent_above beyond (builtInType_none (by omega)) now event
  · exact next.decode_granted (by omega) lowest (by omega) system (sameType.trans typeEq) now event

theorem Counted.roundTrips_iff (documented : HandsOutIds registerEvents nextId) {start n : Nat}
    {before : Translator Sdl} (counted : Counted nextId start n before) (lowest : 0x8000 ≤ start)
    {event : OxEvent} (isCommand : event.type = OxEventType.command.code)
    (system : event.cmd.code.toNat < oxCmdSystemMax) (buffer : SdlEvent) :
    RoundTrips registerEvents before event buffer ↔ RangeReaches start n event.cmd.code := by
  have systemBound : event.cmd.code.toNat < 7 := system
  constructor
  · intro trips
    by_contra missed
    have few : n ≤ 0x10000 := by
      simp only [RangeReaches] at missed
      omega
    obtain ⟨type, after, returned⟩ := counted.encode_defined registerEvents (by omega)
      event.cmd.code
    obtain ⟨decoded, translated, -⟩ := trips (commandSdlEvent event buffer type) after
      (by rw [oxiToSdlEvent_command before isCommand, returned]; rfl) 0 event
    rw [counted.decode_missed documented lowest system returned missed rfl] at translated
    simp at translated
  · rintro ⟨full, largest⟩ sdlEvent after encoded now uninitialised
    obtain ⟨type, returned, rfl⟩ := oxiToSdlEvent_command_some isCommand encoded
    obtain ⟨next, rfl⟩ := counted.encode documented returned
    have decoded := next.decode_exhausted (by omega) full event buffer (by omega) now uninitialised
    exact ⟨_, decoded, rfl, rfl, rfl⟩

/-- After any history of calls, a command event with a system code survives the way through an
SDL event exactly when SDL has no ids left for the call that encodes it, and it is not the first
command of all with the last system code. -/
theorem command_round_trip_iff (documented : HandsOutIds registerEvents nextId) (sdl : Sdl)
    (history : List EncodeCall) (before : Translator Sdl)
    (ran : run (encodeStep registerEvents) (programStart sdl) history = some before)
    (event : OxEvent) (isCommand : event.type = OxEventType.command.code)
    (system : event.cmd.code.toNat < oxCmdSystemMax) (buffer : SdlEvent) :
    RoundTrips registerEvents before event buffer ↔
      0x10000 < nextId sdl + 7 * (commandCount history + 1) ∧
        (event.cmd.code.toNat = 6 → 0 < commandCount history) := by
  have counted := (counted_programStart nextId sdl).run documented ran
  rw [Nat.zero_add] at counted
  exact counted.roundTrips_iff documented (documented.lowest sdl) isCommand system buffer

end Histories

def commandEvent (code : UInt32) : OxEvent where
  type := OxEventType.command.code
  reserved := 0
  timestamp := 0
  keyPress := ⟨0, 0, 0, false⟩
  cmd := ⟨code, 0, 0⟩

def sdlZero : SdlEvent := ⟨0, 0, ⟨0, 0, 0, false⟩, ⟨0, 0, 0⟩⟩

theorem command_round_trip_iff_exhausted :
    let history : List EncodeCall := [⟨some (commandEvent 5), sdlZero⟩]
    let before : Translator Nat := ⟨0xFFF5, 5, 0x7FFC⟩
    let event := { commandEvent 2 with timestamp := 9 }
    RoundTrips registerInOrder before event sdlZero ↔
      0x10000 < 0x8000 + 0x7FF5 + 7 * (commandCount history + 1) ∧
        (event.cmd.code.toNat = 6 → 0 < commandCount history) :=
  command_round_trip_iff registerInOrder_handsOutIds 0x7FF5 [⟨some (commandEvent 5), sdlZero⟩]
    ⟨0xFFF5, 5, 0x7FFC⟩ rfl { commandEvent 2 with timestamp := 9 } rfl (by decide) sdlZero

theorem first_command_is_dropped :
    run (encodeStep registerInOrder) (programStart 0) [] = some (programStart 0) ∧
      ¬RoundTrips registerInOrder (programStart 0) (commandEvent 5) sdlZero := by
  refine ⟨rfl, fun trips => ?_⟩
  let encoded : SdlEvent := { sdlZero with type := 0x8005, user := ⟨5, 0, 0⟩ }
  obtain ⟨decoded, translated, -⟩ :=
    trips encoded ⟨0x8000, 5, 7⟩ (by decide) 0 (commandEvent 0)
  have dropped : oxiFromSdlEvent ⟨0x8000, 5, 7⟩ 0 encoded (commandEvent 0) = none := by decide
  rw [dropped] at translated
  simp at translated

end YakUnshorn
