import YakUnshorn.EventTypes
import YakUnshorn.Lib.CMachine
import YakUnshorn.Lib.Runs

/-!
`get_cmd_event_type`, `oxi_from_sdl_event` and `oxi_to_sdl_event` of
`ox-kernel/event.c`. `SDL_RegisterEvents` is a parameter with a state of its own.
-/

namespace YakUnshorn

open CMachine

/-- `SDL_RegisterEvents`: the first of the new ids, and SDL's state afterwards. -/
abbrev RegisterEvents (Sdl : Type) := Sdl → Nat → UInt32 × Sdl

/-- The globals of the translation, and SDL's record of the ids it gave out. -/
structure Translator (Sdl : Type) where
  cmdEventTypeFirst : Int
  cmdEventTypeLast : Int
  sdl : Sdl
  deriving Repr, DecidableEq

section Translation

variable {Sdl : Type}

def programStart (sdl : Sdl) : Translator Sdl := ⟨-1, -1, sdl⟩

def getCmdEventType (registerEvents : RegisterEvents Sdl) (translator : Translator Sdl)
    (code : UInt32) : Option (UInt32 × Translator Sdl) :=
  -- the condition of the source is an assignment of -1, and the branch is always taken
  let first : Int := -1
  if first ≠ 0 then do
    let (base, sdl) := registerEvents translator.sdl oxCmdSystemMax
    let first := base.toInt32.toInt
    let raised ← cInt (translator.cmdEventTypeLast + oxCmdSystemMax)
    let last ← cInt (raised - 1)
    some (code + UInt32.ofInt first, ⟨first, last, sdl⟩)
  else
    some (code + UInt32.ofInt first, { translator with cmdEventTypeFirst := first })

def oxInitEvent (now : UInt64) (event : OxEvent) (type : OxEventType) : OxEvent :=
  { event with type := type.code, timestamp := now }

/-- `oxi_from_sdl_event`: the event it fills in, or nothing where it returns false. The
comparisons are unsigned, since SDL's type is. -/
def oxiFromSdlEvent (translator : Translator Sdl) (now : UInt64) (sdlEvent : SdlEvent)
    (event : OxEvent) : Option OxEvent :=
  if UInt32.ofInt translator.cmdEventTypeFirst ≤ sdlEvent.type ∧
      sdlEvent.type ≤ UInt32.ofInt translator.cmdEventTypeLast then
    some { oxInitEvent now event .command with
      timestamp := sdlEvent.timestamp
      cmd :=
        { code := sdlEvent.type - UInt32.ofInt translator.cmdEventTypeFirst
          data := sdlEvent.user.data1
          context := sdlEvent.user.data2 } }
  else if sdlEvent.type = sdlEventQuit then
    some { oxInitEvent now event .quit with timestamp := sdlEvent.timestamp }
  else if sdlEvent.type = sdlEventWindowExposed then
    some { oxInitEvent now event .windowExposed with timestamp := sdlEvent.timestamp }
  else if sdlEvent.type = sdlEventKeyUp ∨ sdlEvent.type = sdlEventKeyDown then
    let type : OxEventType := if sdlEvent.type = sdlEventKeyUp then .keyUp else .keyDown
    some { oxInitEvent now event type with
      timestamp := sdlEvent.timestamp
      keyPress :=
        { scancode := sdlEvent.key.scancode
          key := sdlEvent.key.key
          mod := sdlEvent.key.mod
          repeated := sdlEvent.key.repeated } }
  else none

/-- `oxi_to_sdl_event`: its result, the SDL event it filled in and the globals afterwards. There
is none of these where its arithmetic overflows. -/
def oxiToSdlEvent (registerEvents : RegisterEvents Sdl) (translator : Translator Sdl)
    (oxEvent : Option OxEvent) (sdlEvent : SdlEvent) :
    Option (Bool × SdlEvent × Translator Sdl) :=
  match oxEvent with
  | none => some (false, sdlEvent, translator)
  | some event =>
      let sdlEvent := { sdlEvent with timestamp := event.timestamp }
      if event.type = OxEventType.quit.code then
        some (true, { sdlEvent with type := sdlEventQuit }, translator)
      else if event.type = OxEventType.command.code then do
        let (type, translator) ← getCmdEventType registerEvents translator event.cmd.code
        some (true, { sdlEvent with
          type := type
          user :=
            { code := event.cmd.code.toInt32
              data1 := event.cmd.data
              data2 := event.cmd.context } }, translator)
      else some (false, sdlEvent, translator)

abbrev EncodeCall := Option OxEvent × SdlEvent

def encodeStep (registerEvents : RegisterEvents Sdl) (translator : Translator Sdl)
    (call : EncodeCall) : Option (Translator Sdl) :=
  (oxiToSdlEvent registerEvents translator call.1 call.2).map fun result => result.2.2

def EncodeCall.isCommand (call : EncodeCall) : Bool :=
  call.1.any fun event => event.type = OxEventType.command.code

def commandCount (calls : List EncodeCall) : Nat := calls.countP EncodeCall.isCommand

end Translation

/-- What SDL documents of `SDL_RegisterEvents`: consecutive ids from `SDL_EVENT_USER` up to
`0xFFFF`, the next of them being `nextId`, and 0 when the request no longer fits. -/
structure HandsOutIds {Sdl : Type} (registerEvents : RegisterEvents Sdl) (nextId : Sdl → Nat) :
    Prop where
  lowest : ∀ sdl, 0x8000 ≤ nextId sdl
  granted : ∀ sdl count, 0 < count → nextId sdl + count ≤ 0x10000 →
    (registerEvents sdl count).1.toNat = nextId sdl ∧
      nextId (registerEvents sdl count).2 = nextId sdl + count
  refused : ∀ sdl count, 0x10000 < nextId sdl + count →
    (registerEvents sdl count).1 = 0 ∧ nextId sdl ≤ nextId (registerEvents sdl count).2

def registerInOrder : RegisterEvents Nat := fun handedOut count =>
  if 0 < count ∧ handedOut + count ≤ 0x8000 then
    (UInt32.ofNat (0x8000 + handedOut), handedOut + count)
  else (0, handedOut)

theorem registerInOrder_handsOutIds :
    HandsOutIds registerInOrder fun handedOut => 0x8000 + handedOut where
  lowest _ := Nat.le_add_right _ _
  granted handedOut count positive fits := by
    have within : 0 < count ∧ handedOut + count ≤ 0x8000 := ⟨positive, by omega⟩
    simp only [registerInOrder, within, and_self, ↓reduceIte]
    refine ⟨?_, by omega⟩
    rw [UInt32.toNat_ofNat']
    omega
  refused handedOut count full := by
    have outside : ¬(0 < count ∧ handedOut + count ≤ 0x8000) := by omega
    simp [registerInOrder, outside]

end YakUnshorn
