import YakUnshorn.BunuelibSet

/-!
The data of the event system: `ox-kernel/event_types.h` and the parts of SDL's
event record that the kernel reads and writes.
-/

namespace YakUnshorn

/-- The address of something that is passed around but not followed; 0 is `NULL`. -/
abbrev Pointer := UInt64

/-- `ox_EventType`, less the sentinel `OX_EVENT_LAST`. -/
inductive OxEventType
  | none
  | windowExposed
  | keyDown
  | keyUp
  | command
  | textInput
  | quit
  deriving Repr, DecidableEq

/-- `OX_EVENT_LAST`, under the name that the topics table uses. -/
def topicsCount : Nat := 7

def OxEventType.topic : OxEventType → Fin topicsCount
  | .none => ⟨0, by decide⟩
  | .windowExposed => ⟨1, by decide⟩
  | .keyDown => ⟨2, by decide⟩
  | .keyUp => ⟨3, by decide⟩
  | .command => ⟨4, by decide⟩
  | .textInput => ⟨5, by decide⟩
  | .quit => ⟨6, by decide⟩

def OxEventType.code (type : OxEventType) : UInt32 := UInt32.ofNat type.topic.val

def oxCmdSystemMax : Nat := 7

structure KeyPress where
  scancode : UInt32
  key : UInt32
  mod : UInt16
  repeated : Bool
  deriving Repr, DecidableEq

structure Command where
  code : UInt32
  data : Pointer
  context : Pointer
  deriving Repr, DecidableEq

/-- `ox_Event`. The members of the union are kept apart, since no member is ever read after
another one was written over it. -/
structure OxEvent where
  type : UInt32
  reserved : UInt32
  timestamp : UInt64
  keyPress : KeyPress
  cmd : Command
  deriving Repr, DecidableEq

structure SdlKey where
  scancode : UInt32
  key : UInt32
  mod : UInt16
  repeated : Bool
  deriving Repr, DecidableEq

structure SdlUser where
  code : Int32
  data1 : Pointer
  data2 : Pointer
  deriving Repr, DecidableEq

structure SdlEvent where
  type : UInt32
  timestamp : UInt64
  key : SdlKey
  user : SdlUser
  deriving Repr, DecidableEq

def sdlEventQuit : UInt32 := 0x100

def sdlEventWindowExposed : UInt32 := 0x204

def sdlEventKeyDown : UInt32 := 0x300

def sdlEventKeyUp : UInt32 := 0x301

def subMax : Nat := 1024

abbrev SubSlot := Fin subMax

structure OxSubscription where
  id : Int
  callback : Pointer
  userData : Pointer
  next : Option SubSlot
  deriving Repr, DecidableEq

def oxSubEq (p q : OxSubscription) : Bool := p.id == q.id

/-- The store of subscriptions is a set whose elements also link to each other. -/
structure OxEventSystem where
  topics : Fin topicsCount → Option SubSlot
  subscriptionSet : FixedSet OxSubscription subMax

def oxiMakeEventSystem : OxEventSystem where
  topics := fun _ => Option.none
  subscriptionSet := FixedSet.zeroed subMax ⟨0, 0, 0, Option.none⟩

theorem oxSubEq_equivalence : Equivalence fun p q => oxSubEq p q = true where
  refl := by simp [oxSubEq]
  symm := by simp only [oxSubEq, beq_iff_eq]; exact fun same => same.symm
  trans := by simp only [oxSubEq, beq_iff_eq]; exact fun first second => first.trans second

theorem oxSubEq_iff (p q : OxSubscription) : oxSubEq p q = true ↔ p.id = q.id := by
  simp [oxSubEq]

end YakUnshorn
