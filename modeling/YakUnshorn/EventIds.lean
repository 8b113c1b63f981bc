import YakUnshorn.CommandCodec

/-!
Which SDL event types the translation of commands makes up: its own, or ones that
belong to others.
-/

namespace YakUnshorn

open CMachine StepRuns

def oxCmdUser : UInt32 := 0x8000

def oxCmdLast : UInt32 := 0xFFFF

def idsFrom (base : UInt32) (count : Nat) : List UInt32 :=
  (List.range count).map fun i => base + UInt32.ofNat i

section Ids

variable {Sdl : Type} {registerEvents : RegisterEvents Sdl} {nextId : Sdl → Nat}

/-- `SDL_RegisterEvents`, with a record of the ids that the translator obtained. -/
def recordingIds (registerEvents : RegisterEvents Sdl) : RegisterEvents (Sdl × List UInt32) :=
  fun sdl count =>
    let (base, after) := registerEvents sdl.1 count
    (base, after, if base = 0 then sdl.2 else sdl.2 ++ idsFrom base count)

/-- A call of `oxi_to_sdl_event`, or a registration of `more + 1` ids by someone else. -/
inductive IdOp
  | encode (call : EncodeCall)
  | foreign (more : Nat)
  deriving Repr, DecidableEq

def idStep (registerEvents : RegisterEvents Sdl) (translator : Translator (Sdl × List UInt32)) :
    IdOp → Option (Translator (Sdl × List UInt32))
  | .encode call => encodeStep (recordingIds registerEvents) translator call
  | .foreign more =>
      some { translator with
        sdl := ((registerEvents translator.sdl.1 (more + 1)).2, translator.sdl.2) }

/-- The type is an id that the translator obtained, or that of the user command itself, and SDL
could have given it out. -/
def OwnType (code type : UInt32) (obtained : List UInt32) : Prop :=
  (type ∈ obtained ∨ ((oxCmdUser ≤ code ∧ code ≤ oxCmdLast) ∧ type = code)) ∧
    type.toNat ≤ 0xFFFF

instance (code type : UInt32) (obtained : List UInt32) : Decidable (OwnType code type obtained) :=
  inferInstanceAs (Decidable (_ ∧ _))

theorem mem_idsFrom {base id : UInt32} {count : Nat} (fits : base.toNat + count ≤ 0x10000) :
    id ∈ idsFrom base count ↔ base.toNat ≤ id.toNat ∧ id.toNat < base.toNat + count := by
  have offset (i : Nat) (bound : i < count) : (base + UInt32.ofNat i).toNat = base.toNat + i := by
    rw [UInt32.toNat_add, UInt32.toNat_ofNat']
    omega
  simp only [idsFrom, List.mem_map, List.mem_range]
  constructor
  · rintro ⟨i, bound, rfl⟩
    rw [offset i bound]
    omega
  · rintro ⟨lower, upper⟩
    refine ⟨id.toNat - base.toNat, by omega, UInt32.toNat_inj.mp ?_⟩
    rw [offset _ (by omega)]
    omega

theorem HandsOutIds.grows (documented : HandsOutIds registerEvents nextId) (sdl : Sdl)
    {count : Nat} (positive : 0 < count) :
    nextId sdl ≤ nextId (registerEvents sdl count).2 := by
  by_cases fits : nextId sdl + count ≤ 0x10000
  · rw [(documented.granted sdl count positive fits).2]
    exact Nat.le_add_right _ _
  · exact (documented.refused sdl count (by omega)).2

theorem recordingIds_granted (documented : HandsOutIds registerEvents nextId)
    (sdl : Sdl × List UInt32) {count : Nat} (positive : 0 < count)
    (fits : nextId sdl.1 + count ≤ 0x10000) :
    (recordingIds registerEvents sdl count).2.2 =
      sdl.2 ++ idsFrom (registerEvents sdl.1 count).1 count := by
  have base := (documented.granted sdl.1 count positive fits).1
  have lowest := documented.lowest sdl.1
  have nonzero : (registerEvents sdl.1 count).1 ≠ 0 := by
    intro zero
    rw [zero] at base
    have : (0 : UInt32).toNat = 0 := rfl
    omega
  simp only [recordingIds, nonzero, ↓reduceIte]

def HandedOut (nextId : Sdl → Nat) (sdl : Sdl × List UInt32) : Prop :=
  ∀ id ∈ sdl.2, id.toNat < nextId sdl.1

theorem HandedOut.register (documented : HandsOutIds registerEvents nextId)
    {sdl : Sdl × List UInt32} (handedOut : HandedOut nextId sdl) {count : Nat}
    (positive : 0 < count) : HandedOut nextId (recordingIds registerEvents sdl count).2 := by
  intro id member
  have grows := documented.grows sdl.1 positive
  change id.toNat < nextId (registerEvents sdl.1 count).2
  by_cases fits : nextId sdl.1 + count ≤ 0x10000
  · obtain ⟨base, next⟩ := documented.granted sdl.1 count positive fits
    rw [recordingIds_granted documented sdl positive fits] at member
    rcases List.mem_append.mp member with old | new
    · exact Nat.lt_of_lt_of_le (handedOut id old) grows
    · rw [mem_idsFrom (by omega)] at new
      omega
  · have base := (documented.refused sdl.1 count (by omega)).1
    simp only [recordingIds, base, ↓reduceIte] at member
    exact Nat.lt_of_lt_of_le (handedOut id member) grows

theorem HandedOut.step (documented : HandsOutIds registerEvents nextId)
    {translator after : Translator (Sdl × List UInt32)} {op : IdOp}
    (handedOut : HandedOut nextId translator.sdl)
    (stepped : idStep registerEvents translator op = some after) :
    HandedOut nextId after.sdl := by
  cases op with
  | foreign more =>
      obtain rfl : _ = after := Option.some.inj stepped
      intro id member
      exact Nat.lt_of_lt_of_le (handedOut id member)
        (documented.grows translator.sdl.1 (Nat.succ_pos more))
  | encode call =>
      change encodeStep (recordingIds registerEvents) translator call = some after at stepped
      rcases encodeStep_cases stepped with ⟨-, rfl⟩ | ⟨-, code, type, returned⟩
      · exact handedOut
      · rw [(getCmdEventType_some returned).2.2.2.1]
        exact handedOut.register documented (by decide)

theorem HandedOut.run (documented : HandsOutIds registerEvents nextId)
    {translator after : Translator (Sdl × List UInt32)} {history : List IdOp}
    (handedOut : HandedOut nextId translator.sdl)
    (ran : StepRuns.run (idStep registerEvents) translator history = some after) :
    HandedOut nextId after.sdl := by
  induction history generalizing translator with
  | nil => exact Option.some.inj ran ▸ handedOut
  | cons op rest ih =>
      obtain ⟨middle, stepped, later⟩ := Option.bind_eq_some_iff.mp ran
      exact ih (handedOut.step documented stepped) later

theorem encoded_command {translator after : Translator Sdl} {event : OxEvent}
    (isCommand : event.type = OxEventType.command.code) {buffer sdlEvent : SdlEvent}
    (encoded : oxiToSdlEvent registerEvents translator (some event) buffer =
      some (true, sdlEvent, after)) :
    sdlEvent.type = event.cmd.code + (registerEvents translator.sdl oxCmdSystemMax).1 ∧
      after.sdl = (registerEvents translator.sdl oxCmdSystemMax).2 := by
  obtain ⟨type, returned, rfl⟩ := oxiToSdlEvent_command_some isCommand encoded
  obtain ⟨typeEq, firstEq, -, sdlEq, -⟩ := getCmdEventType_some returned
  refine ⟨?_, sdlEq⟩
  change type = _
  rw [typeEq, firstEq, ofInt_toInt32]
  rfl

theorem add_mem_idsFrom {base code : UInt32} (fits : base.toNat + oxCmdSystemMax ≤ 0x10000) :
    code + base ∈ idsFrom base oxCmdSystemMax ↔ code.toNat < oxCmdSystemMax := by
  have bound := code.toNat_lt
  simp only [oxCmdSystemMax] at fits ⊢
  rw [mem_idsFrom fits, UInt32.toNat_add]
  omega

theorem ownType_add_iff {base code : UInt32} {earlier : List UInt32}
    (lowest : 0x8000 ≤ base.toNat) (fits : base.toNat + oxCmdSystemMax ≤ 0x10000)
    (below : ∀ id ∈ earlier, id.toNat < base.toNat) :
    OwnType code (code + base) (earlier ++ idsFrom base oxCmdSystemMax) ↔
      code.toNat < oxCmdSystemMax ∨
        (oxCmdLast < code ∧ ∃ id ∈ earlier, code = id - base) := by
  have bound := code.toNat_lt
  have sum := UInt32.toNat_add code base
  simp only [OwnType, List.mem_append, add_mem_idsFrom fits]
  simp only [oxCmdSystemMax] at fits ⊢
  constructor
  · rintro ⟨(old | system) | ⟨-, same⟩, -⟩
    · have wrapped := below _ old
      have beyond : oxCmdLast < code := by
        rw [UInt32.lt_iff_toNat_lt]
        change 0xFFFF < code.toNat
        omega
      exact .inr ⟨beyond, code + base, old, (UInt32.add_sub_cancel code base).symm⟩
    · exact .inl system
    · rw [same] at sum
      omega
  · rintro (system | ⟨-, id, old, rfl⟩)
    · exact ⟨.inl (.inr system), by omega⟩
    · have known := below id old
      rw [UInt32.sub_add_cancel]
      exact ⟨.inl (.inl old), by omega⟩

/-- After any history of encoded events and foreign registrations, the type that a command is
given is an id of the translator's own exactly for the system codes, and for no other code of
the enumeration: beyond its end the sum may come round to an id from an earlier call. -/
theorem command_type_own_iff (documented : HandsOutIds registerEvents nextId) (sdl : Sdl)
    (history : List IdOp) (before : Translator (Sdl × List UInt32))
    (ran : run (idStep registerEvents) (programStart (sdl, [])) history = some before)
    (succeeds : nextId before.sdl.1 + oxCmdSystemMax ≤ 0x10000) (event : OxEvent)
    (isCommand : event.type = OxEventType.command.code) (buffer sdlEvent : SdlEvent)
    (after : Translator (Sdl × List UInt32))
    (encoded : oxiToSdlEvent (recordingIds registerEvents) before (some event) buffer =
      some (true, sdlEvent, after)) :
    OwnType event.cmd.code sdlEvent.type after.sdl.2 ↔
      event.cmd.code.toNat < oxCmdSystemMax ∨
        (oxCmdLast < event.cmd.code ∧
          ∃ id ∈ before.sdl.2, event.cmd.code = id - UInt32.ofNat (nextId before.sdl.1)) := by
  have handedOut : HandedOut nextId before.sdl :=
    HandedOut.run documented (fun id none => absurd none (List.not_mem_nil)) ran
  obtain ⟨typeEq, sdlEq⟩ := encoded_command isCommand encoded
  change sdlEvent.type =
    event.cmd.code + (registerEvents before.sdl.1 oxCmdSystemMax).1 at typeEq
  have base := (documented.granted before.sdl.1 oxCmdSystemMax (by decide) succeeds).1
  have lowest := documented.lowest before.sdl.1
  have baseEq : (registerEvents before.sdl.1 oxCmdSystemMax).1 =
      UInt32.ofNat (nextId before.sdl.1) := by
    apply UInt32.toNat_inj.mp
    rw [base, UInt32.toNat_ofNat']
    omega
  rw [← baseEq, typeEq, sdlEq, recordingIds_granted documented before.sdl (by decide) succeeds]
  exact ownType_add_iff (by omega) (by omega) fun id old => base.symm ▸ handedOut id old

end Ids

theorem command_type_own_iff_after_foreign :
    OwnType 3 0x800D [0x800A, 0x800B, 0x800C, 0x800D, 0x800E, 0x800F, 0x8010] ↔
      (commandEvent 3).cmd.code.toNat < oxCmdSystemMax ∨
        (oxCmdLast < (commandEvent 3).cmd.code ∧
          ∃ id ∈ ([] : List UInt32), (commandEvent 3).cmd.code = id - UInt32.ofNat 0x800A) :=
  command_type_own_iff registerInOrder_handsOutIds 0 [.foreign 9]
    ⟨-1, -1, 10, []⟩ rfl (by decide) (commandEvent 3) rfl sdlZero
    { sdlZero with type := 0x800D, user := ⟨3, 0, 0⟩ }
    ⟨0x800A, 5, 17, [0x800A, 0x800B, 0x800C, 0x800D, 0x800E, 0x800F, 0x8010]⟩ (by decide)

theorem user_command_leaves_ids :
    (registerInOrder 0 oxCmdSystemMax).1 = 0x8000 ∧ ∃ sdlEvent after,
      oxiToSdlEvent (recordingIds registerInOrder) (programStart (0, []))
          (some (commandEvent oxCmdUser)) sdlZero = some (true, sdlEvent, after) ∧
        ¬OwnType oxCmdUser sdlEvent.type after.sdl.2 :=
  ⟨by decide, { sdlZero with type := 0x10000, user := ⟨0x8000, 0, 0⟩ },
    ⟨0x8000, 5, 7, [0x8000, 0x8001, 0x8002, 0x8003, 0x8004, 0x8005, 0x8006]⟩, by decide,
    by decide⟩

end YakUnshorn
