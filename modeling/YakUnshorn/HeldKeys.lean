import YakUnshorn.CommandModule
import Mathlib.Data.Finset.Dedup

/-!
Runs of `handle_key` against what the set of held keys is for: the keys whose latest
event was a press.
-/

namespace YakUnshorn

open CappedSet StepRuns

def latestOf (key : UInt32) (events : List OxEvent) : Option OxEvent :=
  events.reverse.find? fun event => event.keyPress.key = key

/-- The latest event of the key was a press, and the key is not the one that `handle_key` takes
for itself. -/
def Held (events : List OxEvent) (key : UInt32) : Prop :=
  key ≠ sdlkEscape ∧ (latestOf key events).any fun event => event.type = OxEventType.keyDown.code

instance (events : List OxEvent) (key : UInt32) : Decidable (Held events key) :=
  inferInstanceAs (Decidable (_ ∧ _))

def heldKeys (events : List OxEvent) : Finset UInt32 :=
  (events.map fun event => event.keyPress.key).toFinset.filter (Held events)

def keyOp (event : OxEvent) : Option (SetOp UInt32) :=
  if event.keyPress.key = sdlkEscape then none
  else if event.type = OxEventType.keyUp.code then some (.delete event.keyPress.key)
  else some (.insert event.keyPress.key)

theorem mem_heldKeys (events : List OxEvent) (key : UInt32) :
    key ∈ heldKeys events ↔ Held events key := by
  simp only [heldKeys, Finset.mem_filter, and_iff_right_iff_imp]
  rintro ⟨-, down⟩
  obtain ⟨event, latest, -⟩ := (Option.any_eq_true _ _).mp down
  have member := List.mem_reverse.mp (List.mem_of_find?_eq_some latest)
  have same := List.find?_some latest
  rw [decide_eq_true_eq] at same
  rw [List.mem_toFinset, ← same]
  exact List.mem_map_of_mem member

theorem heldKeys_prefix_card {events : List OxEvent} (short : events.length ≤ polyphony) :
    ∀ front, front <+: events → (heldKeys front).card ≤ polyphony := by
  intro front before
  have filtered : (heldKeys front).card ≤ (front.map fun event => event.keyPress.key).length :=
    (Finset.card_filter_le _ _).trans (List.toFinset_card_le _)
  have shorter := before.length_le
  rw [List.length_map] at filtered
  omega

theorem held_concat (events : List OxEvent) (event : OxEvent) (key : UInt32) :
    Held (events ++ [event]) key ↔
      if event.keyPress.key = key then
        key ≠ sdlkEscape ∧ event.type = OxEventType.keyDown.code
      else Held events key := by
  by_cases same : event.keyPress.key = key <;> simp [Held, latestOf, same]

theorem foldl_keyOp_concat (events : List OxEvent) (event : OxEvent) :
    ((events ++ [event]).filterMap keyOp).foldl apply ∅ =
      (keyOp event).elim ((events.filterMap keyOp).foldl apply ∅)
        (apply ((events.filterMap keyOp).foldl apply ∅)) := by
  cases op : keyOp event <;> simp [op]

theorem heldKeys_eq {events : List OxEvent} (keyEvents : ∀ event ∈ events, event.IsKeyEvent) :
    heldKeys events = (events.filterMap keyOp).foldl apply ∅ := by
  ext key
  rw [mem_heldKeys]
  induction events using List.reverseRecOn with
  | nil => simp [Held, latestOf]
  | append_singleton events event ih =>
      have before := ih fun earlier member => keyEvents earlier (by simp [member])
      have type := keyEvents event (by simp)
      rw [held_concat, foldl_keyOp_concat, keyOp]
      by_cases escape : event.keyPress.key = sdlkEscape
      · rw [if_pos escape, Option.elim_none, ← before]
        split
        case isTrue same =>
          have taken : key = sdlkEscape := same.symm.trans escape
          simp [taken, Held]
        case isFalse => rfl
      · rw [if_neg escape]
        by_cases up : event.type = OxEventType.keyUp.code
        · have notDown : event.type ≠ OxEventType.keyDown.code := by
            rw [up]
            decide
          rw [if_pos up, Option.elim_some, apply, Finset.mem_erase, ← before]
          split
          case isTrue same => simp [notDown, same]
          case isFalse other => simp [Ne.symm other]
        · have down := type.resolve_right up
          rw [if_neg up, Option.elim_some, apply, Finset.mem_insert, ← before]
          split
          case isTrue same => simp [down, same, same ▸ escape]
          case isFalse other => simp [Ne.symm other]

def LeavesKeys {World : Type} (parseCommand : ParseCommand World) : Prop :=
  ∀ world state parsers chord, ∃ command after later,
    parseCommand world state parsers chord = .ok (command, after, later) ∧
      after.keysDown = state.keysDown

/-- The same for where `parse_command` returns at all. -/
def KeepsKeys {World : Type} (parseCommand : ParseCommand World) : Prop :=
  ∀ world state parsers chord result,
    parseCommand world state parsers chord = .ok result → result.2.1.keysDown = state.keysDown

section Runs

variable {World : Type} {parseCommand : ParseCommand World}

theorem LeavesKeys.keeps (leaves : LeavesKeys parseCommand) : KeepsKeys parseCommand := by
  intro world state parsers chord result returned
  obtain ⟨command, after, later, parsed, kept⟩ := leaves world state parsers chord
  rw [parsed] at returned
  cases returned
  exact kept

theorem keyStep_keysDown (keeps : KeepsKeys parseCommand) {module after : CommandModule World}
    {call : KeyCall} (keyEvent : call.event.IsKeyEvent)
    (stepped : keyStep parseCommand module call = some after) :
    after.state.keysDown =
      (keyOp call.event).elim module.state.keysDown (module.state.keysDown.setStep keyEq) := by
  rw [keyStep] at stepped
  rw [keyOp]
  by_cases escape : call.event.keyPress.key = sdlkEscape
  · rw [handleKey_escape keyEvent escape] at stepped
    cases stepped
    rw [if_pos escape]
    rfl
  · rw [handleKey_other keyEvent escape] at stepped
    cases parsed : parseCommand module.world module.state module.state.parsers
        ⟨module.state.keysDown, call.event.asKeyPress⟩ with
    | error halt =>
        rw [parsed] at stepped
        cases stepped
    | ok result =>
        rw [parsed] at stepped
        cases stepped
        rw [if_neg escape, follow_keysDown, keeps _ _ _ _ _ parsed]
        by_cases up : call.event.type = OxEventType.keyUp.code <;> simp [up, FixedSet.setStep]

theorem keyStep_returns (leaves : LeavesKeys parseCommand) (module : CommandModule World)
    {call : KeyCall} (keyEvent : call.event.IsKeyEvent) :
    ∃ after, keyStep parseCommand module call = some after := by
  by_cases escape : call.event.keyPress.key = sdlkEscape
  · exact ⟨_, by rw [keyStep, handleKey_escape keyEvent escape]; rfl⟩
  · obtain ⟨command, state, world, parsed, -⟩ := leaves module.world module.state
      module.state.parsers ⟨module.state.keysDown, call.event.asKeyPress⟩
    exact ⟨_, by rw [keyStep, handleKey_other keyEvent escape, parsed]; rfl⟩

theorem keyRun_keysDown (keeps : KeepsKeys parseCommand) {module after : CommandModule World}
    {calls : List KeyCall} (keyEvents : ∀ call ∈ calls, call.event.IsKeyEvent)
    (ran : run (keyStep parseCommand) module calls = some after) :
    after.state.keysDown = ((calls.map KeyCall.event).filterMap keyOp).foldl
      (FixedSet.setStep keyEq) module.state.keysDown := by
  induction calls generalizing module with
  | nil =>
      cases ran
      rfl
  | cons call rest ih =>
      obtain ⟨middle, stepped, later⟩ := Option.bind_eq_some_iff.mp ran
      rw [ih (fun other member => keyEvents other (by simp [member])) later,
        keyStep_keysDown keeps (keyEvents call (by simp)) stepped]
      cases op : keyOp call.event <;> simp [op]

theorem keyRun_returns (leaves : LeavesKeys parseCommand) (module : CommandModule World)
    {calls : List KeyCall} (keyEvents : ∀ call ∈ calls, call.event.IsKeyEvent) :
    ∃ after, run (keyStep parseCommand) module calls = some after := by
  induction calls generalizing module with
  | nil => exact ⟨module, rfl⟩
  | cons call rest ih =>
      obtain ⟨middle, stepped⟩ := keyStep_returns leaves module (keyEvents call (by simp))
      obtain ⟨after, ran⟩ := ih middle fun other member => keyEvents other (by simp [member])
      exact ⟨after, by rw [run_cons, stepped, Option.bind_some, ran]⟩

def keysAfter (events : List OxEvent) : KeySet :=
  (events.filterMap keyOp).foldl (FixedSet.setStep keyEq) (FixedSet.zeroed polyphony 0)

theorem keysAfter_refines (events : List OxEvent) :
    FixedSet.Refines keyEq id (keysAfter events)
      ((events.filterMap keyOp).foldl (applyWithin polyphony) ∅) := by
  have refines := (FixedSet.refines_zeroed polyphony keyEq id 0).run keyEq_keyed
    (events.filterMap keyOp)
  have sameOps : SetOp.map (id : UInt32 → UInt32) = id := by
    funext op
    cases op <;> rfl
  rwa [sameOps, List.map_id] at refines

theorem keysAfter_member_iff {events : List OxEvent}
    (keyEvents : ∀ event ∈ events, event.IsKeyEvent)
    (small : ∀ front, front <+: events → (heldKeys front).card ≤ polyphony) (key : UInt32) :
    (keysAfter events).Member keyEq key ↔ Held events key := by
  have enough : ∀ front, front <+: events.filterMap keyOp →
      (front.foldl apply ∅).card ≤ polyphony := by
    intro front before
    obtain ⟨earlier, beforeEvents, rfl⟩ := List.prefix_filterMap_iff.mp before
    rw [← heldKeys_eq fun event member => keyEvents event (beforeEvents.subset member)]
    exact small earlier beforeEvents
  have refines := keysAfter_refines events
  rw [foldl_applyWithin_eq polyphony _ _ enough] at refines
  rw [← mem_heldKeys, heldKeys_eq keyEvents]
  exact refines.member key

theorem eventsAreKeys {calls : List KeyCall} (keyEvents : ∀ call ∈ calls, call.event.IsKeyEvent) :
    ∀ event ∈ calls.map KeyCall.event, event.IsKeyEvent := by
  intro event member
  obtain ⟨call, callMember, rfl⟩ := List.mem_map.mp member
  exact keyEvents call callMember

/-- No key is ever left behind that is not held, whichever keys found no room when they were
pressed, and as long as there is room for all held keys none of them is missing. -/
theorem keysDown_tracks_held (leaves : LeavesKeys parseCommand) (world : World)
    (calls : List KeyCall) (keyEvents : ∀ call ∈ calls, call.event.IsKeyEvent) :
    ∃ after, run (keyStep parseCommand) (CommandModule.zeroed world) calls = some after ∧
      let keysDown := after.state.keysDown
      let events := calls.map KeyCall.event
      keysDown.Distinct keyEq ∧ keysDown.count ≤ polyphony ∧
        (∀ key, keysDown.Member keyEq key → Held events key) ∧
        ((∀ front, front <+: events → (heldKeys front).card ≤ polyphony) →
          ∀ key, keysDown.Member keyEq key ↔ Held events key) := by
  obtain ⟨after, ran⟩ := keyRun_returns leaves (CommandModule.zeroed world) keyEvents
  have keysDown : after.state.keysDown = keysAfter (calls.map KeyCall.event) :=
    keyRun_keysDown leaves.keeps keyEvents ran
  have refines := keysAfter_refines (calls.map KeyCall.event)
  refine ⟨after, ran, ?_, FixedSet.countBound _, ?_, ?_⟩
  · rw [keysDown]
    exact refines.distinct
  · intro key member
    rw [keysDown] at member
    rw [← mem_heldKeys, heldKeys_eq (eventsAreKeys keyEvents)]
    exact foldl_applyWithin_subset polyphony _ (Finset.Subset.refl ∅)
      ((refines.member key).mp member)
  · intro small key
    rw [keysDown]
    exact keysAfter_member_iff (eventsAreKeys keyEvents) small key

end Runs

def decliningParsers : ParseCommand Unit := fun world state _ _ =>
  .ok (⟨oxCmdNone, 0, 0, ⟨0, 0, 0⟩⟩, state, world)

def keyCall (type : OxEventType) (key : UInt32) : KeyCall where
  event := ⟨type.code, 0, 0, ⟨0, key, 0, false⟩, ⟨0, 0, 0⟩⟩
  uninitialised := ⟨0, 0, 0, ⟨0, 0, 0, false⟩, ⟨0, 0, 0⟩⟩
  now := 9

theorem keysDown_tracks_held_four :
    let calls := [keyCall .keyDown 0x61, keyCall .keyDown 0x61, keyCall .keyDown sdlkEscape,
      keyCall .keyUp 0x62]
    ∃ after, run (keyStep decliningParsers) (CommandModule.zeroed ()) calls = some after ∧
      let keysDown := after.state.keysDown
      let events := calls.map KeyCall.event
      keysDown.Distinct keyEq ∧ keysDown.count ≤ polyphony ∧
        (∀ key, keysDown.Member keyEq key → Held events key) ∧
        ((∀ front, front <+: events → (heldKeys front).card ≤ polyphony) →
          ∀ key, keysDown.Member keyEq key ↔ Held events key) :=
  keysDown_tracks_held (fun world state _ _ => ⟨_, state, world, rfl, rfl⟩) () _ (by decide)

/-- The eleventh key finds no room, and stays out when another one is released. -/
example :
    let calls := (List.range 11).map fun i => keyCall .keyDown (UInt32.ofNat (0x61 + i))
    let released := calls ++ [keyCall .keyUp 0x61]
    (run (keyStep decliningParsers) (CommandModule.zeroed ()) released).map
      (fun after => (after.state.keysDown.count, after.state.keysDown.index keyEq 0x6B)) =
        some (9, none) := by decide

end YakUnshorn
