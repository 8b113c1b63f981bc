import YakUnshorn.SubscribeRuns
import YakUnshorn.ModuleLoader

/-!
`start_native_module` of `ox-kernel/module.c`, and what a module that does not start
leaves behind in the event system.
-/

namespace YakUnshorn

open CMachine

/-- A library as the dynamic linker presents it: the handle from `dlopen`, 0 when it fails, and the
symbols that `dlsym` finds. What its functions do is the subscribe calls that they make through the
api, in order, and the code that they return. That they publish meanwhile is not expressed. -/
structure NativeLibrary where
  handle : Pointer
  oxInit : Option Pointer
  start : Option Pointer
  stop : Option Pointer
  initCalls : List SubscribeCall
  initCode : Int
  startCalls : List SubscribeCall
  startCode : Int
  deriving Repr, DecidableEq

/-- The kernel around a starting module: its event system, how far `rand` has got, and the handles
that were closed. -/
structure Host where
  system : OxEventSystem
  draws : Nat
  closed : List Pointer

def drawnFrom (rand : Nat → Int) : Nat → List SubscribeCall → List Draw
  | _, [] => []
  | n, call :: rest => ⟨call, rand n⟩ :: drawnFrom rand (n + 1) rest

def Host.subscribe (rand : Nat → Int) (host : Host) (calls : List SubscribeCall) : Host :=
  { host with
    system := subscribeAll host.system (drawnFrom rand host.draws calls)
    draws := host.draws + calls.length }

def Host.dlclose (host : Host) (handle : Pointer) : Host :=
  { host with closed := host.closed ++ [handle] }

def startNativeModule (rand : Nat → Int) (unloadNativeModule : Pointer) (library : NativeLibrary)
    (libPath : Pointer) (host : Host) : Except Fault (Module × Host) :=
  if library.handle = 0 then .ok (Module.empty, host)
  else
    match library.oxInit with
    | none => .ok (Module.empty, host.dlclose library.handle)
    | some oxInit =>
        match library.start with
        | none => .ok (Module.empty, host.dlclose library.handle)
        | some start =>
            match library.stop with
            | none => .ok (Module.empty, host.dlclose library.handle)
            | some stop =>
                if oxInit = 0 then .error .nullDereference
                else
                  let host := host.subscribe rand library.initCalls
                  if library.initCode ≠ 0 then
                    .ok (Module.empty, host.dlclose library.handle)
                  else if start = 0 then .error .nullDereference
                  else
                    let host := host.subscribe rand library.startCalls
                    if library.startCode ≠ 0 then
                      .ok (Module.empty, host.dlclose library.handle)
                    else .ok (⟨libPath, stop, library.handle, unloadNativeModule⟩, host)

/-- The subscribe calls that are made before the start fails or succeeds. -/
def NativeLibrary.callsMade (library : NativeLibrary) : List SubscribeCall :=
  if library.handle = 0 ∨ library.oxInit = none ∨ library.start = none ∨ library.stop = none then []
  else if library.initCode ≠ 0 then library.initCalls
  else library.initCalls ++ library.startCalls

/-- All ids that were drawn are stored already, and the last call for a topic drew the one that
stands at its head. -/
def LeavesAlone (system : OxEventSystem) (draws : List Draw) : Prop :=
  (∀ draw ∈ draws, slotOf system draw.id ≠ none) ∧
    ∀ topic draw, (draws.filter fun draw => draw.type = topic).getLast? = some draw →
      slotOf system draw.id = system.topics topic

section Subscribing

variable {system : OxEventSystem} {draws : List Draw}

theorem subscribeAll_count (system : OxEventSystem) (draws : List Draw) :
    system.count ≤ (subscribeAll system draws).count := by
  induction draws generalizing system with
  | nil => exact Nat.le_refl _
  | cons draw rest ih => exact Nat.le_trans (subscribeDrawn_count system draw) (ih _)

theorem subscribeAll_grows (room : system.count + draws.length ≤ subMax)
    (new : ∃ draw ∈ draws, slotOf system draw.id = none) :
    system.count < (subscribeAll system draws).count := by
  induction draws generalizing system with
  | nil => simp at new
  | cons draw rest ih =>
      rw [List.length_cons] at room
      cases found : slotOf system draw.id with
      | none =>
          have free := (slotOf_none_iff system draw.id).mp found
          rw [subscribeAll_cons]
          refine Nat.lt_of_lt_of_le ?_ (subscribeAll_count _ rest)
          rw [subscribeDrawn_room free (by omega)]
          exact Nat.lt_succ_self _
      | some slot =>
          have stored := subscribeDrawn_stored found
          have same : (subscribeDrawn system draw).1.subscriptionSet = system.subscriptionSet := by
            rw [stored]
          have count : (subscribeDrawn system draw).1.count = system.count := by rw [stored]
          obtain ⟨later, member, absent⟩ := new
          rcases List.mem_cons.mp member with rfl | inRest
          · rw [found] at absent
            simp at absent
          · rw [subscribeAll_cons, ← count]
            exact ih (by omega) ⟨later, inRest, by rw [slotOf_congr same, absent]⟩

/-- Calls whose ids are all stored turn each topic to where the last of them for it points. -/
theorem subscribeAll_stored (stored : ∀ draw ∈ draws, slotOf system draw.id ≠ none) :
    (subscribeAll system draws).subscriptionSet = system.subscriptionSet ∧
      ∀ topic, (subscribeAll system draws).topics topic =
        (draws.filter fun draw => draw.type = topic).getLast?.elim (system.topics topic)
          fun draw => slotOf system draw.id := by
  induction draws using List.reverseRecOn with
  | nil => exact ⟨rfl, fun topic => rfl⟩
  | append_singleton draws draw ih =>
      obtain ⟨set, topics⟩ := ih fun earlier member => stored earlier (by simp [member])
      obtain ⟨slot, found⟩ := Option.ne_none_iff_exists'.mp (stored draw (by simp))
      have foundNow : slotOf (subscribeAll system draws) draw.id = some slot := by
        rw [slotOf_congr set, found]
      rw [subscribeAll_concat, subscribeDrawn_stored foundNow]
      refine ⟨set, fun topic => ?_⟩
      simp only [Function.update_apply]
      split
      case isTrue same => simp [same, found]
      case isFalse other => simp [Ne.symm other, topics]

theorem unchanged_subscribeAll_iff (room : system.count + draws.length ≤ subMax) :
    Unchanged system (subscribeAll system draws) ↔ LeavesAlone system draws := by
  constructor
  · intro unchanged
    have stored : ∀ draw ∈ draws, slotOf system draw.id ≠ none := by
      intro draw member absent
      have grown := subscribeAll_grows room ⟨draw, member, absent⟩
      rw [unchanged.count] at grown
      exact Nat.lt_irrefl _ grown
    refine ⟨stored, fun topic draw last => ?_⟩
    have turned := (subscribeAll_stored stored).2 topic
    rw [last, Option.elim_some, unchanged.topics] at turned
    exact turned.symm
  · rintro ⟨stored, last⟩
    obtain ⟨set, topics⟩ := subscribeAll_stored stored
    refine ⟨?_, ?_, ?_⟩
    · funext topic
      rw [topics]
      cases latest : (draws.filter fun draw => draw.type = topic).getLast? with
      | none => rfl
      | some draw => exact last topic draw latest
    · rw [OxEventSystem.count, set]
    · intro slot inUse
      rw [OxEventSystem.items, set]

end Subscribing

theorem drawnFrom_append (rand : Nat → Int) (n : Nat) (first second : List SubscribeCall) :
    drawnFrom rand n (first ++ second) =
      drawnFrom rand n first ++ drawnFrom rand (n + first.length) second := by
  induction first generalizing n with
  | nil => rfl
  | cons call rest ih =>
      simp only [List.cons_append, drawnFrom, ih, List.length_cons]
      congr 3
      omega

theorem drawnFrom_length (rand : Nat → Int) (n : Nat) (calls : List SubscribeCall) :
    (drawnFrom rand n calls).length = calls.length := by
  induction calls generalizing n with
  | nil => rfl
  | cons call rest ih => simp [drawnFrom, ih]

theorem subscribe_subscribe_system (rand : Nat → Int) (host : Host)
    (first second : List SubscribeCall) :
    ((host.subscribe rand first).subscribe rand second).system =
      subscribeAll host.system (drawnFrom rand host.draws (first ++ second)) := by
  simp only [Host.subscribe, drawnFrom_append, subscribeAll_append]

theorem startNativeModule_system {rand : Nat → Int} {unloadNativeModule libPath : Pointer}
    {library : NativeLibrary} {host after : Host} {module : Module}
    (returned : startNativeModule rand unloadNativeModule library libPath host =
      .ok (module, after)) :
    after.system = subscribeAll host.system (drawnFrom rand host.draws library.callsMade) := by
  revert returned
  fun_cases startNativeModule rand unloadNativeModule library libPath host <;>
    simp only [Except.ok.injEq, Prod.mk.injEq, reduceCtorEq, false_implies, and_imp] <;>
    rintro - rfl
  case case1 | case2 | case3 | case4 =>
    have nothing : library.callsMade = [] := by simp [NativeLibrary.callsMade, *]
    rw [nothing]
    rfl
  case case6 =>
    have onlyInit : library.callsMade = library.initCalls := by simp [NativeLibrary.callsMade, *]
    rw [onlyInit]
    rfl
  case case8 | case9 =>
    have both : library.callsMade = library.initCalls ++ library.startCalls := by
      simp_all [NativeLibrary.callsMade]
    rw [both]
    exact subscribe_subscribe_system rand host _ _

/-- A start that fails leaves the event system as it was exactly when the subscribe calls that the
module made by then changed nothing: none at all, or only such as drew ids that were taken. -/
theorem failed_start_unchanged_iff (rand : Nat → Int) (unloadNativeModule libPath : Pointer)
    (library : NativeLibrary) (host after : Host)
    (room : host.system.count + library.callsMade.length ≤ subMax)
    (failed : startNativeModule rand unloadNativeModule library libPath host =
      .ok (Module.empty, after)) :
    Unchanged host.system after.system ↔
      LeavesAlone host.system (drawnFrom rand host.draws library.callsMade) := by
  rw [startNativeModule_system failed]
  apply unchanged_subscribeAll_iff
  rwa [drawnFrom_length]

def freshHost : Host := ⟨oxiMakeEventSystem, 0, []⟩

def commandLibrary : NativeLibrary where
  handle := 0x40
  oxInit := some 0x41
  start := some 0x42
  stop := some 0x43
  initCalls := [⟨OxEventType.keyDown.topic, 0x44, 0x45⟩, ⟨OxEventType.keyUp.topic, 0x44, 0x45⟩]
  initCode := 0
  startCalls := []
  startCode := 1

theorem failed_start_unchanged_iff_subscribed :
    let after := (freshHost.subscribe (fun draw => draw + 1) commandLibrary.callsMade).dlclose
      commandLibrary.handle
    Unchanged freshHost.system after.system ↔
      LeavesAlone freshHost.system
        (drawnFrom (fun draw => draw + 1) freshHost.draws commandLibrary.callsMade) :=
  failed_start_unchanged_iff (fun draw => draw + 1) 0x50 0x60 commandLibrary freshHost _
    (by decide) rfl

theorem failed_start_leaves_callbacks :
    ∃ after, startNativeModule (fun draw => draw + 1) 0x50 commandLibrary 0x60 freshHost =
        .ok (Module.empty, after) ∧
      after.closed = [commandLibrary.handle] ∧ ¬Unchanged freshHost.system after.system := by
  refine ⟨_, rfl, rfl, fun unchanged => ?_⟩
  exact absurd unchanged.count (by decide)

end YakUnshorn
