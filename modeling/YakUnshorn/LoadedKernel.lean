import YakUnshorn.LoaderLedger
import YakUnshorn.LoopQueue

/-!
The kernel after `load_modules`. What the modules subscribed to while they were started
stays subscribed, also where the start failed and the library was closed again.
-/

namespace YakUnshorn

open CMachine LineReader StepRuns History Relation

/-- The library that a call of `start_module` asks the dynamic linker for. -/
def StartCall.library (call : StartCall) : Option NativeLibrary :=
  (call.world.fopen (oxmodPath call.modPath)).bind fun content =>
    match nativeCall content with
    | .ok (some (lib, flags)) => some (call.world.library lib flags)
    | _ => none

def StartCall.subscribed (call : StartCall) : List SubscribeCall :=
  call.library.elim [] NativeLibrary.callsMade

def LoadRun.subscribed (loaded : LoadRun) : List SubscribeCall :=
  loaded.calls.flatMap StartCall.subscribed

/-- What became of the host: these calls were made to subscribe, and nothing was opened again that
had been closed. -/
structure Host.Became (rand : Nat → Int) (before : Host) (calls : List SubscribeCall)
    (after : Host) : Prop where
  system : after.system = subscribeAll before.system (drawnFrom rand before.draws calls)
  draws : after.draws = before.draws + calls.length
  closed : before.closed <+: after.closed

section Starting

variable {rand : Nat → Int} {unloadNativeModule : Pointer} {host between after : Host}

theorem Host.Became.refl (rand : Nat → Int) (host : Host) : Host.Became rand host [] host :=
  ⟨rfl, rfl, List.prefix_refl _⟩

theorem Host.Became.trans {first second : List SubscribeCall}
    (became : Host.Became rand host first between)
    (then_ : Host.Became rand between second after) :
    Host.Became rand host (first ++ second) after where
  system := by
    rw [then_.system, became.system, became.draws, drawnFrom_append, subscribeAll_append]
  draws := by
    rw [then_.draws, became.draws, List.length_append, Nat.add_assoc]
  closed := became.closed.trans then_.closed

theorem startNativeModule_draws {libPath : Pointer} {library : NativeLibrary} {module : Module}
    (returned : startNativeModule rand unloadNativeModule library libPath host =
      .ok (module, after)) : after.draws = host.draws + library.callsMade.length := by
  revert returned
  fun_cases startNativeModule rand unloadNativeModule library libPath host <;>
    simp only [Except.ok.injEq, Prod.mk.injEq, reduceCtorEq, false_implies, and_imp] <;>
    rintro - rfl
  case case1 | case2 | case3 | case4 =>
    have nothing : library.callsMade = [] := by simp [NativeLibrary.callsMade, *]
    rw [nothing]
    rfl
  case case6 =>
    have onlyInit : library.callsMade = library.initCalls := by simp [NativeLibrary.callsMade, *]
    rw [onlyInit]
    rfl
  case case8 | case9 =>
    have both : library.callsMade = library.initCalls ++ library.startCalls := by
      simp_all [NativeLibrary.callsMade]
    rw [both, List.length_append, ← Nat.add_assoc]
    rfl

theorem startNativeModule_closed {libPath : Pointer} {library : NativeLibrary} {module : Module}
    (returned : startNativeModule rand unloadNativeModule library libPath host =
      .ok (module, after)) :
    host.closed <+: after.closed ∧
      (library.handle ≠ 0 → module = Module.empty → library.handle ∈ after.closed) := by
  revert returned
  fun_cases startNativeModule rand unloadNativeModule library libPath host <;>
    simp only [Except.ok.injEq, Prod.mk.injEq, reduceCtorEq, false_implies, and_imp] <;>
    rintro rfl rfl
  case case1 none => exact ⟨List.prefix_refl _, fun opens => absurd none opens⟩
  case case2 | case3 | case4 | case6 | case8 =>
    exact ⟨List.prefix_append _ _, fun _ _ => List.mem_append_right _ (by simp)⟩
  case case9 =>
    refine ⟨List.prefix_refl _, fun opens empty => ?_⟩
    exact absurd (congrArg Module.ctx empty) opens

theorem startNativeModule_became {libPath : Pointer} {library : NativeLibrary} {module : Module}
    (returned : startNativeModule rand unloadNativeModule library libPath host =
      .ok (module, after)) : Host.Became rand host library.callsMade after where
  system := startNativeModule_system returned
  draws := startNativeModule_draws returned
  closed := (startNativeModule_closed returned).1

/-- What a call of `start_module` left behind it. -/
structure StartCall.Left (rand : Nat → Int) (before after : Host) (call : StartCall) : Prop where
  became : Host.Became rand before call.subscribed after
  closed : call.module = Module.empty → ∀ library, call.library = some library →
    library.handle ≠ 0 → library.handle ∈ after.closed

/-- A call of `start_module` leaves the host alone, or comes to `start_native_module`. -/
theorem startModuleIn_cases {world : LoaderWorld} {modPath : List Char} {module : Module}
    {uses : List (ResourceLedger.Use Resource)}
    (returned : startModuleIn rand unloadNativeModule world modPath host =
      .ok (module, after, uses)) :
    let library := (StartCall.mk world modPath module uses).library
    (library = none ∧ after = host) ∨ ∃ asked libPath, library = some asked ∧
      startNativeModule rand unloadNativeModule asked libPath host = .ok (module, after) := by
  intro library
  cases opened : world.fopen (oxmodPath modPath) with
  | none =>
      simp only [startModuleIn, opened] at returned
      cases returned
      exact .inl ⟨by simp [library, StartCall.library, opened], rfl⟩
  | some content =>
      simp only [startModuleIn, opened] at returned
      cases settings : oxmodSettings content with
      | error fault => simp [settings] at returned
      | ok result =>
          obtain ⟨⟨runtime, lib⟩, flags⟩ := result
          have asks {called : Option (List Char × Nat)}
              (same : nativeCall content = .ok called) :
              library = called.map fun call => world.library call.1 call.2 := by
            simp only [library, StartCall.library, opened, Option.bind_some, same]
            cases called <;> rfl
          have call : nativeCall content = .ok (if (OxmodConfig.mk runtime lib).Native then
              lib.map fun lib => (lib, flags) else none) := by
            rw [nativeCall, settings]
          simp only [settings] at returned
          by_cases native : (OxmodConfig.mk runtime lib).Native
          · rw [if_pos native] at call
            obtain ⟨isNative, known⟩ := native
            obtain ⟨path, isLib⟩ := Option.isSome_iff_exists.mp known
            simp only at isNative isLib
            subst isNative isLib
            simp only [↓reduceIte] at returned
            split at returned
            case h_1 => cases returned
            case h_2 started =>
              cases returned
              exact .inr ⟨_, _, asks call, started⟩
          · rw [if_neg native] at call
            have left : after = host := by
              cases runtime with
              | none =>
                  cases returned
                  rfl
              | some word =>
                  cases lib with
                  | none =>
                      cases returned
                      rfl
                  | some path =>
                      have foreign : word ≠ nativeRuntime :=
                        fun same => native ⟨congrArg some same, rfl⟩
                      simp only [if_neg foreign] at returned
                      cases returned
                      rfl
            exact .inl ⟨asks call, left⟩

theorem startModuleIn_left {world : LoaderWorld} {modPath : List Char} {module : Module}
    {uses : List (ResourceLedger.Use Resource)}
    (returned : startModuleIn rand unloadNativeModule world modPath host =
      .ok (module, after, uses)) :
    StartCall.Left rand host after ⟨world, modPath, module, uses⟩ := by
  rcases startModuleIn_cases returned with ⟨none, rfl⟩ | ⟨library, libPath, asked, started⟩
  · refine ⟨?_, fun _ library asked => by simp [none] at asked⟩
    rw [StartCall.subscribed, none]
    exact .refl rand _
  · refine ⟨?_, fun empty other same opens => ?_⟩
    · rw [StartCall.subscribed, asked]
      exact startNativeModule_became started
    · cases asked.symm.trans same
      exact (startNativeModule_closed started).2 opens empty

theorem loadLoopIn_left {worlds : Nat → LoaderWorld} {fuel i : Nat} {content : List Char}
    {before after : LoadRun}
    (ran : loadLoopIn rand unloadNativeModule worlds fuel i content before = .ok after) :
    ∃ calls, after.calls = before.calls ++ calls ∧
      Host.Became rand before.host (calls.flatMap StartCall.subscribed) after.host ∧
      ∀ call ∈ calls, call.module = Module.empty → ∀ library, call.library = some library →
        library.handle ≠ 0 → library.handle ∈ after.host.closed := by
  induction fuel generalizing i content before with
  | zero =>
      cases ran
      exact ⟨[], by simp, .refl rand _, by simp⟩
  | succ fuel ih =>
      rcases loadLoopIn_cases ran with ⟨rfl, -⟩ | ⟨line, rest, -, -, ⟨-, later⟩ |
        ⟨module, host, uses, -, started, later⟩⟩
      · exact ⟨[], by simp, .refl rand _, by simp⟩
      · exact ih later
      · have left := startModuleIn_left started
        obtain ⟨calls, all, became, closed⟩ := ih later
        refine ⟨_ :: calls, ?_, left.became.trans became, ?_⟩
        · rw [all, LoadRun.store, List.append_assoc]
          rfl
        · refine List.forall_mem_cons.mpr ⟨fun failed library asked opens => ?_, closed⟩
          exact became.closed.subset (left.closed failed library asked opens)

theorem loadModulesIn_left {worlds : Nat → LoaderWorld} {loadList : Option (List Char)}
    {host : Host} {loaded : LoadRun} {uses : List (ResourceLedger.Use Resource)}
    (returned : loadModulesIn rand unloadNativeModule worlds loadList host =
      .ok (some loaded, uses)) :
    Host.Became rand host loaded.subscribed loaded.host ∧
      ∀ call ∈ loaded.calls, call.module = Module.empty → ∀ library,
        call.library = some library → library.handle ≠ 0 →
          library.handle ∈ loaded.host.closed := by
  cases loadList with
  | none => cases returned
  | some content =>
      simp only [loadModulesIn] at returned
      split at returned
      case h_1 => cases returned
      case h_2 after ran =>
        cases returned
        obtain ⟨calls, all, became, closed⟩ := loadLoopIn_left ran
        rw [List.nil_append] at all
        rw [LoadRun.subscribed, all]
        exact ⟨became, closed⟩

end Starting

section Handing

variable {Sdl World : Type} {platform : Platform Sdl World} {unloadNativeModule : Pointer}
  {worlds : Nat → LoaderWorld} {loadList : Option (List Char)} {loaded : LoadRun}
  {uses : List (ResourceLedger.Use Resource)}

/-- The kernel as `load_modules` hands it on to the rest of `main`. -/
def LoadRun.ox (loaded : LoadRun) (platform : Platform Sdl World) (sdl : Sdl) (renderer : Pointer)
    (world : World) : Ox Sdl World :=
  { Ox.fresh sdl renderer world with
    eventSystem := loaded.host.system
    draws := loaded.host.draws
    trace := (drawnFrom platform.rand 0 loaded.subscribed).map .subscribed }

theorem apis_subscribe (ox : Ox Sdl World) (calls : List SubscribeCall) :
    runUntil (Ox.api platform) ox (calls.map .subscribe) =
      ({ ox with
          eventSystem := subscribeAll ox.eventSystem (drawnFrom platform.rand ox.draws calls)
          draws := ox.draws + calls.length
          trace :=
            ox.trace ++ (drawnFrom platform.rand ox.draws calls).map .subscribed }, none) := by
  induction calls generalizing ox with
  | nil => simp [runUntil, drawnFrom]
  | cons call rest ih =>
      have made : ox.api platform (.subscribe call) = (ox.subscribe platform call, none) := rfl
      rw [List.map_cons, runUntil_cons_none _ made, ih]
      simp [Ox.subscribe, Ox.note, drawnFrom, Nat.add_assoc, Nat.add_comm 1]

theorem loaded_kernel (sdl : Sdl) (renderer : Pointer) (world : World) (waits rounds : Nat)
    (returned : loadModulesIn platform.rand unloadNativeModule worlds loadList freshHost =
      .ok (some loaded, uses)) :
    (loaded.ox platform sdl renderer world).kernel platform [] waits rounds =
      platform.run sdl renderer world (loaded.subscribed.map .subscribe) waits rounds := by
  have became := (loadModulesIn_left returned).1
  have same : runUntil (Ox.api platform) (Ox.fresh sdl renderer world)
      (loaded.subscribed.map .subscribe) = (loaded.ox platform sdl renderer world, none) := by
    rw [apis_subscribe, LoadRun.ox, became.system, became.draws]
    rfl
  rw [Platform.run, Ox.kernel, Ox.kernel, same]
  rfl

/-- For every load list and whatever the modules subscribe while they are started, which is all that
they ask of the kernel by then: `main` goes on as if all their subscribe calls had come from one
module, in the same order. Those of modules that failed are among them, though the libraries of
these are closed. -/
theorem load_subscribes (platform : Platform Sdl World) (sdl : Sdl) (renderer : Pointer)
    (world : World) (waits rounds : Nat)
    (returned : loadModulesIn platform.rand unloadNativeModule worlds loadList freshHost =
      .ok (some loaded, uses)) :
    (loaded.ox platform sdl renderer world).kernel platform [] waits rounds =
        platform.run sdl renderer world (loaded.subscribed.map .subscribe) waits rounds ∧
      ∀ call ∈ loaded.calls, call.module = Module.empty → ∀ library,
        call.library = some library → library.handle ≠ 0 →
          library.handle ∈ loaded.host.closed :=
  ⟨loaded_kernel sdl renderer world waits rounds returned, (loadModulesIn_left returned).2⟩

def failingWorld : LoaderWorld where
  fopen := (worldOf "runtime native\nlib x\n".toList).fopen
  strdup := (worldOf []).strdup
  library _ _ := commandLibrary

def failingCall : StartCall where
  world := failingWorld
  modPath := ['m']
  module := Module.empty
  uses := [.acquire .stream, .acquire (.string 0), .acquire (.string 1), .release (.string 0),
    .acquire (.handle 0x40), .release (.handle 0x40), .release (.string 1)]

def failingLoad : LoadRun where
  mods := List.replicate maxMods Module.empty
  modsCount := 1
  host := (freshHost.subscribe idlePlatform.rand commandLibrary.initCalls).dlclose 0x40
  calls := [failingCall]

theorem failingLoad_returned :
    loadModulesIn idlePlatform.rand 0x50 (fun _ => failingWorld) (some ['m', '\n']) freshHost =
      .ok (some failingLoad, [.acquire .stream]) := rfl

theorem load_subscribes_failed :
    (failingLoad.ox idlePlatform (0, []) 0x90 ()).kernel idlePlatform [] 4 4 =
        idlePlatform.run (0, []) 0x90 () (failingLoad.subscribed.map .subscribe) 4 4 ∧
      ∀ call ∈ failingLoad.calls, call.module = Module.empty → ∀ library,
        call.library = some library → library.handle ≠ 0 →
          library.handle ∈ failingLoad.host.closed :=
  load_subscribes idlePlatform (0, []) 0x90 () 4 4 failingLoad_returned

end Handing

end YakUnshorn
