import YakUnshorn.CommandLoop
import YakUnshorn.LoadedKernel
import YakUnshorn.ModuleLifecycle

/-!
`main` of `ox-kernel/ox.c` as a whole: what it makes, loads and runs, where it gives up,
and in which order it takes everything down again.
-/

namespace YakUnshorn

open CMachine

/-- What `main` has to give back itself. -/
inductive Possession
  | eventSystem
  | display
  | sdl
  | modules
  deriving Repr, DecidableEq

inductive MainCall
  | makes (possession : Possession)
  | destroys (possession : Possession)
  | module (call : ModuleCall)
  deriving Repr, DecidableEq

inductive Exit
  | returned (code : Int)
  | crashed (fault : Fault)
  | interrupted (stop : Interruption)
  deriving Repr, DecidableEq

/-- What `main` finds when it starts: what SDL gives it, with 0 for `NULL`, the load list and what
`start_module` finds, the data of the modules once they are loaded, and what the calls into them
return in the end. -/
structure Startup (Sdl World : Type) where
  window : Pointer
  renderer : Pointer
  initialised : Bool
  loadList : Option (List Char)
  worlds : Nat → LoaderWorld
  unloadNativeModule : Pointer
  sdl : Sdl
  world : World
  answer : Nat → Int

def makeDisplay (window renderer : Pointer) : Option OxDisplay × List MainCall :=
  if window = 0 then (none, [.destroys .sdl])
  else if renderer = 0 then (none, [.destroys .sdl])
  else (some (oxiMakeDisplay renderer), [.makes .display])

def setupOx (initialised : Bool) : Bool × List MainCall :=
  if initialised then (true, [.makes .sdl]) else (false, [.destroys .sdl])

section Running

variable {Sdl World : Type} (platform : Platform Sdl World) (startup : Startup Sdl World)

def Startup.load : Except Fault (Option LoadRun × List (ResourceLedger.Use Resource)) :=
  loadModulesIn platform.rand startup.unloadNativeModule startup.worlds startup.loadList freshHost

def takeDown (loaded : LoadRun) (calls : List MainCall) : Exit × List MainCall :=
  let calls := calls ++ [.destroys .eventSystem, .destroys .display, .destroys .sdl]
  match unloadModules startup.answer loaded.loaded.freed loaded.mods loaded.modsCount with
  | .error fault => (.crashed fault, calls)
  | .ok (trace, code) =>
      (.returned code, calls ++ trace.map (fun call => .module call.1) ++ [.destroys .modules])

def oxMain (waits rounds : Nat) : Exit × List MainCall :=
  let (display, made) := makeDisplay startup.window startup.renderer
  let (ok, setUp) := setupOx startup.initialised
  let calls := .makes .eventSystem :: made ++ setUp
  if ¬ok then (.returned 1, calls)
  else
    match startup.load platform with
    | .error fault => (.crashed fault, calls)
    | .ok (none, _) => (.returned (-1), calls)
    | .ok (some loaded, _) =>
        let calls := calls ++ [.makes .modules]
        match display with
        -- `ox_register_render_cb` looks for a free slot in it
        | none => (.crashed .nullDereference, calls)
        | some display =>
            let ox := loaded.ox platform startup.sdl startup.renderer startup.world
            match { ox with display }.kernel platform [] waits rounds with
            | (_, some stop) => (.interrupted stop, calls)
            | (_, none) => takeDown startup loaded calls

end Running

section Unloading

variable {answer : Nat → Int} {freed : List Pointer} {modules : List Module} {count : Nat}

theorem unloadModules_ok (within : count ≤ modules.length)
    (gone : ∀ module ∈ modules, module.PathGone freed) {result : CallTrace × Int}
    (unloaded : unloadModules answer freed modules count = .ok result) :
    (∀ module ∈ modules.take count, module.Started) ∧ ∀ n < 2 * count, answer n = 0 := by
  have length : (modules.take count).length = count := by
    rw [List.length_take, Nat.min_eq_left within]
  have looped : unloadLoop answer freed ([] ++ modules.take count ++ modules.drop count)
      (modules.take count).length ([] : List Module).length ([], 0) = .ok result := by
    rw [List.nil_append, List.take_append_drop, length]
    exact unloaded
  obtain ⟨started, answers⟩ := unloadLoop_ok []
    (fun module member => gone module (List.mem_of_mem_take member)) looped
  rw [length] at answers
  exact ⟨started, fun n bound => by simpa using answers n bound⟩

theorem unloadModules_quiet (freed : List Pointer) (within : count ≤ modules.length)
    (started : ∀ module ∈ modules.take count, module.Started)
    (answers : ∀ n < 2 * count, answer n = 0) :
    unloadModules answer freed modules count =
      .ok ((modules.take count).flatMap Module.quietCalls, 0) := by
  have length : (modules.take count).length = count := by
    rw [List.length_take, Nat.min_eq_left within]
  have looped := unloadLoop_quiet freed [] (modules.drop count) [] 0 started fun n bound =>
    answers (0 + n) (by rwa [Nat.zero_add, ← length])
  rwa [List.nil_append, List.take_append_drop, length] at looped

end Unloading

section Loading

variable {rand : Nat → Int} {unloadNativeModule : Pointer} {worlds : Nat → LoaderWorld}

theorem loadModulesIn_array {loadList : Option (List Char)} {host : Host} {loaded : LoadRun}
    {uses : List (ResourceLedger.Use Resource)}
    (returned : loadModulesIn rand unloadNativeModule worlds loadList host =
      .ok (some loaded, uses)) :
    loaded.modsCount ≤ loaded.mods.length ∧
      ∀ module ∈ loaded.mods, module.PathGone loaded.loaded.freed := by
  cases loadList with
  | none => cases returned
  | some content =>
      have same := loadModulesIn_loaded returned
      obtain ⟨plain, loads, loadedFrom⟩ := loadModules_eq
        (fun n _ => (loaded.calls.map StartCall.module).getD n Module.empty) content
      obtain rfl : plain = loaded.loaded := Option.some.inj (loads.symm.trans same)
      have mods : loaded.mods = _ := loadedFrom.mods
      have count : loaded.modsCount = _ := loadedFrom.modsCount
      have fewer : (loadLines content).length ≤ maxMods :=
        LineReader.length_readLines_le _ _ _
      have upTo : (upToPaths (loadLines content)).length ≤ (loadLines content).length :=
        (List.rdropWhile_prefix _ _).length_le
      refine ⟨?_, loadedFrom.pathGone⟩
      rw [mods, count, List.length_append, length_slots, List.length_replicate]
      omega

end Loading

section Ending

variable {Sdl World : Type}

structure Succeeds (platform : Platform Sdl World) (startup : Startup Sdl World)
    (waits rounds : Nat) (loaded : LoadRun) : Prop where
  window : startup.window ≠ 0
  renderer : startup.renderer ≠ 0
  initialised : startup.initialised = true
  loads : ∃ uses, startup.load platform = .ok (some loaded, uses)
  leaves : ((loaded.ox platform startup.sdl startup.renderer startup.world).kernel platform []
    waits rounds).2 = none
  started : ∀ module ∈ loaded.mods.take loaded.modsCount, module.Started
  answered : ∀ n < 2 * loaded.modsCount, startup.answer n = 0

def wholeMain (loaded : LoadRun) : List MainCall :=
  [.makes .eventSystem, .makes .display, .makes .sdl, .makes .modules,
      .destroys .eventSystem, .destroys .display, .destroys .sdl] ++
    ((loaded.mods.take loaded.modsCount).flatMap Module.shutdownCalls).map .module ++
      [.destroys .modules]

theorem takeDown_quiet {platform : Platform Sdl World} {startup : Startup Sdl World}
    {loaded : LoadRun} {uses : List (ResourceLedger.Use Resource)}
    (loads : startup.load platform = .ok (some loaded, uses)) (calls : List MainCall)
    (started : ∀ module ∈ loaded.mods.take loaded.modsCount, module.Started)
    (answered : ∀ n < 2 * loaded.modsCount, startup.answer n = 0) :
    takeDown startup loaded calls = (.returned 0,
      calls ++ [.destroys .eventSystem, .destroys .display, .destroys .sdl] ++
        ((loaded.mods.take loaded.modsCount).flatMap Module.shutdownCalls).map .module ++
          [.destroys .modules]) := by
  simp only [takeDown, unloadModules_quiet _ (loadModulesIn_array loads).1 started answered]
  rw [← quietCalls_fst, List.map_map]
  rfl

theorem takeDown_crashes {platform : Platform Sdl World} {startup : Startup Sdl World}
    {loaded : LoadRun} {uses : List (ResourceLedger.Use Resource)}
    (loads : startup.load platform = .ok (some loaded, uses)) (calls : List MainCall)
    (fails : ¬((∀ module ∈ loaded.mods.take loaded.modsCount, module.Started) ∧
      ∀ n < 2 * loaded.modsCount, startup.answer n = 0)) :
    ∃ fault, (takeDown startup loaded calls).1 = .crashed fault := by
  obtain ⟨within, gone⟩ := loadModulesIn_array loads
  cases unloaded :
    unloadModules startup.answer loaded.loaded.freed loaded.mods loaded.modsCount with
  | ok result => exact absurd (unloadModules_ok within gone unloaded) fails
  | error fault => exact ⟨fault, by simp only [takeDown, unloaded]⟩

theorem oxMain_loop {platform : Platform Sdl World} {startup : Startup Sdl World}
    {waits rounds : Nat} {loaded : LoadRun} {uses : List (ResourceLedger.Use Resource)}
    (window : startup.window ≠ 0) (renderer : startup.renderer ≠ 0)
    (initialised : startup.initialised = true)
    (loads : startup.load platform = .ok (some loaded, uses)) :
    let calls := [.makes .eventSystem, .makes .display, .makes .sdl, .makes .modules]
    oxMain platform startup waits rounds =
      match (loaded.ox platform startup.sdl startup.renderer startup.world).kernel platform []
        waits rounds with
      | (_, some stop) => (.interrupted stop, calls)
      | (_, none) => takeDown startup loaded calls := by
  simp only [oxMain, makeDisplay, setupOx, window, renderer, initialised, loads, ↓reduceIte]
  rfl

theorem oxMain_ends {platform : Platform Sdl World} {startup : Startup Sdl World}
    {loaded : LoadRun} {uses : List (ResourceLedger.Use Resource)}
    (window : startup.window ≠ 0) (renderer : startup.renderer ≠ 0)
    (initialised : startup.initialised = true)
    (loads : startup.load platform = .ok (some loaded, uses)) (waits rounds : Nat) :
    let run := oxMain platform startup waits rounds
    (run.1 = .returned 0 ↔ Succeeds platform startup waits rounds loaded) ∧
      (run.1 = .returned 0 → run.2 = wholeMain loaded) := by
  intro run
  have looped : run = _ := oxMain_loop window renderer initialised loads
  let ox := loaded.ox platform startup.sdl startup.renderer startup.world
  rcases left : ox.kernel platform [] waits rounds with ⟨after, stop⟩
  rw [left] at looped
  cases stop with
  | some stop =>
      rw [looped]
      refine ⟨iff_of_false (by simp) fun succeeds => ?_, by simp⟩
      have leaves : (ox.kernel platform [] waits rounds).2 = none := succeeds.leaves
      simp [left] at leaves
  | none =>
      rw [looped]
      by_cases well : (∀ module ∈ loaded.mods.take loaded.modsCount, module.Started) ∧
          ∀ n < 2 * loaded.modsCount, startup.answer n = 0
      · rw [takeDown_quiet loads _ well.1 well.2]
        exact ⟨iff_of_true rfl ⟨window, renderer, initialised, ⟨uses, loads⟩,
          congrArg Prod.snd left, well.1, well.2⟩, fun _ => rfl⟩
      · obtain ⟨fault, crashed⟩ := takeDown_crashes loads
          [.makes .eventSystem, .makes .display, .makes .sdl, .makes .modules] well
        rw [crashed]
        exact ⟨iff_of_false (by simp) fun succeeds => well ⟨succeeds.started, succeeds.answered⟩,
          by simp⟩

theorem oxMain_zero {platform : Platform Sdl World} {startup : Startup Sdl World}
    {waits rounds : Nat} (zero : (oxMain platform startup waits rounds).1 = .returned 0) :
    startup.window ≠ 0 ∧ startup.renderer ≠ 0 ∧ startup.initialised = true ∧
      ∃ loaded uses, startup.load platform = .ok (some loaded, uses) := by
  cases initialised : startup.initialised with
  | false => simp [oxMain, setupOx, initialised] at zero
  | true =>
      cases load : startup.load platform with
      | error fault => simp [oxMain, setupOx, initialised, load] at zero
      | ok result =>
          obtain ⟨_ | loaded, uses⟩ := result
          · simp [oxMain, setupOx, initialised, load] at zero
          · by_cases window : startup.window = 0
            · simp [oxMain, setupOx, makeDisplay, initialised, load, window] at zero
            · by_cases renderer : startup.renderer = 0
              · simp [oxMain, setupOx, makeDisplay, initialised, load, window, renderer] at zero
              · exact ⟨window, renderer, rfl, loaded, uses, rfl⟩

/-- `main` returns 0 exactly when SDL gave it a window, a renderer and its subsystems, the load list
was found, the loop was left, all that was loaded had started, and each module was stopped and
unloaded without complaint. It has then given everything back, the event system before it stopped
the modules. -/
theorem main_succeeds_iff (platform : Platform Sdl World) (startup : Startup Sdl World)
    (waits rounds : Nat) :
    let run := oxMain platform startup waits rounds
    (run.1 = .returned 0 ↔ ∃ loaded, Succeeds platform startup waits rounds loaded) ∧
      ∀ loaded, Succeeds platform startup waits rounds loaded → run.2 = wholeMain loaded := by
  intro run
  refine ⟨⟨fun zero => ?_, fun ⟨loaded, succeeds⟩ => ?_⟩, fun loaded succeeds => ?_⟩
  · obtain ⟨window, renderer, initialised, loaded, uses, loads⟩ := oxMain_zero zero
    exact ⟨loaded, (oxMain_ends window renderer initialised loads waits rounds).1.mp zero⟩
  · obtain ⟨uses, loads⟩ := succeeds.loads
    exact (oxMain_ends succeeds.window succeeds.renderer succeeds.initialised loads waits
      rounds).1.mpr succeeds
  · obtain ⟨uses, loads⟩ := succeeds.loads
    have ends := oxMain_ends succeeds.window succeeds.renderer succeeds.initialised loads waits
      rounds
    exact ends.2 (ends.1.mpr succeeds)

end Ending

def oneModule : Startup SdlQueue Unit where
  window := 0x91
  renderer := 0x90
  initialised := true
  loadList := some ['m', '\n']
  worlds _ := worldOf "runtime native\nlib x\n".toList
  unloadNativeModule := 0x50
  sdl := (0, [{ sdlZero with type := sdlEventQuit }])
  world := ()
  answer _ := 0

theorem main_succeeds_iff_one :
    let run := oxMain idlePlatform oneModule 2 2
    (run.1 = .returned 0 ↔ ∃ loaded, Succeeds idlePlatform oneModule 2 2 loaded) ∧
      ∀ loaded, Succeeds idlePlatform oneModule 2 2 loaded → run.2 = wholeMain loaded :=
  main_succeeds_iff idlePlatform oneModule 2 2

example : oxMain idlePlatform oneModule 2 2 =
    (.returned 0, [.makes .eventSystem, .makes .display, .makes .sdl, .makes .modules,
      .destroys .eventSystem, .destroys .display, .destroys .sdl, .module (.stop 0x43),
      .module (.unload 0x50 0x40), .destroys .modules]) := by decide

section Exiting

variable {Sdl Parsers : Type} {queue : Sdl → List SdlEvent} {nextId : Sdl → Nat}

end Exiting

end YakUnshorn
