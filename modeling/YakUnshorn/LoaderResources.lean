import YakUnshorn.Lib.ResourceLedger
import YakUnshorn.NativeModule
import YakUnshorn.OxmodGrammar

/-!
`start_module` and `load_modules` of `ox-kernel/module.c` with everything that they
open, duplicate, close and free.
-/

namespace YakUnshorn

open CMachine LineReader ResourceLedger

/-- What one function acquires: a stream, library handles, and strings that are numbered in the
order in which `strdup` makes them. -/
inductive Resource
  | stream
  | handle (handle : Pointer)
  | string (index : Nat)
  deriving Repr, DecidableEq

/-- The strings that `runtime` and `lib` point to, and how many there are by then. -/
structure Strings where
  runtime : Option Nat
  lib : Option Nat
  count : Nat
  deriving Repr, DecidableEq

/-- A line of the first loop of `start_module`. A key that is given again leaves the string that it
pointed to before. -/
def Strings.scan (strings : Strings) (line : List Char) : Strings :=
  if isSkipped line then strings
  else
    let strings :=
      if (scanValue .runtime line).isSome then
        { strings with runtime := some strings.count, count := strings.count + 1 }
      else strings
    if (scanValue .lib line).isSome then
      { strings with lib := some strings.count, count := strings.count + 1 }
    else strings

def duplicated (lines : List (List Char)) : Strings := lines.foldl Strings.scan ⟨none, none, 0⟩

def Strings.acquired (strings : Strings) : List (Use Resource) :=
  (List.range strings.count).map fun index => .acquire (.string index)

@[simp] theorem count_release_acquired (strings : Strings) (resource : Resource) :
    strings.acquired.count (.release resource) = 0 :=
  count_release_acquires _ _ resource

@[simp] theorem mem_acquired (strings : Strings) (resource : Resource) :
    Use.acquire resource ∈ strings.acquired ↔
      ∃ index < strings.count, .string index = resource := by
  simp [Strings.acquired]

@[simp] theorem release_notMem_acquired (strings : Strings) (resource : Resource) :
    Use.release resource ∉ strings.acquired := by
  simp [Strings.acquired]

def free : Option Nat → List (Use Resource)
  | none => []
  | some index => [.release (.string index)]

@[simp] theorem count_string_free (pointer : Option Nat) (index : Nat) :
    (free pointer).count (.release (.string index)) = if pointer = some index then 1 else 0 := by
  cases pointer with
  | none => rfl
  | some other => simp [free, List.count_singleton]

@[simp] theorem release_handle_notMem_free (pointer : Option Nat) (handle : Pointer) :
    Use.release (.handle handle) ∉ free pointer := by
  cases pointer <;> simp [free]

@[simp] theorem count_handle_free (pointer : Option Nat) (handle : Pointer) :
    (free pointer).count (.release (.handle handle)) = 0 :=
  List.count_eq_zero.mpr (release_handle_notMem_free pointer handle)

@[simp] theorem acquire_notMem_free (pointer : Option Nat) (resource : Resource) :
    Use.acquire resource ∉ free pointer := by
  cases pointer <;> simp [free]

/-- `dlopen`, and the calls of `dlclose` between the two states. -/
def handleUses (library : NativeLibrary) (before after : Host) : List (Use Resource) :=
  if library.handle = 0 then []
  else
    .acquire (.handle library.handle) ::
      (after.closed.drop before.closed.length).map fun handle => .release (.handle handle)

/-- What a call of `start_module` finds: the files, the addresses of the strings that it
duplicates, and the libraries. -/
structure LoaderWorld where
  fopen : List Char → Option (List Char)
  strdup : Nat → Pointer
  library : List Char → Nat → NativeLibrary

def oxmodPath (modPath : List Char) : List Char := modPath ++ "/oxmod".toList

section Starting

variable (rand : Nat → Int) (unloadNativeModule : Pointer)

def startModuleIn (world : LoaderWorld) (modPath : List Char) (host : Host) :
    Except Fault (Module × Host × List (Use Resource)) :=
  match world.fopen (oxmodPath modPath) with
  | none => .ok (Module.empty, host, [])
  | some content =>
      match oxmodSettings content with
      | .error fault => .error fault
      | .ok (config, flags) =>
          let strings := duplicated (readOxmod content).configLines
          let uses := .acquire .stream :: strings.acquired
          match config.runtime, config.lib with
          | some runtime, some lib =>
              if runtime = nativeRuntime then
                let uses := uses ++ free strings.runtime
                let library := world.library lib flags
                let libPath := strings.lib.elim 0 world.strdup
                match startNativeModule rand unloadNativeModule library libPath host with
                | .error fault => .error fault
                | .ok (module, after) =>
                    let uses := uses ++ handleUses library host after
                    .ok (module, after, uses ++ free strings.lib)
              else
                let uses := uses ++ [.release .stream]
                .ok (Module.empty, host, uses ++ free strings.runtime ++ free strings.lib)
          | _, _ => .ok (Module.empty, host, uses ++ free strings.runtime ++ free strings.lib)

structure StartCall where
  world : LoaderWorld
  modPath : List Char
  module : Module
  uses : List (Use Resource)

structure LoadRun where
  mods : List Module
  modsCount : Nat
  host : Host
  calls : List StartCall

def LoadRun.store (i : Nat) (call : StartCall) (host : Host) (loaded : LoadRun) : LoadRun where
  mods := loaded.mods.set i call.module
  modsCount := i + 1
  host := host
  calls := loaded.calls ++ [call]

/-- The loop of `load_modules`, where `worlds` gives what the n-th call of `start_module` finds. -/
def loadLoopIn (worlds : Nat → LoaderWorld) :
    Nat → Nat → List Char → LoadRun → Except Fault LoadRun
  | 0, _, _, loaded => .ok loaded
  | fuel + 1, i, content, loaded =>
      match fgets maxLine content with
      | none => .ok loaded
      | some (line, rest) =>
          if i < maxMods then
            if isPathLine line then
              let found := worlds loaded.calls.length
              let path := cutLine line
              match startModuleIn rand unloadNativeModule found path loaded.host with
              | .error fault => .error fault
              | .ok (module, host, uses) =>
                  loadLoopIn worlds fuel (i + 1) rest
                    (loaded.store i ⟨found, path, module, uses⟩ host)
            else loadLoopIn worlds fuel (i + 1) rest loaded
          else .ok loaded

def loadModulesIn (worlds : Nat → LoaderWorld) (loadList : Option (List Char)) (host : Host) :
    Except Fault (Option LoadRun × List (Use Resource)) :=
  match loadList with
  | none => .ok (none, [])
  | some content =>
      match loadLoopIn rand unloadNativeModule worlds (maxMods + 1) 0 content
        ⟨List.replicate maxMods Module.empty, 0, host, []⟩ with
      | .error fault => .error fault
      | .ok loaded => .ok (some loaded, [.acquire .stream])

end Starting

section Loading

variable {rand : Nat → Int} {unloadNativeModule : Pointer} {worlds : Nat → LoaderWorld}

theorem loadLoopIn_cases {fuel i : Nat} {content : List Char} {before after : LoadRun}
    (ran : loadLoopIn rand unloadNativeModule worlds (fuel + 1) i content before = .ok after) :
    (after = before ∧ ∀ line rest, fgets maxLine content = some (line, rest) → ¬i < maxMods) ∨
      ∃ line rest, fgets maxLine content = some (line, rest) ∧ i < maxMods ∧
        ((isPathLine line = false ∧
            loadLoopIn rand unloadNativeModule worlds fuel (i + 1) rest before = .ok after) ∨
          ∃ module host uses, isPathLine line = true ∧
            startModuleIn rand unloadNativeModule (worlds before.calls.length) (cutLine line)
              before.host = .ok (module, host, uses) ∧
            loadLoopIn rand unloadNativeModule worlds fuel (i + 1) rest
              (before.store i ⟨worlds before.calls.length, cutLine line, module, uses⟩ host) =
                .ok after) := by
  rw [loadLoopIn] at ran
  split at ran
  case h_1 none =>
    cases ran
    exact .inl ⟨rfl, by simp [none]⟩
  case h_2 line rest read =>
    split at ran
    case isFalse full =>
      cases ran
      exact .inl ⟨rfl, fun _ _ _ => full⟩
    case isTrue room =>
      refine .inr ⟨line, rest, read, room, ?_⟩
      split at ran
      case isFalse other => exact .inl ⟨by simpa using other, ran⟩
      case isTrue path =>
        dsimp only at ran
        split at ran
        case h_1 => cases ran
        case h_2 module host uses started => exact .inr ⟨module, host, uses, path, started, ran⟩

def LoadRun.loaded (run : LoadRun) : Loaded where
  mods := run.mods
  modsCount := run.modsCount
  starts := run.calls.map fun call => (call.modPath, call.module)

theorem loadLoopIn_prefix {fuel i : Nat} {content : List Char} {before after : LoadRun}
    (ran : loadLoopIn rand unloadNativeModule worlds fuel i content before = .ok after) :
    before.calls <+: after.calls := by
  induction fuel generalizing i content before with
  | zero =>
      cases ran
      exact List.prefix_refl _
  | succ fuel ih =>
      rcases loadLoopIn_cases ran with ⟨rfl, -⟩ | ⟨line, rest, -, -, ⟨-, later⟩ |
        ⟨module, host, uses, -, -, later⟩⟩
      · exact List.prefix_refl _
      · exact ih later
      · exact (List.prefix_append _ _).trans (ih later)

theorem loadLoopIn_loaded {startModule : StartModule} {fuel i : Nat} {content : List Char}
    {before after : LoadRun}
    (ran : loadLoopIn rand unloadNativeModule worlds fuel i content before = .ok after)
    (agrees : ∀ n (inside : n < after.calls.length),
      startModule n (after.calls[n]).modPath = (after.calls[n]).module) :
    loadLoop startModule fuel i content before.loaded = after.loaded := by
  induction fuel generalizing i content before with
  | zero =>
      cases ran
      rfl
  | succ fuel ih =>
      rw [loadLoop]
      rcases loadLoopIn_cases ran with ⟨rfl, full⟩ | ⟨line, rest, read, room, ⟨other, later⟩ |
        ⟨module, host, uses, path, started, later⟩⟩
      · split
        case h_1 => rfl
        case h_2 line rest read => rw [if_neg (full line rest read)]
      · simp only [read, room, ↓reduceIte, loadLine, other, Bool.false_eq_true]
        exact ih later
      · -- the call that is made here is the one that the whole run has in this place
        have places := loadLoopIn_prefix later
        obtain ⟨more, whole⟩ := places
        have inside : before.calls.length < after.calls.length := by
          simp [← whole, LoadRun.store]
        have here : startModule before.calls.length (cutLine line) = module := by
          have same := agrees before.calls.length inside
          simpa [← whole, LoadRun.store] using same
        have stored : loadLine startModule i line before.loaded = (before.store i
            ⟨worlds before.calls.length, cutLine line, module, uses⟩ host).loaded := by
          simp [loadLine, path, LoadRun.loaded, LoadRun.store, here]
        simp only [read, room, ↓reduceIte, stored]
        exact ih later

/-- Without the resources the run is one of `load_modules`. -/
theorem loadModulesIn_loaded {content : List Char} {host : Host} {run : LoadRun}
    {uses : List (Use Resource)}
    (returned : loadModulesIn rand unloadNativeModule worlds (some content) host =
      .ok (some run, uses)) :
    loadModules (fun n _ => (run.calls.map StartCall.module).getD n Module.empty) (some content) =
      some run.loaded := by
  simp only [loadModulesIn] at returned
  split at returned
  case h_1 => cases returned
  case h_2 after ran =>
    cases returned
    rw [loadModules, Option.some.injEq]
    refine loadLoopIn_loaded ran fun n inside => ?_
    simp [inside]

end Loading

end YakUnshorn
