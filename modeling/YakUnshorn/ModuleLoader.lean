import YakUnshorn.EventTypes
import YakUnshorn.Lib.CMachine
import YakUnshorn.Lib.LineReader

/-!
`load_modules`, `unload_module` and `unload_modules` of `ox-kernel/module.c`. What
`start_module` returns is a parameter, since it is up to the dynamic linker and to
the module. A `Char` of a file stands for one of its bytes.
-/

namespace YakUnshorn

open CMachine LineReader

def maxMods : Nat := 4

def maxLine : Nat := 1024

structure Module where
  path : Pointer
  stop : Pointer
  ctx : Pointer
  unload : Pointer
  deriving Repr, DecidableEq

def Module.empty : Module := ⟨0, 0, 0, 0⟩

/-- What the n-th call of `start_module` returns, for the path it is given. -/
abbrev StartModule := Nat → List Char → Module

structure Loaded where
  mods : List Module
  modsCount : Nat
  starts : List (List Char × Module)
  deriving Repr, DecidableEq

/-- The string that is left in the buffer once its first newline is overwritten. -/
def cutLine (line : List Char) : List Char :=
  line.takeWhile fun char => char ≠ '\n' ∧ char ≠ Char.ofNat 0

def isPathLine (line : List Char) : Bool :=
  ¬(line.head? = some '#' ∨ line.head? = some '\n')

def loadLine (startModule : StartModule) (i : Nat) (line : List Char) (loaded : Loaded) : Loaded :=
  if isPathLine line then
    let path := cutLine line
    let module := startModule loaded.starts.length path
    { mods := loaded.mods.set i module
      modsCount := i + 1
      starts := loaded.starts ++ [(path, module)] }
  else loaded

/-- The loop of `load_modules`. It reads a line before it looks at `i`. -/
def loadLoop (startModule : StartModule) : Nat → Nat → List Char → Loaded → Loaded
  | 0, _, _, loaded => loaded
  | fuel + 1, i, content, loaded =>
      match fgets maxLine content with
      | none => loaded
      | some (line, rest) =>
          if i < maxMods then
            loadLoop startModule fuel (i + 1) rest (loadLine startModule i line loaded)
          else loaded

/-- `load_modules`, for the content of the load list and a count that is 0 before the call. There
is no array when the file does not open. -/
def loadModules (startModule : StartModule) : Option (List Char) → Option Loaded
  | none => none
  | some content =>
      some (loadLoop startModule (maxMods + 1) 0 content
        ⟨List.replicate maxMods Module.empty, 0, []⟩)

inductive ModuleCall
  | stop (function : Pointer)
  | unload (function ctx : Pointer)
  deriving Repr, DecidableEq

abbrev CallTrace := List (ModuleCall × Int)

/-- `start_module` frees the string that the path of its module points to. -/
def Loaded.freed (loaded : Loaded) : List Pointer := loaded.starts.map fun start => start.2.path

def readPath (freed : List Pointer) (path : Pointer) : Except Fault Unit :=
  if path = 0 then .error .nullDereference
  else if path ∈ freed then .error .useAfterFree
  else .ok ()

/-- The message of `unload_module` about a call that failed, which names the path. -/
def complain (freed : List Pointer) (module : Module) (result : Int) : Except Fault Unit :=
  if result ≠ 0 then readPath freed module.path else .ok ()

/-- `unload_module`, where `answer` gives what the n-th call into a module returns. -/
def unloadModule (answer : Nat → Int) (freed : List Pointer) (trace : CallTrace)
    (module : Module) : Except Fault (CallTrace × Int) :=
  if module.stop = 0 then .error .nullDereference
  else
    let stopResult := answer trace.length
    let trace := trace ++ [(.stop module.stop, stopResult)]
    match complain freed module stopResult with
    | .error fault => .error fault
    | .ok () =>
        if module.unload = 0 then .error .nullDereference
        else
          let unloadResult := answer trace.length
          let trace := trace ++ [(.unload module.unload module.ctx, unloadResult)]
          match complain freed module unloadResult with
          | .error fault => .error fault
          | .ok () => .ok (trace, if stopResult ≠ 0 ∨ unloadResult ≠ 0 then 1 else 0)

def unloadLoop (answer : Nat → Int) (freed : List Pointer) (modules : List Module) :
    Nat → Nat → CallTrace × Int → Except Fault (CallTrace × Int)
  | 0, _, unloaded => .ok unloaded
  | left + 1, i, (trace, returnCode) =>
      match modules[i]? with
      | none => .error .outOfBounds
      | some module =>
          match unloadModule answer freed trace module with
          | .error fault => .error fault
          | .ok (trace, result) =>
              unloadLoop answer freed modules left (i + 1)
                (trace, if result ≠ 0 then 1 else returnCode)

def unloadModules (answer : Nat → Int) (freed : List Pointer) (modules : List Module)
    (moduleCount : Nat) : Except Fault (CallTrace × Int) :=
  unloadLoop answer freed modules moduleCount 0 ([], 0)

section Loading

variable (startModule : StartModule)

def loadEach : Nat → List (List Char) → Loaded → Loaded
  | _, [], loaded => loaded
  | i, line :: rest, loaded => loadEach (i + 1) rest (loadLine startModule i line loaded)

theorem loadLoop_eq (left i : Nat) (content : List Char) (loaded : Loaded)
    (bound : i + left = maxMods) :
    loadLoop startModule (left + 1) i content loaded =
      loadEach startModule i (readLines maxLine left content) loaded := by
  induction left generalizing i content loaded with
  | zero =>
      have full : ¬i < maxMods := by omega
      simp only [loadLoop, full, ↓reduceIte, readLines, loadEach]
      cases fgets maxLine content <;> rfl
  | succ left ih =>
      have room : i < maxMods := by omega
      rw [loadLoop]
      cases next : fgets maxLine content with
      | none => simp only [readLines, next, loadEach]
      | some read =>
          simp only [room, ↓reduceIte, readLines, next, loadEach]
          exact ih (i + 1) read.2 _ (by omega)

end Loading

end YakUnshorn
