import YakUnshorn.ModuleLoader
import YakUnshorn.Lib.Scanf

/-!
`start_module` of `ox-kernel/module.c`, which reads the `oxmod` file of a module. The files and
`start_native_module` are parameters. A `Char` of a file stands for one of its bytes.
-/

namespace YakUnshorn

open CMachine LineReader Scanf

def maxValue : Nat := 64

def rtldNow : Nat := 2

def rtldGlobal : Nat := 0x100

def nativeRuntime : List Char := "native".toList

def rtldGlobalFlag : List Char := "RTLD_GLOBAL".toList

inductive OxmodKey
  | runtime
  | lib
  | dlopenFlag
  deriving Repr, DecidableEq

def OxmodKey.name : OxmodKey → List Char
  | .runtime => "runtime".toList
  | .lib => "lib".toList
  | .dlopenFlag => "dlopen_flag".toList

def OxmodKey.format (key : OxmodKey) : List Char := key.name ++ " %s".toList

def isSkipped (line : List Char) : Bool := line.head? = some '#' ∨ line.head? = some '\n'

/-- What `sscanf(line, "key %s", value)` puts into `value`, if it returns 1. -/
def scanValue (key : OxmodKey) (line : List Char) : Option (List Char) :=
  match sscanf line key.format with
  | [value] => some value
  | _ => none

structure OxmodConfig where
  runtime : Option (List Char)
  lib : Option (List Char)
  deriving Repr, DecidableEq

def OxmodConfig.Complete (config : OxmodConfig) : Prop :=
  config.runtime.isSome ∧ config.lib.isSome

instance (config : OxmodConfig) : Decidable config.Complete :=
  inferInstanceAs (Decidable (config.runtime.isSome ∧ config.lib.isSome))

def OxmodConfig.scan (config : OxmodConfig) (line : List Char) : OxmodConfig where
  runtime := (scanValue .runtime line).or config.runtime
  lib := (scanValue .lib line).or config.lib

/-- The loop that looks for `runtime` and `lib`, the lines it has read, and what is left of the
file. -/
def configLoop : Nat → List Char → OxmodConfig → List (List Char) →
    OxmodConfig × List (List Char) × List Char
  | 0, content, config, read => (config, read, content)
  | fuel + 1, content, config, read =>
      match fgets maxLine content with
      | none => (config, read, content)
      | some (line, rest) =>
          if isSkipped line then configLoop fuel rest config (read ++ [line])
          else
            let config := config.scan line
            if config.Complete then (config, read ++ [line], rest)
            else configLoop fuel rest config (read ++ [line])

def flagsOf (flags : Nat) (line : List Char) : Nat :=
  if scanValue .dlopenFlag line = some rtldGlobalFlag then flags ||| rtldGlobal else flags

/-- The loop that looks for `dlopen_flag`, and the lines it has read. -/
def flagLoop : Nat → List Char → Nat → List (List Char) → Nat × List (List Char)
  | 0, _, flags, read => (flags, read)
  | fuel + 1, content, flags, read =>
      match fgets maxLine content with
      | none => (flags, read)
      | some (line, rest) =>
          if isSkipped line then flagLoop fuel rest flags (read ++ [line])
          else flagLoop fuel rest (flagsOf flags line) (read ++ [line])

/-- What `start_module` has read of a file: the settings, and the lines that each loop has read. -/
structure Oxmod where
  config : OxmodConfig
  flags : Nat
  configLines : List (List Char)
  flagLines : List (List Char)
  deriving Repr, DecidableEq

def OxmodConfig.Native (config : OxmodConfig) : Prop :=
  config.runtime = some nativeRuntime ∧ config.lib.isSome

instance (config : OxmodConfig) : Decidable config.Native :=
  inferInstanceAs (Decidable (config.runtime = some nativeRuntime ∧ config.lib.isSome))

/-- Both loops of `start_module`. Each call of `fgets` takes a character at least, so that the
length of the file is enough fuel. -/
def readOxmod (content : List Char) : Oxmod :=
  let (config, configLines, rest) := configLoop content.length content ⟨none, none⟩ []
  if config.Native then
    let (flags, flagLines) := flagLoop rest.length rest rtldNow []
    ⟨config, flags, configLines, flagLines⟩
  else ⟨config, rtldNow, configLines, []⟩

/-- What the loop that looks for the keys stores into `value`, word by word. -/
def storedValues (keys : List OxmodKey) (lines : List (List Char)) : List (List Char) :=
  (lines.filter fun line => !isSkipped line).flatMap fun line =>
    keys.filterMap fun key => scanValue key line

def Oxmod.values (oxmod : Oxmod) : List (List Char) :=
  storedValues [.runtime, .lib] oxmod.configLines ++ storedValues [.dlopenFlag] oxmod.flagLines

/-- The `runtime`, `lib` and flags that `start_module` goes by. A word that is too long for `value`
is stored behind its end. -/
def oxmodSettings (content : List Char) : Except Fault (OxmodConfig × Nat) :=
  let oxmod := readOxmod content
  if ∀ value ∈ oxmod.values, value.length + 1 ≤ maxValue then .ok (oxmod.config, oxmod.flags)
  else .error .outOfBounds

/-- The call of `start_native_module`, if it comes to one. -/
def nativeCall (content : List Char) : Except Fault (Option (List Char × Nat)) :=
  match oxmodSettings content with
  | .error fault => .error fault
  | .ok (config, flags) =>
      .ok (if config.Native then config.lib.map fun lib => (lib, flags) else none)

def startModule (fopen : List Char → Option (List Char))
    (startNativeModule : List Char → Nat → Module) (modPath : List Char) : Except Fault Module :=
  match fopen (modPath ++ "/oxmod".toList) with
  | none => .ok Module.empty
  | some content =>
      match nativeCall content with
      | .error fault => .error fault
      | .ok none => .ok Module.empty
      | .ok (some (lib, flags)) => .ok (startNativeModule lib flags)

end YakUnshorn
