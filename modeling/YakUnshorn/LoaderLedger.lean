import YakUnshorn.LoaderResources

/-!
Which of the resources of `start_module` and `load_modules` are released as they should
be, for each of the ways out of them.
-/

namespace YakUnshorn

open CMachine LineReader ResourceLedger

/-- What a module that was started leaves to its caller: the library, and the string that names
it. -/
def Kept (world : LoaderWorld) (module : Module) : Resource → Prop
  | .stream => False
  | .handle handle => module ≠ Module.empty ∧ module.ctx = handle
  | .string index => module ≠ Module.empty ∧ module.path = world.strdup index

def StartCall.Returned (rand : Nat → Int) (unloadNativeModule : Pointer) (call : StartCall) :
    Prop :=
  ∃ host after, startModuleIn rand unloadNativeModule call.world call.modPath host =
    .ok (call.module, after, call.uses)

structure NativeLibrary.Starts (library : NativeLibrary) : Prop where
  opens : library.handle ≠ 0
  oxInit : library.oxInit.isSome
  start : library.start.isSome
  stop : library.stop.isSome
  initCode : library.initCode = 0
  startCode : library.startCode = 0

theorem NativeLibrary.Starts.loaded {library : NativeLibrary} (starts : library.Starts)
    {module : Module} (ctx : module.ctx = library.handle) : module ≠ Module.empty := by
  rintro rfl
  exact starts.opens ctx.symm

/-- No line that is read while a key is missing gives a key that an earlier line has given. -/
def GivesOnce (lines : List (List Char)) : Prop :=
  ∀ front line back, lines = front ++ line :: back → ¬KeysSeen front →
    ∀ key ∈ [OxmodKey.runtime, .lib], (∃ word, Sets key line word) →
      ∀ earlier ∈ front, ∀ word, ¬Sets key earlier word

section Strings

def gives (key : OxmodKey) (line : List Char) : Bool := (lineEffect line key).isSome

theorem gives_iff (key : OxmodKey) (line : List Char) :
    gives key line = true ↔ ∃ word, Sets key line word := lineEffect_isSome_iff key line

def Strings.runtimeAgain (strings : Strings) : Strings :=
  { strings with runtime := some strings.count, count := strings.count + 1 }

def Strings.libAgain (strings : Strings) : Strings :=
  { strings with lib := some strings.count, count := strings.count + 1 }

/-- The strings that there are once each key has been given so many times, the last string of each
still known. -/
structure KnownStrings (runtimes libs : Nat) (strings : Strings) : Prop where
  count : strings.count = runtimes + libs
  runtime : strings.runtime = none ↔ runtimes = 0
  lib : strings.lib = none ↔ libs = 0
  runtimeBound : ∀ index, strings.runtime = some index → index < strings.count
  libBound : ∀ index, strings.lib = some index → index < strings.count
  apart : ∀ index, strings.runtime = some index → strings.lib ≠ some index

theorem KnownStrings.runtimeAgain {runtimes libs : Nat} {strings : Strings}
    (known : KnownStrings runtimes libs strings) :
    KnownStrings (runtimes + 1) libs strings.runtimeAgain where
  count := by
    simp only [Strings.runtimeAgain, known.count]
    omega
  runtime := by simp [Strings.runtimeAgain]
  lib := known.lib
  runtimeBound index same := by
    simp only [Strings.runtimeAgain, Option.some.injEq] at same ⊢
    omega
  libBound index same := by
    have before := known.libBound index same
    simp only [Strings.runtimeAgain]
    omega
  apart index same also := by
    have before := known.libBound index also
    simp only [Strings.runtimeAgain, Option.some.injEq] at same
    omega

theorem KnownStrings.libAgain {runtimes libs : Nat} {strings : Strings}
    (known : KnownStrings runtimes libs strings) :
    KnownStrings runtimes (libs + 1) strings.libAgain where
  count := by
    simp only [Strings.libAgain, known.count]
    omega
  runtime := known.runtime
  lib := by simp [Strings.libAgain]
  runtimeBound index same := by
    have before := known.runtimeBound index same
    simp only [Strings.libAgain]
    omega
  libBound index same := by
    simp only [Strings.libAgain, Option.some.injEq] at same ⊢
    omega
  apart index same also := by
    have before := known.runtimeBound index same
    simp only [Strings.libAgain, Option.some.injEq] at also
    omega

theorem scan_eq (strings : Strings) (line : List Char) :
    strings.scan line =
      let strings := if gives .runtime line then strings.runtimeAgain else strings
      if gives .lib line then strings.libAgain else strings := by
  by_cases skipped : isSkipped line = true <;>
    simp [Strings.scan, Strings.runtimeAgain, Strings.libAgain, gives, lineEffect, skipped]

theorem knownStrings_duplicated (lines : List (List Char)) :
    KnownStrings (lines.countP (gives .runtime)) (lines.countP (gives .lib))
      (duplicated lines) := by
  induction lines using List.reverseRecOn with
  | nil => constructor <;> simp [duplicated]
  | append_singleton lines line ih =>
      rw [duplicated, List.foldl_concat, ← duplicated, scan_eq]
      simp only [List.countP_append, List.countP_singleton]
      cases gives .runtime line <;> cases gives .lib line
      case false.false => exact ih
      case false.true => exact ih.libAgain
      case true.false => exact ih.runtimeAgain
      case true.true => exact ih.runtimeAgain.libAgain

theorem KnownStrings.known_iff {runtimes libs : Nat} {strings : Strings}
    (known : KnownStrings runtimes libs strings) :
    (∀ index < strings.count, strings.runtime = some index ∨ strings.lib = some index) ↔
      runtimes ≤ 1 ∧ libs ≤ 1 := by
  obtain ⟨count, runtime, lib, runtimeBound, libBound, apart⟩ := known
  cases runtimeCase : strings.runtime <;> cases libCase : strings.lib <;>
    simp only [runtimeCase, libCase, Option.some.injEq, reduceCtorEq, true_iff, false_iff,
      or_self, or_false, false_or, forall_eq', ne_eq, not_false_eq_true, false_implies,
      implies_true, imp_false, not_lt] at *
  all_goals
    constructor
    · intro all
      have zero := all 0
      have one := all 1
      have two := all 2
      omega
    · intro few index
      omega

theorem countP_le_one_iff {Item : Type} (holds : Item → Bool) (items : List Item) :
    items.countP holds ≤ 1 ↔ ∀ front item back, items = front ++ item :: back →
      holds item = true → ∀ earlier ∈ front, holds earlier ≠ true := by
  constructor
  · rintro few front item back rfl found
    rw [List.countP_append, List.countP_cons_of_pos found] at few
    exact List.countP_eq_zero.mp (by omega)
  · intro once
    induction items with
    | nil => simp
    | cons first rest ih =>
        cases found : holds first with
        | true =>
            rw [List.countP_cons_of_pos found]
            have none : rest.countP holds = 0 := by
              refine List.countP_eq_zero.mpr fun later member again => ?_
              obtain ⟨front, back, split⟩ := List.append_of_mem member
              exact once (first :: front) later back (by rw [split, List.cons_append]) again first
                List.mem_cons_self found
            omega
        | false =>
            rw [List.countP_cons_of_neg (by simp [found])]
            refine ih fun front item back split here earlier member => ?_
            exact once (first :: front) item back (by rw [split, List.cons_append]) here earlier
              (List.mem_cons_of_mem first member)

end Strings

namespace OxmodReads

variable {content : List Char} {oxmod : Oxmod} {rest : List (List Char)}

theorem givesOnce_iff (reads : OxmodReads content oxmod rest) :
    GivesOnce (chunks maxLine content) ↔
      oxmod.configLines.countP (gives .runtime) ≤ 1 ∧
        oxmod.configLines.countP (gives .lib) ≤ 1 := by
  simp only [countP_le_one_iff, ne_eq, gives_iff, not_exists]
  constructor
  · intro once
    have keys : ∀ key ∈ [OxmodKey.runtime, .lib], ∀ front line back,
        oxmod.configLines = front ++ line :: back → (∃ word, Sets key line word) →
          ∀ earlier ∈ front, ∀ word, ¬Sets key earlier word := by
      intro key member front line back read given
      refine once front line (back ++ rest) ?_ ?_ key member given
      · rw [reads.text, read, List.append_assoc, List.cons_append]
      · rw [← configAfter_complete_iff]
        exact reads.early front line back read
    exact ⟨keys .runtime (by simp), keys .lib (by simp)⟩
  · rintro ⟨runtime, lib⟩ front line back text missing key member given
    rw [← configAfter_complete_iff] at missing
    obtain ⟨later, read⟩ := (reads.split text).2 missing
    rcases List.mem_pair.mp member with rfl | rfl
    · exact runtime front line later read given
    · exact lib front line later read given

end OxmodReads

theorem handleUses_closed {library : NativeLibrary} {before after : Host}
    (opens : library.handle ≠ 0) (closed : after.closed = before.closed ++ [library.handle]) :
    handleUses library before after =
      [.acquire (.handle library.handle), .release (.handle library.handle)] := by
  rw [handleUses, if_neg opens, closed, List.drop_left]
  rfl

theorem handleUses_open {library : NativeLibrary} {before after : Host}
    (opens : library.handle ≠ 0) (open_ : after.closed = before.closed) :
    handleUses library before after = [.acquire (.handle library.handle)] := by
  rw [handleUses, if_neg opens, open_, List.drop_length]
  rfl

/-- How `start_native_module` ends: without a handle, with the handle closed, or with it in the
module. -/
inductive NativeEnd (library : NativeLibrary) (libPath : Pointer) (module : Module) :
    List (Use Resource) → Prop
  | unopened (failed : module = Module.empty) (none : library.handle = 0) :
      NativeEnd library libPath module []
  | closed (failed : module = Module.empty) (stopped : ¬library.Starts) :
      NativeEnd library libPath module
        [.acquire (.handle library.handle), .release (.handle library.handle)]
  | started (starts : library.Starts) (ctx : module.ctx = library.handle)
      (path : module.path = libPath) :
      NativeEnd library libPath module [.acquire (.handle library.handle)]

theorem startNativeModule_end {rand : Nat → Int} {unloadNativeModule libPath : Pointer}
    {library : NativeLibrary} {host after : Host} {module : Module}
    (returned : startNativeModule rand unloadNativeModule library libPath host =
      .ok (module, after)) :
    NativeEnd library libPath module (handleUses library host after) := by
  revert returned
  fun_cases startNativeModule rand unloadNativeModule library libPath host <;>
    simp only [Except.ok.injEq, Prod.mk.injEq, reduceCtorEq, false_implies, and_imp] <;>
    rintro rfl rfl
  case case1 none =>
    rw [handleUses, if_pos none]
    exact .unopened rfl none
  case case2 opens missing =>
    rw [handleUses_closed opens rfl]
    exact .closed rfl fun starts => by simpa [missing] using starts.oxInit
  case case3 opens _ _ missing =>
    rw [handleUses_closed opens rfl]
    exact .closed rfl fun starts => by simpa [missing] using starts.start
  case case4 opens _ _ _ _ missing =>
    rw [handleUses_closed opens rfl]
    exact .closed rfl fun starts => by simpa [missing] using starts.stop
  case case6 opens _ _ _ _ _ _ _ _ failed =>
    rw [handleUses_closed opens rfl]
    exact .closed rfl fun starts => failed starts.initCode
  case case8 opens _ _ _ _ _ _ _ _ _ _ _ failed =>
    rw [handleUses_closed opens rfl]
    exact .closed rfl fun starts => failed starts.startCode
  case case9 opens _ oxInit _ start _ stop _ _ initCode _ later startCode =>
    have stays : later.closed = host.closed := rfl
    rw [handleUses_open opens stays]
    refine .started ⟨opens, ?_, ?_, ?_, not_not.mp initCode, not_not.mp startCode⟩ rfl rfl
    · rw [oxInit, Option.isSome_some]
    · rw [start, Option.isSome_some]
    · rw [stop, Option.isSome_some]

inductive StartEnd (world : LoaderWorld) (content : List Char) (module : Module) :
    List (Use Resource) → Prop
  | missing (failed : module = Module.empty) (unseen : ¬KeysSeen (chunks maxLine content))
      (idle : nativeCall content = .ok none) :
      StartEnd world content module
        (let strings := duplicated (readOxmod content).configLines
        .acquire .stream :: strings.acquired ++ free strings.runtime ++ free strings.lib)
  | foreign (failed : module = Module.empty) (seen : KeysSeen (chunks maxLine content))
      (other : ¬RuntimeRead (chunks maxLine content) nativeRuntime)
      (idle : nativeCall content = .ok none) :
      StartEnd world content module
        (let strings := duplicated (readOxmod content).configLines
        .acquire .stream :: strings.acquired ++ [.release .stream] ++ free strings.runtime ++
          free strings.lib)
  | native (seen : KeysSeen (chunks maxLine content))
      (runtime : RuntimeRead (chunks maxLine content) nativeRuntime) (lib : List Char) (flags : Nat)
      (called : nativeCall content = .ok (some (lib, flags))) (handles : List (Use Resource))
      (ended : NativeEnd (world.library lib flags)
        ((duplicated (readOxmod content).configLines).lib.elim 0 world.strdup) module handles) :
      StartEnd world content module
        (let strings := duplicated (readOxmod content).configLines
        .acquire .stream :: strings.acquired ++ free strings.runtime ++ handles ++
          free strings.lib)

theorem startModuleIn_end {rand : Nat → Int} {unloadNativeModule : Pointer} {world : LoaderWorld}
    {modPath content : List Char} {host after : Host} {module : Module} {uses : List (Use Resource)}
    (opened : world.fopen (oxmodPath modPath) = some content)
    (returned : startModuleIn rand unloadNativeModule world modPath host =
      .ok (module, after, uses)) : StartEnd world content module uses := by
  obtain ⟨rest, reads⟩ := readOxmod_reads content
  simp only [startModuleIn, opened] at returned
  cases settings : oxmodSettings content with
  | error fault => simp [settings] at returned
  | ok result =>
      obtain ⟨config, flags⟩ := result
      have same : (readOxmod content).config = config := by
        simp only [oxmodSettings] at settings
        split at settings
        case isTrue => exact congrArg Prod.fst (Except.ok.inj settings)
        case isFalse => cases settings
      have complete := reads.complete_iff
      have native := reads.runtime_iff nativeRuntime
      have call : nativeCall content =
          .ok (if config.Native then config.lib.map fun lib => (lib, flags) else none) := by
        rw [nativeCall, settings]
      rw [same] at complete native
      simp only [settings] at returned
      cases runtime : config.runtime with
      | none =>
          simp only [runtime] at returned
          cases returned
          refine .missing rfl (fun seen => by simpa [runtime] using (complete.mpr seen).1) ?_
          rw [call, if_neg fun loads => by simpa [runtime] using loads.1]
      | some word =>
          cases lib : config.lib with
          | none =>
              simp only [runtime, lib] at returned
              cases returned
              refine .missing rfl (fun seen => by simpa [lib] using (complete.mpr seen).2) ?_
              rw [call, if_neg fun loads => by simpa [lib] using loads.2]
          | some path =>
              have seen := complete.mp ⟨by rw [runtime]; rfl, by rw [lib]; rfl⟩
              by_cases isNative : word = nativeRuntime
              · rw [isNative] at runtime
                simp only [runtime, lib, ↓reduceIte] at returned
                have called : nativeCall content = .ok (some (path, flags)) := by
                  rw [call, if_pos ⟨runtime, by rw [lib]; rfl⟩, lib, Option.map_some]
                split at returned
                case h_1 => cases returned
                case h_2 ended =>
                  cases returned
                  exact .native seen (native.mp runtime) path flags called _
                    (startNativeModule_end ended)
              · have other : config.runtime ≠ some nativeRuntime := by
                  simpa [runtime] using isNative
                simp only [runtime, lib, isNative, ↓reduceIte] at returned
                cases returned
                refine .foreign rfl seen (mt native.mpr other) ?_
                rw [call, if_neg fun loads => other loads.1]

/-- Without the resources the call is one of `start_module`. -/
theorem startModuleIn_module {rand : Nat → Int} {unloadNativeModule : Pointer} {world : LoaderWorld}
    {modPath : List Char} {host after : Host} {module : Module} {uses : List (Use Resource)}
    (returned : startModuleIn rand unloadNativeModule world modPath host =
      .ok (module, after, uses)) :
    startModule world.fopen (fun _ _ => module) modPath = .ok module := by
  rw [startModule, ← oxmodPath]
  cases opened : world.fopen (oxmodPath modPath) with
  | none =>
      simp only [startModuleIn, opened] at returned
      cases returned
      rfl
  | some content =>
      cases startModuleIn_end opened returned with
      | missing failed unseen idle => simp only [idle, failed]
      | foreign failed seen other idle => simp only [idle, failed]
      | native seen runtime lib flags called handles ended => simp only [called]

theorem NativeEnd.others {library : NativeLibrary} {libPath : Pointer} {module : Module}
    {uses : List (Use Resource)} (ended : NativeEnd library libPath module uses) :
    .release .stream ∉ uses ∧ ∀ index,
      .acquire (.string index) ∉ uses ∧ uses.count (.release (.string index)) = 0 := by
  cases ended <;> simp

namespace StartEnd

variable {world : LoaderWorld} {content : List Char} {module : Module} {uses : List (Use Resource)}

theorem stream (ended : StartEnd world content module uses) :
    .acquire .stream ∈ uses ∧ (uses.count (.release .stream) = 1 ↔
      KeysSeen (chunks maxLine content) ∧ ¬RuntimeRead (chunks maxLine content) nativeRuntime) := by
  have unfreed : ∀ pointer, (free pointer).count (.release .stream) = 0 := by
    intro pointer
    cases pointer <;> simp [free]
  cases ended with
  | missing failed unseen idle => simp [unfreed, unseen]
  | foreign failed seen other idle => simp [unfreed, seen, other]
  | native seen runtime lib flags called handles ended =>
      have unclosed := List.count_eq_zero.mpr ended.others.1
      simp [unfreed, unclosed, runtime]

theorem strings (ended : StartEnd world content module uses) (index : Nat) :
    let strings := duplicated (readOxmod content).configLines
    (.acquire (.string index) ∈ uses ↔ index < strings.count) ∧
      uses.count (.release (.string index)) =
        (if strings.runtime = some index then 1 else 0) +
          (if strings.lib = some index then 1 else 0) := by
  cases ended with
  | missing failed unseen idle => simp
  | foreign failed seen other idle => simp
  | native seen runtime lib flags called handles ended =>
      obtain ⟨unacquired, unreleased⟩ := ended.others.2 index
      simp [unacquired, unreleased]

theorem handle (ended : StartEnd world content module uses) (handle : Pointer) :
    SettledAt (Kept world module) uses (.handle handle) := by
  cases ended with
  | missing failed unseen idle => exact settledAt_of_unused (by simp)
  | foreign failed seen other idle => exact settledAt_of_unused (by simp)
  | native seen runtime lib flags called handles ended =>
      intro acquired
      cases ended with
      | unopened failed none => simp at acquired
      | closed failed stopped =>
          refine ⟨fun keeps => absurd failed keeps.1, fun _ => ?_⟩
          have same : handle = (world.library lib flags).handle := by simpa using acquired
          simp [same]
      | started starts ctx path =>
          have same : handle = (world.library lib flags).handle := by simpa using acquired
          have kept : Kept world module (.handle handle) :=
            ⟨starts.loaded ctx, ctx.trans same.symm⟩
          exact ⟨fun _ => by simp, fun gives => absurd kept gives⟩

theorem strings_failed_iff (ended : StartEnd world content module uses)
    (failed : module = Module.empty) :
    (∀ index, SettledAt (Kept world module) uses (.string index)) ↔
      GivesOnce (chunks maxLine content) := by
  obtain ⟨rest, reads⟩ := readOxmod_reads content
  have known := knownStrings_duplicated (readOxmod content).configLines
  rw [reads.givesOnce_iff, ← known.known_iff]
  refine forall_congr' fun index => ?_
  obtain ⟨acquired, released⟩ := ended.strings index
  by_cases inside : index < (duplicated (readOxmod content).configLines).count
  · have gives : ¬Kept world module (.string index) := fun keeps => keeps.1 failed
    have apart := known.apart index
    rw [settledAt_given_iff (acquired.mpr inside) gives, released]
    by_cases runtime : (duplicated (readOxmod content).configLines).runtime = some index
    · simp [runtime, apart runtime]
    · simp [runtime, inside]
  · exact iff_of_true (settledAt_of_unused (mt acquired.mp inside)) fun within =>
      absurd within inside

theorem lib_string (seen : KeysSeen (chunks maxLine content)) :
    ∃ index, (duplicated (readOxmod content).configLines).lib = some index := by
  obtain ⟨rest, reads⟩ := readOxmod_reads content
  have known := knownStrings_duplicated (readOxmod content).configLines
  rw [← reads.complete_iff, reads.config, configAfter_complete_iff] at seen
  obtain ⟨-, line, read, given⟩ := seen
  refine Option.ne_none_iff_exists'.mp fun none => ?_
  exact List.countP_eq_zero.mp (known.lib.mp none) line read ((gives_iff .lib line).mpr given)

theorem strings_iff (ended : StartEnd world content module uses) :
    (∀ index, SettledAt (Kept world module) uses (.string index)) ↔
      GivesOnce (chunks maxLine content) ∧ ∀ lib flags,
        nativeCall content = .ok (some (lib, flags)) → ¬(world.library lib flags).Starts := by
  have whole := ended
  have failing : module = Module.empty → (∀ lib flags,
      nativeCall content = .ok (some (lib, flags)) → ¬(world.library lib flags).Starts) →
      ((∀ index, SettledAt (Kept world module) uses (.string index)) ↔
        GivesOnce (chunks maxLine content) ∧ ∀ lib flags,
          nativeCall content = .ok (some (lib, flags)) → ¬(world.library lib flags).Starts) := by
    intro failed stopped
    rw [whole.strings_failed_iff failed]
    exact ⟨fun once => ⟨once, stopped⟩, And.left⟩
  cases ended with
  | missing failed unseen idle =>
      exact failing failed fun lib flags called => by simp [idle] at called
  | foreign failed seen other idle =>
      exact failing failed fun lib flags called => by simp [idle] at called
  | native seen runtime lib flags called handles ended =>
      have only : ∀ lib' flags', nativeCall content = .ok (some (lib', flags')) →
          world.library lib' flags' = world.library lib flags := by
        intro lib' flags' again
        rw [called] at again
        cases again
        rfl
      cases ended with
      | unopened failed none =>
          refine failing failed fun lib' flags' again starts => starts.opens ?_
          rw [only lib' flags' again, none]
      | closed failed stopped =>
          refine failing failed fun lib' flags' again starts => stopped ?_
          rwa [only lib' flags' again] at starts
      | started starts ctx path =>
          refine iff_of_false (fun settled => ?_) fun both => both.2 lib flags called starts
          -- the string that the module refers to has been freed
          obtain ⟨index, known⟩ := lib_string seen
          have kept : Kept world module (.string index) :=
            ⟨starts.loaded ctx, by rw [path, known]; rfl⟩
          have strings := knownStrings_duplicated (readOxmod content).configLines
          have acquired := (whole.strings index).1.mpr (strings.libBound index known)
          refine (settled index acquired).1 kept ?_
          simp [free, known]

theorem path_freed (ended : StartEnd world content module uses) :
    module.path = 0 ∨ ∃ index, module.path = world.strdup index ∧
      .release (.string index) ∈ uses := by
  cases ended with
  | missing failed unseen idle => exact .inl (failed ▸ rfl)
  | foreign failed seen other idle => exact .inl (failed ▸ rfl)
  | native seen runtime lib flags called handles ended =>
      cases ended with
      | unopened failed none => exact .inl (failed ▸ rfl)
      | closed failed stopped => exact .inl (failed ▸ rfl)
      | started starts ctx path =>
          obtain ⟨index, known⟩ := lib_string seen
          exact .inr ⟨index, by rw [path, known]; rfl, by simp [free, known]⟩

end StartEnd

section Runs

variable {rand : Nat → Int} {unloadNativeModule : Pointer}

theorem StartCall.Returned.uses_eq {call : StartCall}
    (returned : call.Returned rand unloadNativeModule)
    (unopened : call.world.fopen (oxmodPath call.modPath) = none) : call.uses = [] := by
  obtain ⟨host, after, returned⟩ := returned
  rw [startModuleIn, unopened, Except.ok.injEq, Prod.mk.injEq, Prod.mk.injEq] at returned
  exact returned.2.2.symm

theorem loadLoopIn_calls {worlds : Nat → LoaderWorld} {fuel i : Nat} {content : List Char}
    {before after : LoadRun}
    (ran : loadLoopIn rand unloadNativeModule worlds fuel i content before = .ok after)
    (all : ∀ call ∈ before.calls, call.Returned rand unloadNativeModule) :
    ∀ call ∈ after.calls, call.Returned rand unloadNativeModule := by
  induction fuel generalizing i content before with
  | zero =>
      cases ran
      exact all
  | succ fuel ih =>
      rcases loadLoopIn_cases ran with ⟨rfl, -⟩ | ⟨line, rest, -, -, ⟨-, later⟩ |
        ⟨module, host, uses, -, started, later⟩⟩
      · exact all
      · exact ih later all
      · refine ih later fun call member => ?_
        rcases List.mem_append.mp member with earlier | new
        · exact all call earlier
        · rw [List.mem_singleton.mp new]
          exact ⟨before.host, host, started⟩

/-- Of what a start acquires, the handle is always in order. The stream is closed for a runtime that
is not known, and the strings are freed once if no key is given twice, before their time if the
module starts. -/
structure StartLedger (call : StartCall) : Prop where
  stream : SettledAt (Kept call.world call.module) call.uses .stream ↔
    ∀ content ∈ call.world.fopen (oxmodPath call.modPath),
      KeysSeen (chunks maxLine content) ∧ ¬RuntimeRead (chunks maxLine content) nativeRuntime
  handle : ∀ handle, SettledAt (Kept call.world call.module) call.uses (.handle handle)
  string : (∀ index, SettledAt (Kept call.world call.module) call.uses (.string index)) ↔
    ∀ content ∈ call.world.fopen (oxmodPath call.modPath),
      GivesOnce (chunks maxLine content) ∧ ∀ lib flags,
        nativeCall content = .ok (some (lib, flags)) → ¬(call.world.library lib flags).Starts

theorem StartCall.Returned.ledger {call : StartCall}
    (returned : call.Returned rand unloadNativeModule) : StartLedger call := by
  cases opened : call.world.fopen (oxmodPath call.modPath) with
  | none =>
      have unused : ∀ resource, SettledAt (Kept call.world call.module) call.uses resource := by
        intro resource
        apply settledAt_of_unused
        simp [returned.uses_eq opened]
      constructor <;> simp [opened, unused]
  | some content =>
      obtain ⟨host, after, returned⟩ := returned
      have ended := startModuleIn_end opened returned
      have stream := ended.stream
      refine ⟨?_, ended.handle, ?_⟩
      · rw [settledAt_given_iff stream.1 id, stream.2, opened]
        simp
      · rw [ended.strings_iff, opened]
        simp

theorem StartCall.Returned.path_freed {call : StartCall}
    (returned : call.Returned rand unloadNativeModule) :
    call.module.path = 0 ∨ ∃ index, call.module.path = call.world.strdup index ∧
      .release (.string index) ∈ call.uses := by
  obtain ⟨host, after, returned⟩ := returned
  cases opened : call.world.fopen (oxmodPath call.modPath) with
  | none =>
      simp only [startModuleIn, opened, Except.ok.injEq, Prod.mk.injEq] at returned
      exact .inl (returned.1 ▸ rfl)
  | some content => exact (startModuleIn_end opened returned).path_freed

/-- The pointers that the loader counts as freed are null, or strings that a start has freed. -/
theorem freed_of_loaded {worlds : Nat → LoaderWorld} {loadList : Option (List Char)} {host : Host}
    {run : LoadRun} {uses : List (Use Resource)}
    (returned : loadModulesIn rand unloadNativeModule worlds loadList host =
      .ok (some run, uses)) {path : Pointer} (counted : path ∈ run.loaded.freed) :
    path = 0 ∨ ∃ call ∈ run.calls, ∃ index, path = call.world.strdup index ∧
      .release (.string index) ∈ call.uses := by
  obtain ⟨call, member, rfl⟩ : ∃ call ∈ run.calls, call.module.path = path := by
    simpa [Loaded.freed, LoadRun.loaded] using counted
  cases loadList with
  | none => cases returned
  | some content =>
      simp only [loadModulesIn] at returned
      split at returned
      case h_1 => cases returned
      case h_2 after ran =>
        cases returned
        exact (loadLoopIn_calls ran (by simp) call member).path_freed.imp_right fun freed =>
          ⟨call, member, freed⟩

def Balanced (result : Option LoadRun × List (Use Resource)) : Prop :=
  Settled (fun _ => False) result.2 ∧
    ∀ loaded ∈ result.1, ∀ call ∈ loaded.calls, Settled (Kept call.world call.module) call.uses

/-- The stream of the load list is left open, so that the ledger is in order only where there is no
list to open. -/
theorem loader_ledger_iff (rand : Nat → Int) (unloadNativeModule : Pointer)
    (worlds : Nat → LoaderWorld) (loadList : Option (List Char)) (host : Host) :
    ((∃ result, loadModulesIn rand unloadNativeModule worlds loadList host = .ok result ∧
        Balanced result) ↔ loadList = none) ∧
      ∀ loaded uses,
        loadModulesIn rand unloadNativeModule worlds loadList host = .ok (some loaded, uses) →
          ∀ call ∈ loaded.calls, StartLedger call := by
  cases loadList with
  | none =>
      constructor
      · exact iff_of_true ⟨_, rfl, by simp [Balanced, Settled, SettledAt]⟩ rfl
      · intro loaded uses returned
        cases returned
  | some content =>
      simp only [loadModulesIn]
      cases ran : loadLoopIn rand unloadNativeModule worlds (maxMods + 1) 0 content
          ⟨List.replicate maxMods Module.empty, 0, host, []⟩ with
      | error fault => simp
      | ok after =>
          constructor
          · refine iff_of_false ?_ (by simp)
            rintro ⟨result, returned, balanced⟩
            cases returned
            exact not_settledAt_of_leak (by simp) id (by simp) (balanced.1 .stream)
          · intro loaded uses returned call member
            cases returned
            exact (loadLoopIn_calls ran (by simp) call member).ledger

end Runs

def worldOf (oxmod : List Char) : LoaderWorld where
  fopen path := if path = "m/oxmod".toList then some oxmod else none
  strdup index := 0x60 + UInt64.ofNat index
  library _ _ := { commandLibrary with startCode := 0 }

theorem loader_ledger_iff_foreign :
    let worlds := fun _ => worldOf "runtime lua\nlib x\n".toList
    let returned := loadModulesIn (fun draw => draw + 1) 0x50 worlds (some "m\n".toList) freshHost
    ((∃ result, returned = .ok result ∧ Balanced result) ↔ some "m\n".toList = none) ∧
      ∃ loaded uses, returned = .ok (some loaded, uses) ∧ ∀ call ∈ loaded.calls, StartLedger call :=
  ⟨(loader_ledger_iff _ _ _ _ _).1, _, _, rfl, (loader_ledger_iff (fun draw => draw + 1) 0x50
    (fun _ => worldOf "runtime lua\nlib x\n".toList) (some "m\n".toList) freshHost).2 _ _ rfl⟩

/-- Both streams are left open, and the path of the module is freed while the module refers to
it. -/
theorem started_module_ledger :
    let worlds := fun _ => worldOf "runtime native\nlib x\n".toList
    ∃ loaded call,
      loadModulesIn (fun draw => draw + 1) 0x50 worlds (some "m\n".toList) freshHost =
        .ok (some loaded, [.acquire .stream]) ∧
      loaded.calls = [call] ∧ call.module.path = (worlds 0).strdup 1 ∧
      call.uses = [.acquire .stream, .acquire (.string 0), .acquire (.string 1),
        .release (.string 0), .acquire (.handle 0x40), .release (.string 1)] ∧
      ¬Balanced (some loaded, [.acquire .stream]) := by
  refine ⟨_, _, rfl, rfl, rfl, rfl, fun balanced => ?_⟩
  exact not_settledAt_of_leak (by simp) id (by simp) (balanced.1 .stream)

end YakUnshorn
