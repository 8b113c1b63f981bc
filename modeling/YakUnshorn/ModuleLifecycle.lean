import YakUnshorn.ModuleLoader
import Mathlib.Data.List.DropRight

/-!
Which modules the lines of a load list start, where in the array they end up, and
what unloading the array does.
-/

namespace YakUnshorn

open CMachine LineReader

/-- `start_module` succeeded: there is a function to stop the module and one to unload it. -/
def Module.Started (module : Module) : Prop := module.stop ≠ 0 ∧ module.unload ≠ 0

instance (module : Module) : Decidable module.Started :=
  inferInstanceAs (Decidable (module.stop ≠ 0 ∧ module.unload ≠ 0))

theorem not_started_empty : ¬Module.empty.Started := by decide

def Module.shutdownCalls (module : Module) : List ModuleCall :=
  [.stop module.stop, .unload module.unload module.ctx]

section Loading

variable (startModule : StartModule)

/-- The modules in the slots of the lines, the first of which starts the n-th module. -/
def slots : Nat → List (List Char) → List Module
  | _, [] => []
  | n, line :: rest =>
      if isPathLine line then startModule n (cutLine line) :: slots (n + 1) rest
      else Module.empty :: slots n rest

def startsOf : Nat → List (List Char) → List (List Char × Module)
  | _, [] => []
  | n, line :: rest =>
      if isPathLine line then
        (cutLine line, startModule n (cutLine line)) :: startsOf (n + 1) rest
      else startsOf n rest

def upToPaths (lines : List (List Char)) : List (List Char) :=
  lines.rdropWhile fun line => !isPathLine line

variable {startModule}

theorem length_slots (n : Nat) (lines : List (List Char)) :
    (slots startModule n lines).length = lines.length := by
  induction lines generalizing n with
  | nil => rfl
  | cons line rest ih => simp only [slots]; split <;> simp [ih]

variable (startModule) in
theorem slots_append (n : Nat) (front back : List (List Char)) :
    slots startModule n (front ++ back) = slots startModule n front ++
      slots startModule (n + (startsOf startModule n front).length) back := by
  induction front generalizing n with
  | nil => simp [slots, startsOf]
  | cons line rest ih =>
      simp only [List.cons_append, slots, startsOf]
      split
      · simp only [ih, List.cons_append, List.length_cons]
        rw [show n + 1 + (startsOf startModule (n + 1) rest).length =
          n + ((startsOf startModule (n + 1) rest).length + 1) by omega]
      · simp [ih]

theorem startsOf_append (n : Nat) (front back : List (List Char)) :
    startsOf startModule n (front ++ back) = startsOf startModule n front ++
      startsOf startModule (n + (startsOf startModule n front).length) back := by
  induction front generalizing n with
  | nil => simp [startsOf]
  | cons line rest ih =>
      simp only [List.cons_append, startsOf]
      split
      · simp only [ih, List.cons_append, List.length_cons]
        rw [show n + 1 + (startsOf startModule (n + 1) rest).length =
          n + ((startsOf startModule (n + 1) rest).length + 1) by omega]
      · simp [ih]

theorem startsOf_none {lines : List (List Char)} (none : ∀ line ∈ lines, isPathLine line = false)
    (n : Nat) : startsOf startModule n lines = [] := by
  induction lines with
  | nil => rfl
  | cons line rest ih =>
      simp only [startsOf, none line (by simp), Bool.false_eq_true, ↓reduceIte]
      exact ih fun later member => none later (by simp [member])

theorem startsOf_paths (n : Nat) (lines : List (List Char)) :
    (startsOf startModule n lines).map Prod.fst = (lines.filter isPathLine).map cutLine := by
  induction lines generalizing n with
  | nil => rfl
  | cons line rest ih =>
      cases path : isPathLine line <;> simp [startsOf, path, ih]

theorem slots_of_paths {lines : List (List Char)} (paths : ∀ line ∈ lines, isPathLine line = true)
    (n : Nat) : slots startModule n lines = (startsOf startModule n lines).map Prod.snd := by
  induction lines generalizing n with
  | nil => rfl
  | cons line rest ih =>
      simp only [slots, startsOf, paths line (by simp), ↓reduceIte, List.map_cons]
      rw [ih fun later member => paths later (by simp [member])]

theorem slots_started_iff (n : Nat) (lines : List (List Char)) :
    (∀ module ∈ slots startModule n lines, module.Started) ↔
      (∀ line ∈ lines, isPathLine line = true) ∧
        ∀ start ∈ startsOf startModule n lines, start.2.Started := by
  constructor
  · intro started
    have paths : ∀ line ∈ lines, isPathLine line = true := by
      induction lines generalizing n with
      | nil => simp
      | cons line rest ih =>
          simp only [slots] at started
          split at started
          case isTrue path =>
            refine List.forall_mem_cons.mpr ⟨path, ih (n + 1) fun module member => ?_⟩
            exact started module (by simp [member])
          case isFalse => exact absurd (started Module.empty (by simp)) not_started_empty
    rw [slots_of_paths paths] at started
    exact ⟨paths, fun start member => started start.2 (List.mem_map_of_mem member)⟩
  · rintro ⟨paths, started⟩ module member
    rw [slots_of_paths paths] at member
    obtain ⟨start, startMember, rfl⟩ := List.mem_map.mp member
    exact started start startMember

structure LoadedFrom (startModule : StartModule) (lines : List (List Char)) (loaded : Loaded) :
    Prop where
  mods : loaded.mods =
    slots startModule 0 lines ++ List.replicate (maxMods - lines.length) Module.empty
  modsCount : loaded.modsCount = (upToPaths lines).length
  starts : loaded.starts = startsOf startModule 0 lines

theorem loadedFrom_nil :
    LoadedFrom startModule [] ⟨List.replicate maxMods Module.empty, 0, []⟩ :=
  ⟨rfl, rfl, rfl⟩

theorem LoadedFrom.loadLine {lines : List (List Char)} {loaded : Loaded}
    (before : LoadedFrom startModule lines loaded) (room : lines.length < maxMods)
    (line : List Char) :
    LoadedFrom startModule (lines ++ [line])
      (loadLine startModule lines.length line loaded) := by
  have vacant : maxMods - lines.length = (maxMods - (lines ++ [line]).length) + 1 := by
    simp only [List.length_append, List.length_singleton]
    omega
  have count := before.modsCount
  cases path : isPathLine line with
  | true =>
      simp only [YakUnshorn.loadLine, path, ↓reduceIte]
      refine ⟨?_, ?_, ?_⟩
      · simp only [before.mods, before.starts, slots_append, slots, path, ↓reduceIte]
        rw [List.set_append_right _ _ (by rw [length_slots]), length_slots, Nat.sub_self, vacant,
          List.replicate_succ, List.set_cons_zero, Nat.zero_add, List.append_assoc]
        rfl
      · rw [upToPaths, List.rdropWhile_concat_neg _ _ _ (by simp [path]), List.length_append]
        rfl
      · simp only [before.starts, startsOf_append, startsOf, path, ↓reduceIte, Nat.zero_add]
  | false =>
      simp only [YakUnshorn.loadLine, path, Bool.false_eq_true, ↓reduceIte]
      refine ⟨?_, ?_, ?_⟩
      · rw [before.mods, slots_append, vacant, List.replicate_succ]
        simp [slots, path]
      · rw [count, upToPaths, upToPaths, List.rdropWhile_concat_pos _ _ _ (by simp [path])]
      · rw [before.starts, startsOf_append]
        simp [startsOf, path]

theorem LoadedFrom.loadEach {front : List (List Char)} {loaded : Loaded}
    (before : LoadedFrom startModule front loaded) (back : List (List Char))
    (room : (front ++ back).length ≤ maxMods) :
    LoadedFrom startModule (front ++ back)
      (loadEach startModule front.length back loaded) := by
  induction back generalizing front loaded with
  | nil => simpa [YakUnshorn.loadEach] using before
  | cons line rest ih =>
      simp only [List.length_append, List.length_cons] at room
      have next := before.loadLine (by omega) line
      have later := ih next (by simp only [List.length_append, List.length_singleton]; omega)
      simpa [YakUnshorn.loadEach] using later

def loadLines (content : List Char) : List (List Char) := readLines maxLine maxMods content

theorem loadModules_eq (startModule : StartModule) (content : List Char) :
    ∃ loaded, loadModules startModule (some content) = some loaded ∧
      LoadedFrom startModule (loadLines content) loaded := by
  refine ⟨_, rfl, ?_⟩
  rw [loadLoop_eq startModule maxMods 0 content _ (Nat.zero_add _)]
  exact loadedFrom_nil.loadEach (loadLines content) (length_readLines_le _ _ _)

end Loading

section Unloading

variable {answer : Nat → Int} {freed : List Pointer}

def Module.PathGone (freed : List Pointer) (module : Module) : Prop :=
  module.path = 0 ∨ module.path ∈ freed

theorem complain_ok {module : Module} (gone : module.PathGone freed) {result : Int}
    (quiet : complain freed module result = .ok ()) : result = 0 := by
  by_contra failed
  rw [complain, if_pos failed, readPath] at quiet
  split at quiet
  case isTrue => cases quiet
  case isFalse nonzero =>
    rw [if_pos (gone.resolve_left nonzero)] at quiet
    cases quiet

def Module.quietCalls (module : Module) : CallTrace := module.shutdownCalls.map fun call => (call, 0)

theorem unloadModule_quiet (freed : List Pointer) {trace : CallTrace} {module : Module}
    (started : module.Started) (stops : answer trace.length = 0)
    (unloads : answer (trace.length + 1) = 0) :
    unloadModule answer freed trace module = .ok (trace ++ module.quietCalls, 0) := by
  simp [unloadModule, complain, started.1, started.2, stops, unloads, Module.quietCalls,
    Module.shutdownCalls]

theorem unloadModule_ok {trace : CallTrace} {module : Module} (gone : module.PathGone freed)
    {result : CallTrace × Int} (unloaded : unloadModule answer freed trace module = .ok result) :
    module.Started ∧ answer trace.length = 0 ∧ answer (trace.length + 1) = 0 := by
  rw [unloadModule] at unloaded
  split at unloaded
  case isTrue => cases unloaded
  case isFalse stop =>
    dsimp only at unloaded
    split at unloaded
    case h_1 => cases unloaded
    case h_2 stopped =>
      split at unloaded
      case isTrue => cases unloaded
      case isFalse unload =>
        split at unloaded
        case h_1 => cases unloaded
        case h_2 quiet =>
          have unloads := complain_ok gone quiet
          rw [List.length_append, List.length_singleton] at unloads
          exact ⟨⟨stop, unload⟩, complain_ok gone stopped, unloads⟩

/-- The loop returns only when there is a started module in every slot it comes to, and none of
them fails to stop or to unload. -/
theorem unloadLoop_ok (before : List Module) {modules after : List Module} {trace : CallTrace}
    {code : Int} {result : CallTrace × Int} (gone : ∀ module ∈ modules, module.PathGone freed)
    (unloaded : unloadLoop answer freed (before ++ modules ++ after) modules.length before.length
      (trace, code) = .ok result) :
    (∀ module ∈ modules, module.Started) ∧
      ∀ n < 2 * modules.length, answer (trace.length + n) = 0 := by
  induction modules generalizing before trace code with
  | nil => simp
  | cons module rest ih =>
      simp only [List.length_cons, unloadLoop, List.append_assoc, List.cons_append,
        List.getElem?_append_right (Nat.le_refl _), Nat.sub_self, List.getElem?_cons_zero]
        at unloaded
      cases stopped : unloadModule answer freed trace module with
      | error fault => simp [stopped] at unloaded
      | ok middle =>
          obtain ⟨started, stops, unloads⟩ := unloadModule_ok (gone module (by simp)) stopped
          rw [unloadModule_quiet freed started stops unloads] at unloaded
          obtain ⟨others, answers⟩ := ih (before ++ [module])
            (fun later member => gone later (by simp [member])) (by simpa using unloaded)
          refine ⟨List.forall_mem_cons.mpr ⟨started, others⟩, fun n bound => ?_⟩
          match n with
          | 0 => exact stops
          | 1 => exact unloads
          | n + 2 =>
              have later := answers n (by rw [List.length_cons] at bound; omega)
              rw [List.length_append] at later
              rw [← later]
              simp only [Module.quietCalls, Module.shutdownCalls, List.map_cons, List.map_nil,
                List.length_cons, List.length_nil]
              congr 1
              omega

theorem unloadLoop_quiet (freed : List Pointer) (before after : List Module)
    {modules : List Module} (trace : CallTrace) (code : Int)
    (started : ∀ module ∈ modules, module.Started)
    (answers : ∀ n < 2 * modules.length, answer (trace.length + n) = 0) :
    unloadLoop answer freed (before ++ modules ++ after) modules.length before.length
      (trace, code) = .ok (trace ++ modules.flatMap Module.quietCalls, code) := by
  induction modules generalizing before trace with
  | nil => simp [unloadLoop]
  | cons module rest ih =>
      rw [List.length_cons] at answers
      have here := unloadModule_quiet freed (started module (by simp))
        (answers 0 (by omega)) (answers 1 (by omega))
      have later := ih (before ++ [module]) (trace ++ module.quietCalls)
        (fun other member => started other (by simp [member])) (fun n bound => by
          rw [List.length_append, Module.quietCalls, Module.shutdownCalls, List.length_map,
            Nat.add_assoc]
          exact answers _ (by simp only [List.length_cons, List.length_nil]; omega))
      simp only [List.length_cons, unloadLoop, List.append_assoc, List.cons_append,
        List.getElem?_append_right (Nat.le_refl _), Nat.sub_self, List.getElem?_cons_zero, here]
      simpa using later

theorem quietCalls_fst (modules : List Module) :
    (modules.flatMap Module.quietCalls).map Prod.fst = modules.flatMap Module.shutdownCalls := by
  rw [List.map_flatMap]
  rfl

end Unloading

def Loaded.started (loaded : Loaded) : List Module :=
  (loaded.starts.map Prod.snd).filter fun module => module.Started

/-- After loading, unloading stops and then unloads each module that started, once, and makes no
other call, dereferences no null pointer and reads no freed memory. It returns nonzero when one of
the calls did. -/
def ShutsDown (startModule : StartModule) (answer : Nat → Int) (content : List Char) : Prop :=
  ∃ loaded trace code, loadModules startModule (some content) = some loaded ∧
    unloadModules answer loaded.freed loaded.mods loaded.modsCount = .ok (trace, code) ∧
    (∃ order : List Module, order.Perm loaded.started ∧
      trace.map Prod.fst = order.flatMap Module.shutdownCalls) ∧
    (code ≠ 0 ↔ ∃ call ∈ trace, call.2 ≠ 0)

def PathsFirst (lines : List (List Char)) : Prop :=
  lines.Pairwise fun earlier later => isPathLine later = true → isPathLine earlier = true

theorem upToPaths_split (lines : List (List Char)) :
    ∃ skipped, lines = upToPaths lines ++ skipped ∧
      ∀ line ∈ skipped, isPathLine line = false := by
  refine ⟨lines.rtakeWhile fun line => !isPathLine line, ?_, ?_⟩
  · exact List.rdropWhile_append_rtakeWhile.symm
  · intro line member
    simpa using List.mem_rtakeWhile_imp member

theorem pathsFirst_iff (lines : List (List Char)) :
    PathsFirst lines ↔ ∀ line ∈ upToPaths lines, isPathLine line = true := by
  obtain ⟨skipped, split, skips⟩ := upToPaths_split lines
  constructor
  · intro ordered line member
    rw [PathsFirst, split, List.pairwise_append] at ordered
    have endsInPath (nonempty : upToPaths lines ≠ []) :
        isPathLine ((upToPaths lines).getLast nonempty) = true := by
      simpa [upToPaths] using List.rdropWhile_last_not _ lines nonempty
    rcases List.eq_nil_or_concat' (upToPaths lines) with empty | ⟨front, last, shape⟩
    · simp [empty] at member
    · have lastPath : isPathLine last = true := by
        simpa [shape] using endsInPath (by simp [shape])
      rw [shape] at member ordered
      rcases List.mem_append.mp member with earlier | here
      · exact (List.pairwise_append.mp ordered.1).2.2 line earlier last (by simp) lastPath
      · rw [List.mem_singleton.mp here]
        exact lastPath
  · intro paths
    rw [PathsFirst, split, List.pairwise_append]
    refine ⟨List.pairwise_iff_forall_sublist.mpr ?_, List.pairwise_iff_forall_sublist.mpr ?_, ?_⟩
    · intro earlier later both _
      exact paths earlier (both.subset (by simp))
    · intro earlier later both path
      rw [skips later (both.subset (by simp))] at path
      simp at path
    · intro earlier member later _ _
      exact paths earlier member

theorem startsOf_upToPaths (startModule : StartModule) (lines : List (List Char)) :
    startsOf startModule 0 (upToPaths lines) = startsOf startModule 0 lines := by
  obtain ⟨skipped, split, skips⟩ := upToPaths_split lines
  conv_rhs => rw [split, startsOf_append, startsOf_none skips, List.append_nil]

theorem LoadedFrom.mods_split {startModule : StartModule} {lines : List (List Char)}
    {loaded : Loaded} (loadedFrom : LoadedFrom startModule lines loaded) :
    ∃ after, loaded.mods = slots startModule 0 (upToPaths lines) ++ after := by
  obtain ⟨skipped, split, -⟩ := upToPaths_split lines
  have appended := slots_append startModule 0 (upToPaths lines) skipped
  rw [← split] at appended
  rw [loadedFrom.mods, appended, List.append_assoc]
  exact ⟨_, rfl⟩

theorem slots_pathGone (startModule : StartModule) (n : Nat) (lines : List (List Char)) :
    ∀ module ∈ slots startModule n lines,
      module.PathGone ((startsOf startModule n lines).map fun start => start.2.path) := by
  induction lines generalizing n with
  | nil => simp [slots]
  | cons line rest ih =>
      cases path : isPathLine line with
      | false =>
          simp only [slots, startsOf, path, Bool.false_eq_true, ↓reduceIte]
          exact List.forall_mem_cons.mpr ⟨.inl rfl, ih n⟩
      | true =>
          simp only [slots, startsOf, path, ↓reduceIte, List.map_cons]
          refine List.forall_mem_cons.mpr ⟨.inr List.mem_cons_self, fun module member => ?_⟩
          exact (ih (n + 1) module member).imp_right (List.mem_cons_of_mem _)

theorem LoadedFrom.pathGone {startModule : StartModule} {lines : List (List Char)}
    {loaded : Loaded} (loadedFrom : LoadedFrom startModule lines loaded) :
    ∀ module ∈ loaded.mods, module.PathGone loaded.freed := by
  intro module member
  rw [loadedFrom.mods] at member
  rcases List.mem_append.mp member with slot | vacant
  · rw [Loaded.freed, loadedFrom.starts]
    exact slots_pathGone startModule 0 lines module slot
  · exact .inl (congrArg Module.path (List.eq_of_mem_replicate vacant))

/-- For every load list, every outcome of the starts and every result of the calls, the modules
are shut down as they should exactly when, among the lines that are looked at, none that is
skipped stands in front of a path, every path starts successfully, and none of these modules fails
to stop or to unload: the message about that reads a path that is freed. -/
theorem shuts_down_iff (startModule : StartModule) (answer : Nat → Int) (content : List Char) :
    ShutsDown startModule answer content ↔
      PathsFirst (loadLines content) ∧
        (∀ start ∈ startsOf startModule 0 (loadLines content), start.2.Started) ∧
        ∀ n < 2 * (startsOf startModule 0 (loadLines content)).length, answer n = 0 := by
  obtain ⟨loaded, returned, loadedFrom⟩ := loadModules_eq startModule content
  obtain ⟨after, mods⟩ := loadedFrom.mods_split
  have count : loaded.modsCount =
      (slots startModule 0 (upToPaths (loadLines content))).length := by
    rw [length_slots, loadedFrom.modsCount]
  rw [pathsFirst_iff, ← and_assoc, ← startsOf_upToPaths, ← slots_started_iff]
  have paired (started : ∀ module ∈ slots startModule 0 (upToPaths (loadLines content)),
      module.Started) : slots startModule 0 (upToPaths (loadLines content)) =
        (startsOf startModule 0 (upToPaths (loadLines content))).map Prod.snd :=
    slots_of_paths ((slots_started_iff 0 _).mp started).1 0
  constructor
  · rintro ⟨loaded', trace, code, returned', unloaded, -, -⟩
    rw [returned] at returned'
    rw [← Option.some.inj returned', unloadModules, mods, count] at unloaded
    obtain ⟨started, answers⟩ := unloadLoop_ok [] (fun module member =>
      loadedFrom.pathGone module (mods ▸ List.mem_append_left after member)) unloaded
    refine ⟨started, fun n bound => ?_⟩
    simpa using answers n (by rwa [paired started, List.length_map])
  · rintro ⟨started, answers⟩
    have quiet := unloadLoop_quiet loaded.freed [] after [] 0 started fun n bound => by
      rw [paired started, List.length_map] at bound
      exact answers (0 + n) (by rwa [Nat.zero_add])
    refine ⟨loaded, (slots startModule 0 (upToPaths (loadLines content))).flatMap
      Module.quietCalls, 0, returned, ?_, ⟨_, ?_, quietCalls_fst _⟩, ?_⟩
    · rw [unloadModules, mods, count]
      exact quiet
    · rw [Loaded.started, loadedFrom.starts, ← startsOf_upToPaths, ← paired started,
        List.filter_eq_self.mpr (by simpa using started)]
    · simp [Module.quietCalls]

theorem comment_first_faults :
    ¬ShutsDown (fun _ _ => ⟨1, 0x10, 0x30, 0x20⟩) (fun _ => 0) ['#', '\n', 'm', '\n'] := by
  let module : Module := ⟨1, 0x10, 0x30, 0x20⟩
  let array := [Module.empty, module, Module.empty, Module.empty]
  rintro ⟨loaded, trace, code, returned, unloaded, -⟩
  have loads : loadModules (fun _ _ => module) (some ['#', '\n', 'm', '\n']) =
      some ⟨array, 2, [(['m'], module)]⟩ := by decide
  have faults : unloadModules (fun _ => 0) [1] array 2 = .error .nullDereference := by decide
  rw [loads] at returned
  rw [← Option.some.inj returned] at unloaded
  have impossible := faults.symm.trans unloaded
  simp at impossible

example : unloadModules (fun _ => 1) [0x60] [⟨0x60, 0x10, 0x30, 0x20⟩] 1 = .error .useAfterFree :=
  by decide

def withoutNewline (line : List Char) : List Char := line.takeWhile fun char => char ≠ '\n'

def passedPaths (startModule : StartModule) (content : List Char) : Option (List (List Char)) :=
  (loadModules startModule (some content)).map fun loaded => loaded.starts.map Prod.fst

def firstPaths (content : List Char) : List (List Char) :=
  (((lines content).filter isPathLine).take maxMods).map withoutNewline

/-- No comment or blank line takes the place of a path that comes later, and no path among the
lines that are looked at holds a null character. -/
def PathsReached (content : List Char) : Prop :=
  ((∀ line ∈ (lines content).take maxMods, isPathLine line = true) ∨
      ∀ line ∈ (lines content).drop maxMods, isPathLine line = false) ∧
    ∀ line ∈ ((lines content).take maxMods).filter isPathLine, Char.ofNat 0 ∉ line

theorem withoutNewline_plain {text : List Char} (plain : '\n' ∉ text) :
    withoutNewline text = text := by
  rw [withoutNewline, List.takeWhile_eq_self_iff]
  intro char member
  simpa using fun same : char = '\n' => plain (same ▸ member)

theorem withoutNewline_line {text : List Char} (plain : '\n' ∉ text) :
    withoutNewline (text ++ ['\n']) = text := by
  rw [withoutNewline, takeWhile_append_stop (by simp)]
  exact withoutNewline_plain plain

theorem line_text {content line : List Char} (member : line ∈ lines content) :
    ∃ text, withoutNewline line = text ∧ line.length ≤ text.length + 1 ∧
      (cutLine line = text ↔ Char.ofNat 0 ∉ line) := by
  obtain ⟨text, plain, shape⟩ := mem_lines member
  have takes (passes : Char → Bool) (stops : passes '\n' = false) :
      line.takeWhile passes = text.takeWhile passes := by
    rcases shape with rfl | ⟨rfl, -⟩
    · exact takeWhile_append_stop stops text
    · rfl
  refine ⟨text, ?_, ?_, ?_⟩
  · rcases shape with rfl | ⟨rfl, -⟩
    · exact withoutNewline_line plain
    · exact withoutNewline_plain plain
  · rcases shape with rfl | ⟨rfl, -⟩ <;> simp
  · have inside : Char.ofNat 0 ∈ line ↔ Char.ofNat 0 ∈ text := by
      rcases shape with rfl | ⟨rfl, -⟩
      · simp
      · rfl
    rw [cutLine, takes _ (by simp), List.takeWhile_eq_self_iff, inside]
    constructor
    · intro passes nul
      simpa using passes _ nul
    · intro absent char charMember
      simp only [decide_eq_true_eq]
      refine ⟨?_, ?_⟩ <;> rintro rfl <;> contradiction

theorem cutLine_eq_iff {content line : List Char} (member : line ∈ lines content) :
    cutLine line = withoutNewline line ↔ Char.ofNat 0 ∉ line := by
  obtain ⟨text, rfl, -, cut⟩ := line_text member
  exact cut

theorem loadLines_short {content : List Char}
    (short : ∀ line ∈ lines content, (withoutNewline line).length < maxLine - 1) :
    loadLines content = (lines content).take maxMods := by
  apply readLines_eq
  intro line member
  obtain ⟨text, rfl, longer, -⟩ := line_text member
  have := short line member
  simp only [maxLine] at this ⊢
  omega

theorem passedPaths_lines (startModule : StartModule) (content : List Char) :
    passedPaths startModule content =
      some (((loadLines content).filter isPathLine).map cutLine) := by
  obtain ⟨loaded, returned, loadedFrom⟩ := loadModules_eq startModule content
  rw [passedPaths, returned, Option.map_some, loadedFrom.starts, startsOf_paths]

theorem passedPaths_eq (startModule : StartModule) {content : List Char}
    (short : ∀ line ∈ lines content, (withoutNewline line).length < maxLine - 1) :
    passedPaths startModule content =
      some ((((lines content).take maxMods).filter isPathLine).map cutLine) := by
  rw [passedPaths_lines, loadLines_short short]

theorem take_filter {α : Type} (keeps : α → Bool) (items : List α) (count : Nat) :
    ∃ missed, (items.filter keeps).take count = (items.take count).filter keeps ++ missed ∧
      (missed = [] ↔ (∀ item ∈ items.take count, keeps item = true) ∨
        ∀ item ∈ items.drop count, keeps item = false) := by
  have length : ((items.take count).filter keeps).length ≤ (items.take count).length :=
    List.length_filter_le _ _
  have taken : (items.take count).length ≤ count := by
    rw [List.length_take]
    exact Nat.min_le_left _ _
  refine ⟨((items.drop count).filter keeps).take
    (count - ((items.take count).filter keeps).length), ?_, ?_⟩
  · conv_lhs => rw [← List.take_append_drop count items, List.filter_append, List.take_append,
      List.take_of_length_le (Nat.le_trans length taken)]
  · have none : (items.drop count).filter keeps = [] ↔
        ∀ item ∈ items.drop count, keeps item = false := by
      simp [List.filter_eq_nil_iff]
    rw [List.take_eq_nil_iff, none]
    constructor
    · rintro (full | absent)
      · exact Or.inl (List.length_filter_eq_length_iff.mp (by omega))
      · exact Or.inr absent
    · rintro (all | absent)
      · have whole := List.length_filter_eq_length_iff.mpr all
        by_cases enough : count ≤ items.length
        · left
          rw [whole, List.length_take, Nat.min_eq_left enough, Nat.sub_self]
        · right
          simp [List.drop_eq_nil_of_le (Nat.le_of_not_le enough)]
      · exact Or.inr absent

/-- For every load list of short lines, the paths that are passed on are the first paths of the
list exactly when no skipped line takes the place of a later path and no null character cuts one
off. Between such lists, comment and blank lines make no difference. -/
theorem passed_paths_iff (startModule : StartModule) (content : List Char)
    (short : ∀ line ∈ lines content, (withoutNewline line).length < maxLine - 1) :
    (passedPaths startModule content = some (firstPaths content) ↔ PathsReached content) ∧
      ∀ other, (∀ line ∈ lines other, (withoutNewline line).length < maxLine - 1) →
        (lines other).filter isPathLine = (lines content).filter isPathLine →
          PathsReached content → PathsReached other →
            passedPaths startModule other = passedPaths startModule content := by
  have each (content : List Char)
      (short : ∀ line ∈ lines content, (withoutNewline line).length < maxLine - 1) :
      passedPaths startModule content = some (firstPaths content) ↔ PathsReached content := by
    obtain ⟨missed, split, none⟩ := take_filter isPathLine (lines content) maxMods
    have inside (line : List Char)
        (member : line ∈ ((lines content).take maxMods).filter isPathLine) :
        line ∈ lines content :=
      List.mem_of_mem_take (List.mem_of_mem_filter member)
    rw [passedPaths_eq startModule short, Option.some.injEq, firstPaths, split, List.map_append,
      PathsReached, ← none]
    constructor
    · intro same
      have lengths := congrArg List.length same
      simp only [List.length_append, List.length_map] at lengths
      have empty : missed = [] := List.length_eq_zero_iff.mp (by omega)
      refine ⟨empty, fun line member => (cutLine_eq_iff (inside line member)).mp ?_⟩
      rw [empty, List.map_nil, List.append_nil, List.map_inj_left] at same
      exact same line member
    · rintro ⟨rfl, absent⟩
      rw [List.map_nil, List.append_nil, List.map_inj_left]
      exact fun line member => (cutLine_eq_iff (inside line member)).mpr (absent line member)
  refine ⟨each content short, fun other otherShort same reached otherReached => ?_⟩
  rw [(each content short).mpr reached, (each other otherShort).mpr otherReached, firstPaths,
    firstPaths, same]

theorem passed_paths_iff_two :
    let startModule : StartModule := fun _ _ => Module.empty
    let content := ['a', '\n', 'b', 'c']
    (passedPaths startModule content = some (firstPaths content) ↔ PathsReached content) ∧
      ∀ other, (∀ line ∈ lines other, (withoutNewline line).length < maxLine - 1) →
        (lines other).filter isPathLine = (lines content).filter isPathLine →
          PathsReached content → PathsReached other →
            passedPaths startModule other = passedPaths startModule content :=
  passed_paths_iff _ _ (by decide)

theorem comments_use_up_modules :
    let content := ['#', '\n', '#', '\n', '#', '\n', '#', '\n', 'm', '\n']
    (∀ line ∈ lines content, (withoutNewline line).length < maxLine - 1) ∧
      firstPaths content = [['m']] ∧
      passedPaths (fun _ _ => ⟨1, 0x10, 0x30, 0x20⟩) content = some [] := by
  decide

end YakUnshorn
