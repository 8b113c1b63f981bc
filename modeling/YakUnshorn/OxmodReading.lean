import YakUnshorn.Oxmod

/-!
What the lines of an `oxmod` file do to the settings. The two loops that share the stream are one
fold over the lines, and a line counts by what it sets and by what is known before it.
-/

namespace YakUnshorn

open CMachine LineReader

abbrev LineEffect := OxmodKey → Option (List Char)

def lineEffect (line : List Char) : LineEffect := fun key =>
  if isSkipped line then none else scanValue key line

def OxmodConfig.empty : OxmodConfig := ⟨none, none⟩

def OxmodConfig.apply (config : OxmodConfig) (effect : LineEffect) : OxmodConfig where
  runtime := (effect .runtime).or config.runtime
  lib := (effect .lib).or config.lib

def configAfter (lines : List (List Char)) : OxmodConfig :=
  (lines.map lineEffect).foldl OxmodConfig.apply .empty

def applyFlag (flags : Nat) (effect : LineEffect) : Nat :=
  if effect .dlopenFlag = some rtldGlobalFlag then flags ||| rtldGlobal else flags

def fitsValue (value : Option (List Char)) : Bool :=
  value.all fun word => word.length + 1 ≤ maxValue

structure OxmodState where
  config : OxmodConfig
  flags : Nat
  fits : Bool
  deriving Repr, DecidableEq

def OxmodState.start : OxmodState := ⟨.empty, rtldNow, true⟩

/-- One line: for the keys as long as one is missing, then for the flags, if the runtime has
any. -/
def OxmodState.step (state : OxmodState) (effect : LineEffect) : OxmodState :=
  if ¬state.config.Complete then
    { state with
      config := state.config.apply effect
      fits := state.fits && (fitsValue (effect .runtime) && fitsValue (effect .lib)) }
  else if state.config.Native then
    { state with
      flags := applyFlag state.flags effect
      fits := state.fits && fitsValue (effect .dlopenFlag) }
  else state

def OxmodState.settings (state : OxmodState) : Except Fault (OxmodConfig × Nat) :=
  if state.fits then .ok (state.config, state.flags) else .error .outOfBounds

def effectsOf (content : List Char) : List LineEffect := (chunks maxLine content).map lineEffect

theorem maxLine_roomy : 2 ≤ maxLine := by decide

theorem lineEffect_skipped {line : List Char} (skipped : isSkipped line = true) (key : OxmodKey) :
    lineEffect line key = none := by
  simp [lineEffect, skipped]

theorem lineEffect_read {line : List Char} (read : ¬isSkipped line = true) (key : OxmodKey) :
    lineEffect line key = scanValue key line := by
  simp [lineEffect, read]

theorem apply_skipped (config : OxmodConfig) {line : List Char}
    (skipped : isSkipped line = true) : config.apply (lineEffect line) = config := by
  simp [OxmodConfig.apply, lineEffect_skipped skipped]

theorem apply_read (config : OxmodConfig) {line : List Char}
    (read : ¬isSkipped line = true) : config.apply (lineEffect line) = config.scan line := by
  simp [OxmodConfig.apply, OxmodConfig.scan, lineEffect_read read]

theorem mem_storedValues {keys : List OxmodKey} {lines : List (List Char)} {value : List Char} :
    value ∈ storedValues keys lines ↔
      ∃ line ∈ lines, ∃ key ∈ keys, lineEffect line key = some value := by
  simp only [storedValues, List.mem_flatMap, List.mem_filter, List.mem_filterMap, and_assoc]
  constructor
  · rintro ⟨line, member, read, key, keyMember, scanned⟩
    refine ⟨line, member, key, keyMember, ?_⟩
    rw [lineEffect_read (by simpa using read), scanned]
  · rintro ⟨line, member, key, keyMember, set⟩
    by_cases skipped : isSkipped line = true
    · rw [lineEffect_skipped skipped] at set
      cases set
    · refine ⟨line, member, by simpa using skipped, key, keyMember, ?_⟩
      rw [← lineEffect_read skipped, set]

/-- The lines that the first loop reads are those up to the one that completes the keys. -/
structure ConfigLines (config : OxmodConfig) (content : List Char)
    (result : OxmodConfig × List (List Char) × List Char) (lines : List (List Char)) : Prop where
  text : chunks maxLine content = lines ++ chunks maxLine result.2.2
  outcome : result.1 = (lines.map lineEffect).foldl OxmodConfig.apply config
  early : ∀ front line back, lines = front ++ line :: back →
    ¬((front.map lineEffect).foldl OxmodConfig.apply config).Complete
  whole : ¬result.1.Complete → result.2.2 = []

theorem ConfigLines.cons {config : OxmodConfig} {content line rest : List Char}
    {result : OxmodConfig × List (List Char) × List Char} {lines : List (List Char)}
    (later : ConfigLines (config.apply (lineEffect line)) rest result lines)
    (read : fgets maxLine content = some (line, rest)) (incomplete : ¬config.Complete) :
    ConfigLines config content result (line :: lines) where
  text := by rw [chunks_cons maxLine_roomy read, later.text, List.cons_append]
  outcome := later.outcome
  early front query back split := by
    cases front with
    | nil => exact incomplete
    | cons first others =>
        obtain ⟨rfl, behind⟩ := List.cons.inj split
        exact later.early others query back behind
  whole := later.whole

theorem configLines_last {config : OxmodConfig} {content line rest : List Char}
    (read : fgets maxLine content = some (line, rest)) (incomplete : ¬config.Complete)
    (completes : (config.apply (lineEffect line)).Complete) (seen : List (List Char)) :
    ConfigLines config content (config.apply (lineEffect line), seen, rest) [line] where
  text := chunks_cons maxLine_roomy read
  outcome := rfl
  early front query back split := by
    cases front with
    | nil => exact incomplete
    | cons first others => simp at split
  whole open_ := absurd completes open_

theorem configLines_done (config : OxmodConfig) (seen : List (List Char)) :
    ConfigLines config [] (config, seen, []) [] where
  text := rfl
  outcome := rfl
  early front query back split := by simp at split
  whole _ := rfl

theorem shorter_of_fgets {fuel : Nat} {content line rest : List Char}
    (read : fgets maxLine content = some (line, rest)) (enough : content.length ≤ fuel + 1) :
    rest.length ≤ fuel := by
  obtain ⟨split, full⟩ := fgets_append maxLine_roomy read
  have lengths := congrArg List.length split
  have := List.length_pos_iff.mpr full
  rw [List.length_append] at lengths
  omega

theorem configLoop_reads {fuel : Nat} {content : List Char} {config : OxmodConfig}
    (enough : content.length ≤ fuel) (incomplete : ¬config.Complete) (seen : List (List Char)) :
    ∃ lines, (configLoop fuel content config seen).2.1 = seen ++ lines ∧
      ConfigLines config content (configLoop fuel content config seen) lines := by
  induction fuel generalizing content config seen with
  | zero =>
      rw [List.length_eq_zero_iff.mp (Nat.le_zero.mp enough)]
      exact ⟨[], (List.append_nil _).symm, configLines_done config seen⟩
  | succ fuel ih =>
      cases read : fgets maxLine content with
      | none =>
          cases content with
          | nil => exact ⟨[], (List.append_nil _).symm, configLines_done config seen⟩
          | cons char later => cases read
      | some result =>
          obtain ⟨line, rest⟩ := result
          have shorter := shorter_of_fgets read enough
          by_cases skipped : isSkipped line = true
          · obtain ⟨lines, trace, reads⟩ := ih shorter incomplete (seen ++ [line])
            simp only [configLoop, read, if_pos skipped]
            refine ⟨line :: lines, by rw [trace, List.append_assoc, List.singleton_append], ?_⟩
            rw [← apply_skipped config skipped] at reads
            have done := reads.cons read incomplete
            rwa [apply_skipped config skipped] at done
          · by_cases completes : (config.scan line).Complete
            · simp only [configLoop, read, if_neg skipped, if_pos completes]
              refine ⟨[line], rfl, ?_⟩
              rw [← apply_read config skipped] at completes ⊢
              exact configLines_last read incomplete completes _
            · obtain ⟨lines, trace, reads⟩ := ih shorter completes (seen ++ [line])
              simp only [configLoop, read, if_neg skipped, if_neg completes]
              refine ⟨line :: lines, by rw [trace, List.append_assoc, List.singleton_append], ?_⟩
              rw [← apply_read config skipped] at reads ⊢
              exact reads.cons read incomplete

theorem applyFlag_skipped (flags : Nat) {line : List Char} (skipped : isSkipped line = true) :
    applyFlag flags (lineEffect line) = flags := by
  rw [applyFlag, lineEffect_skipped skipped]
  exact if_neg fun same => by cases same

theorem applyFlag_read (flags : Nat) {line : List Char} (read : ¬isSkipped line = true) :
    applyFlag flags (lineEffect line) = flagsOf flags line := by
  rw [applyFlag, lineEffect_read read, flagsOf]

theorem flagLoop_reads {fuel : Nat} {content : List Char} (enough : content.length ≤ fuel)
    (flags : Nat) (seen : List (List Char)) :
    flagLoop fuel content flags seen =
      ((effectsOf content).foldl applyFlag flags, seen ++ chunks maxLine content) := by
  unfold effectsOf
  induction fuel generalizing content flags seen with
  | zero =>
      rw [List.length_eq_zero_iff.mp (Nat.le_zero.mp enough)]
      simp [flagLoop, chunks, readLines_nil]
  | succ fuel ih =>
      cases read : fgets maxLine content with
      | none =>
          cases content with
          | nil => simp [flagLoop, fgets, chunks, readLines_nil]
          | cons char later => cases read
      | some result =>
          obtain ⟨line, rest⟩ := result
          have shorter := shorter_of_fgets read enough
          rw [chunks_cons maxLine_roomy read, List.map_cons, List.foldl_cons]
          by_cases skipped : isSkipped line = true
          · simp only [flagLoop, read, if_pos skipped, ih shorter, applyFlag_skipped flags skipped,
              List.append_assoc, List.singleton_append]
          · simp only [flagLoop, read, if_neg skipped, ih shorter, applyFlag_read flags skipped,
              List.append_assoc, List.singleton_append]

/-- What both loops have read, where `rest` are the lines behind the first loop. -/
structure OxmodReads (content : List Char) (oxmod : Oxmod) (rest : List (List Char)) : Prop where
  text : chunks maxLine content = oxmod.configLines ++ rest
  config : oxmod.config = configAfter oxmod.configLines
  early : ∀ front line back, oxmod.configLines = front ++ line :: back →
    ¬(configAfter front).Complete
  whole : ¬oxmod.config.Complete → rest = []
  native : oxmod.config.Native → oxmod.flagLines = rest ∧
    oxmod.flags = (rest.map lineEffect).foldl applyFlag rtldNow
  other : ¬oxmod.config.Native → oxmod.flagLines = [] ∧ oxmod.flags = rtldNow

theorem readOxmod_reads (content : List Char) :
    ∃ rest, OxmodReads content (readOxmod content) rest := by
  have incomplete : ¬OxmodConfig.empty.Complete := by decide
  obtain ⟨lines, trace, reads⟩ :=
    configLoop_reads (Nat.le_refl content.length) incomplete []
  unfold readOxmod
  rw [show (⟨none, none⟩ : OxmodConfig) = .empty from rfl]
  rcases looped : configLoop content.length content .empty [] with ⟨config, seen, rest⟩
  rw [looped] at trace reads
  obtain rfl : seen = lines := trace
  refine ⟨chunks maxLine rest, ?_⟩
  have whole : ¬config.Complete → chunks maxLine rest = [] := by
    intro missing
    rw [show rest = [] from reads.whole missing]
    rfl
  by_cases native : config.Native
  · simp only [if_pos native, flagLoop_reads (Nat.le_refl rest.length), List.nil_append]
    exact ⟨reads.text, reads.outcome, reads.early, whole, fun _ => ⟨rfl, rfl⟩,
      fun other => absurd native other⟩
  · simp only [if_neg native]
    exact ⟨reads.text, reads.outcome, reads.early, whole, fun other => absurd other native,
      fun _ => ⟨rfl, rfl⟩⟩

theorem fitsValue_iff {value : Option (List Char)} :
    fitsValue value = true ↔ ∀ word, value = some word → word.length + 1 ≤ maxValue := by
  cases value with
  | none => simp [fitsValue]
  | some word => simp [fitsValue]

theorem storedValues_fit_iff {keys : List OxmodKey} {lines : List (List Char)} :
    (∀ value ∈ storedValues keys lines, value.length + 1 ≤ maxValue) ↔
      ∀ line ∈ lines, ∀ key ∈ keys, fitsValue (lineEffect line key) = true := by
  simp only [mem_storedValues, fitsValue_iff]
  constructor
  · exact fun fit line member key keyMember word set =>
      fit word ⟨line, member, key, keyMember, set⟩
  · rintro fit word ⟨line, member, key, keyMember, set⟩
    exact fit line member key keyMember word set

namespace OxmodState

def keysFit (effect : LineEffect) : Bool := fitsValue (effect .runtime) && fitsValue (effect .lib)

def flagFits (effect : LineEffect) : Bool := fitsValue (effect .dlopenFlag)

theorem foldl_early {config : OxmodConfig} (flags : Nat) (fits : Bool)
    {effects : List LineEffect}
    (early : ∀ front effect back, effects = front ++ effect :: back →
      ¬(front.foldl OxmodConfig.apply config).Complete) :
    effects.foldl step ⟨config, flags, fits⟩ =
      ⟨effects.foldl OxmodConfig.apply config, flags, fits && effects.all keysFit⟩ := by
  induction effects generalizing config fits with
  | nil => simp
  | cons effect rest ih =>
      have here : ¬config.Complete := early [] effect rest rfl
      have stepped : step ⟨config, flags, fits⟩ effect =
          ⟨config.apply effect, flags, fits && keysFit effect⟩ := if_pos here
      rw [List.foldl_cons, stepped, ih, List.foldl_cons, List.all_cons, Bool.and_assoc]
      intro front query back split
      exact early (effect :: front) query back (by rw [split, List.cons_append])

theorem complete_of_native {config : OxmodConfig} (native : config.Native) : config.Complete :=
  ⟨by rw [native.1]; rfl, native.2⟩

theorem step_native {state : OxmodState} (native : state.config.Native) (effect : LineEffect) :
    state.step effect =
      ⟨state.config, applyFlag state.flags effect, state.fits && flagFits effect⟩ := by
  rw [step, if_neg (not_not.mpr (complete_of_native native)), if_pos native]
  rfl

theorem step_other {state : OxmodState} (complete : state.config.Complete)
    (other : ¬state.config.Native) (effect : LineEffect) : state.step effect = state := by
  rw [step, if_neg (not_not.mpr complete), if_neg other]

theorem foldl_native {config : OxmodConfig} (native : config.Native) (flags : Nat) (fits : Bool)
    (effects : List LineEffect) :
    effects.foldl step ⟨config, flags, fits⟩ =
      ⟨config, effects.foldl applyFlag flags, fits && effects.all flagFits⟩ := by
  induction effects generalizing flags fits with
  | nil => simp
  | cons effect rest ih =>
      rw [List.foldl_cons, step_native native, ih, List.foldl_cons, List.all_cons, Bool.and_assoc]

theorem foldl_other {state : OxmodState} (complete : state.config.Complete)
    (other : ¬state.config.Native) (effects : List LineEffect) :
    effects.foldl step state = state := by
  induction effects with
  | nil => rfl
  | cons effect rest ih => rw [List.foldl_cons, step_other complete other, ih]

end OxmodState

open OxmodState in
theorem values_fit_iff (oxmod : Oxmod) :
    (∀ value ∈ oxmod.values, value.length + 1 ≤ maxValue) ↔
      (oxmod.configLines.map lineEffect).all keysFit = true ∧
        (oxmod.flagLines.map lineEffect).all flagFits = true := by
  rw [Oxmod.values, List.forall_mem_append, storedValues_fit_iff, storedValues_fit_iff]
  simp [keysFit, flagFits]

open OxmodState in
/-- The two loops of `start_module` are one fold over the lines. -/
theorem oxmodSettings_eq (content : List Char) :
    oxmodSettings content = ((effectsOf content).foldl step .start).settings := by
  obtain ⟨rest, reads⟩ := readOxmod_reads content
  have early : ∀ front effect back,
      (readOxmod content).configLines.map lineEffect = front ++ effect :: back →
      ¬(front.foldl OxmodConfig.apply .empty).Complete := by
    intro front effect back split
    obtain ⟨lines, others, same, rfl, behind⟩ := List.map_eq_append_iff.mp split
    obtain ⟨line, later, rfl, -, -⟩ := List.map_eq_cons_iff.mp behind
    exact reads.early lines line later same
  rw [effectsOf, reads.text, List.map_append, List.foldl_append, OxmodState.start,
    foldl_early rtldNow true early, ← configAfter, ← reads.config, Bool.true_and, oxmodSettings]
  by_cases native : (readOxmod content).config.Native
  · obtain ⟨flagLines, flags⟩ := reads.native native
    rw [foldl_native native, settings, ← flags]
    refine if_congr ?_ rfl rfl
    rw [values_fit_iff, flagLines, Bool.and_eq_true]
  · obtain ⟨flagLines, flags⟩ := reads.other native
    have unchanged : (rest.map lineEffect).foldl step ⟨(readOxmod content).config, rtldNow,
          ((readOxmod content).configLines.map lineEffect).all keysFit⟩ =
        ⟨(readOxmod content).config, rtldNow,
          ((readOxmod content).configLines.map lineEffect).all keysFit⟩ := by
      by_cases complete : (readOxmod content).config.Complete
      · exact foldl_other complete native _
      · rw [reads.whole complete]
        rfl
    rw [unchanged, settings, flags]
    refine if_congr ?_ rfl rfl
    rw [values_fit_iff, flagLines]
    simp

theorem OxmodConfig.Complete.apply {config : OxmodConfig} (complete : config.Complete)
    (effect : LineEffect) : (config.apply effect).Complete := by
  obtain ⟨runtime, lib⟩ := complete
  constructor
  · rw [OxmodConfig.apply, Option.isSome_or, runtime, Bool.or_true]
  · rw [OxmodConfig.apply, Option.isSome_or, lib, Bool.or_true]

theorem OxmodConfig.Complete.foldl {config : OxmodConfig} (complete : config.Complete)
    (effects : List LineEffect) : (effects.foldl OxmodConfig.apply config).Complete := by
  induction effects generalizing config with
  | nil => exact complete
  | cons effect rest ih => exact ih (complete.apply effect)

theorem configAfter_append (front back : List (List Char)) :
    configAfter (front ++ back) =
      (back.map lineEffect).foldl OxmodConfig.apply (configAfter front) := by
  rw [configAfter, List.map_append, List.foldl_append, configAfter]

namespace OxmodReads

variable {content : List Char} {oxmod : Oxmod} {rest : List (List Char)}

theorem flags_eq (reads : OxmodReads content oxmod rest) :
    oxmod.flags = (oxmod.flagLines.map lineEffect).foldl applyFlag rtldNow := by
  by_cases native : oxmod.config.Native
  · obtain ⟨flagLines, flags⟩ := reads.native native
    rw [flags, flagLines]
  · obtain ⟨flagLines, flags⟩ := reads.other native
    rw [flags, flagLines]
    rfl

/-- The first loop has stopped in front of a line exactly when the keys are complete there. -/
theorem split (reads : OxmodReads content oxmod rest) {front back : List (List Char)}
    {line : List Char} (text : chunks maxLine content = front ++ line :: back) :
    ((configAfter front).Complete → ∃ between, rest = between ++ line :: back) ∧
      (¬(configAfter front).Complete → ∃ later, oxmod.configLines = front ++ line :: later) := by
  have whole := reads.text
  rw [text] at whole
  constructor
  · intro complete
    rcases List.append_eq_append_iff.mp whole with ⟨more, read, behind⟩ | ⟨between, -, behind⟩
    · cases more with
      | nil => exact ⟨[], behind.symm⟩
      | cons first later =>
          rw [List.cons_append, List.cons.injEq] at behind
          exact absurd complete (reads.early front first later read)
    · exact ⟨between, behind⟩
  · intro incomplete
    rcases List.append_eq_append_iff.mp whole with ⟨more, read, behind⟩ | ⟨between, read, behind⟩
    · cases more with
      | nil =>
          rw [List.nil_append] at behind
          rw [List.append_nil] at read
          have none := reads.whole (by rwa [reads.config, read])
          rw [none] at behind
          cases behind
      | cons first later =>
          rw [List.cons_append, List.cons.injEq] at behind
          exact ⟨later, by rw [read, behind.1]⟩
    · have missing : ¬oxmod.config.Complete := by
        intro complete
        rw [read, configAfter_append, ← reads.config] at incomplete
        exact incomplete (complete.foldl _)
      rw [reads.whole missing] at behind
      exact absurd behind.symm (by simp)

theorem mem_configLines (reads : OxmodReads content oxmod rest) {line : List Char} :
    line ∈ oxmod.configLines ↔ ∃ front back, chunks maxLine content = front ++ line :: back ∧
      ¬(configAfter front).Complete := by
  constructor
  · intro member
    obtain ⟨front, back, read⟩ := List.append_of_mem member
    refine ⟨front, back ++ rest, ?_, reads.early front line back read⟩
    rw [reads.text, read, List.append_assoc, List.cons_append]
  · rintro ⟨front, back, text, incomplete⟩
    obtain ⟨later, read⟩ := (reads.split text).2 incomplete
    simp [read]

theorem mem_flagLines (reads : OxmodReads content oxmod rest) {line : List Char} :
    line ∈ oxmod.flagLines ↔ oxmod.config.Native ∧ ∃ front back,
      chunks maxLine content = front ++ line :: back ∧ (configAfter front).Complete := by
  by_cases native : oxmod.config.Native
  · rw [(reads.native native).1]
    constructor
    · intro member
      obtain ⟨between, back, read⟩ := List.append_of_mem member
      refine ⟨native, oxmod.configLines ++ between, back, ?_, ?_⟩
      · rw [reads.text, read, List.append_assoc]
      · rw [configAfter_append, ← reads.config]
        exact (OxmodState.complete_of_native native).foldl _
    · rintro ⟨-, front, back, text, complete⟩
      obtain ⟨between, read⟩ := (reads.split text).1 complete
      simp [read]
  · rw [(reads.other native).1]
    exact iff_of_false List.not_mem_nil fun also => native also.1

end OxmodReads

end YakUnshorn
