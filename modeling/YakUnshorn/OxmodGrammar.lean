import YakUnshorn.OxmodReading

/-!
Which lines of an `oxmod` file count for a key, and how long the words may be that they give.
-/

namespace YakUnshorn

open CMachine LineReader Scanf

/-- The line is the key and, behind any white space or none, the word. -/
def Sets (key : OxmodKey) (line word : List Char) : Prop :=
  ∃ tail gap, cString line = key.name ++ tail ∧ Word tail gap word

def KeyLine (key : OxmodKey) (line word : List Char) : Prop :=
  ∃ tail gap, cString line = key.name ++ tail ∧ Word tail gap word ∧ gap ≠ []

def Glued (key : OxmodKey) (line : List Char) : Prop :=
  ∃ char rest, cString line = key.name ++ char :: rest ∧ isSpace char = false

theorem format_directives (key : OxmodKey) :
    directives key.format = key.name.map .plain ++ [.space, .word] := by
  cases key <;> decide

theorem scanValue_iff (key : OxmodKey) (line word : List Char) :
    scanValue key line = some word ↔ Sets key line word := by
  have scanned := scan_key_iff key.name (cString line) word
  rw [← format_directives] at scanned
  unfold scanValue sscanf
  rw [Sets, ← scanned]
  constructor
  · intro one
    split at one
    case h_1 value stored => rw [stored, Option.some.inj one]
    case h_2 => cases one
  · intro stored
    rw [stored]

theorem OxmodKey.name_letter (key : OxmodKey) :
    ∃ letter others, key.name = letter :: others ∧ letter ≠ '#' ∧ letter ≠ '\n' := by
  cases key
  · exact ⟨'r', "untime".toList, by decide⟩
  · exact ⟨'l', "ib".toList, by decide⟩
  · exact ⟨'d', "lopen_flag".toList, by decide⟩

theorem not_skipped_of_sets {key : OxmodKey} {line word : List Char}
    (sets : Sets key line word) : isSkipped line = false := by
  obtain ⟨tail, gap, split, -⟩ := sets
  obtain ⟨letter, others, named, plain⟩ := key.name_letter
  cases line with
  | nil => rfl
  | cons first rest =>
      have same : first = letter := by
        have front := congrArg List.head? split
        rw [named, cString, List.takeWhile_cons] at front
        split at front
        case isTrue => simpa using front
        case isFalse => simp at front
      rw [same]
      simpa [isSkipped] using plain

theorem lineEffect_iff (key : OxmodKey) (line word : List Char) :
    lineEffect line key = some word ↔ Sets key line word := by
  by_cases skipped : isSkipped line = true
  · rw [lineEffect_skipped skipped]
    refine iff_of_false (by simp) fun sets => ?_
    rw [not_skipped_of_sets sets] at skipped
    cases skipped
  · rw [lineEffect_read skipped, scanValue_iff]

theorem KeyLine.sets {key : OxmodKey} {line word : List Char} (keyLine : KeyLine key line word) :
    Sets key line word := by
  obtain ⟨tail, gap, split, behind, -⟩ := keyLine
  exact ⟨tail, gap, split, behind⟩

theorem KeyLine.not_glued {key : OxmodKey} {line word : List Char}
    (keyLine : KeyLine key line word) : ¬Glued key line := by
  rintro ⟨char, rest, glued, solid⟩
  obtain ⟨tail, gap, split, ⟨later, rfl, gaps, -⟩, some⟩ := keyLine
  obtain ⟨first, others, rfl⟩ := List.exists_cons_of_ne_nil some
  rw [glued, List.append_cancel_left_eq, List.cons_append, List.cons.injEq] at split
  have space := gaps first List.mem_cons_self
  rw [← split.1, solid] at space
  cases space

theorem Glued.sets {key : OxmodKey} {line : List Char} (glued : Glued key line) :
    ∃ word, Sets key line word := by
  obtain ⟨char, rest, split, solid⟩ := glued
  have some : nextWord (char :: rest) ≠ [] := by
    simp [nextWord, solid]
  exact ⟨_, char :: rest, _, split, nextWord_word some⟩

theorem glued_of_sets {key : OxmodKey} {line word : List Char} (sets : Sets key line word)
    (other : ¬KeyLine key line word) : Glued key line := by
  obtain ⟨tail, gap, split, behind⟩ := sets
  have none : gap = [] := by
    by_contra some
    exact other ⟨tail, gap, split, behind, some⟩
  subst none
  obtain ⟨rest, rfl, -, full, solid, -⟩ := behind
  obtain ⟨char, later, rfl⟩ := List.exists_cons_of_ne_nil full
  exact ⟨char, later ++ rest, split, solid char List.mem_cons_self⟩

theorem reads_keyLine_iff (key : OxmodKey) (line : List Char) :
    (∀ word, lineEffect line key = some word ↔ KeyLine key line word) ↔ ¬Glued key line := by
  simp only [lineEffect_iff]
  constructor
  · intro exact glued
    obtain ⟨word, sets⟩ := glued.sets
    exact ((exact word).mp sets).not_glued glued
  · intro apart word
    refine ⟨fun sets => ?_, KeyLine.sets⟩
    by_contra other
    exact apart (glued_of_sets sets other)

def KeysSeen (lines : List (List Char)) : Prop :=
  (∃ line ∈ lines, ∃ word, Sets .runtime line word) ∧ ∃ line ∈ lines, ∃ word, Sets .lib line word

/-- The last line that gives a runtime before both keys have been seen. -/
def RuntimeRead (lines : List (List Char)) (word : List Char) : Prop :=
  ∃ front line back, lines = front ++ line :: back ∧ ¬KeysSeen front ∧ Sets .runtime line word ∧
    ∀ between later rest, back = between ++ later :: rest →
      ¬KeysSeen (front ++ line :: between) → ∀ other, ¬Sets .runtime later other

theorem foldl_or_isSome {Item Value : Type} (gives : Item → Option Value) (items : List Item)
    (initial : Option Value) :
    (items.foldl (fun last item => (gives item).or last) initial).isSome ↔
      initial.isSome ∨ ∃ item ∈ items, (gives item).isSome := by
  induction items generalizing initial with
  | nil => simp
  | cons item rest ih =>
      rw [List.foldl_cons, ih, Option.isSome_or, Bool.or_eq_true, List.exists_mem_cons_iff]
      tauto

theorem foldl_or_some {Item Value : Type} (gives : Item → Option Value) (items : List Item)
    (initial : Option Value) (value : Value) :
    items.foldl (fun last item => (gives item).or last) initial = some value ↔
      (∃ front item back, items = front ++ item :: back ∧ gives item = some value ∧
        ∀ later ∈ back, gives later = none) ∨
      initial = some value ∧ ∀ item ∈ items, gives item = none := by
  induction items generalizing initial with
  | nil => simp
  | cons item rest ih =>
      rw [List.foldl_cons, ih]
      constructor
      · rintro (⟨front, found, back, rfl, given, later⟩ | ⟨given, later⟩)
        · exact Or.inl ⟨item :: front, found, back, rfl, given, later⟩
        · cases here : gives item with
          | none =>
              rw [here, Option.none_or] at given
              exact Or.inr ⟨given, List.forall_mem_cons.mpr ⟨here, later⟩⟩
          | some first =>
              rw [here, Option.some_or] at given
              exact Or.inl ⟨[], item, rest, rfl, here.trans given, later⟩
      · rintro (⟨front, found, back, split, given, later⟩ | ⟨given, later⟩)
        · cases front with
          | nil =>
              obtain ⟨rfl, rfl⟩ := List.cons.inj split
              exact Or.inr ⟨by rw [given, Option.some_or], later⟩
          | cons first front =>
              obtain ⟨rfl, rfl⟩ := List.cons.inj split
              exact Or.inl ⟨front, found, back, rfl, given, later⟩
        · obtain ⟨here, behind⟩ := List.forall_mem_cons.mp later
          exact Or.inr ⟨by rw [here, Option.none_or, given], behind⟩

theorem foldl_runtime (effects : List LineEffect) (config : OxmodConfig) :
    (effects.foldl OxmodConfig.apply config).runtime =
      effects.foldl (fun last effect => (effect .runtime).or last) config.runtime := by
  induction effects generalizing config with
  | nil => rfl
  | cons effect rest ih => exact ih (config.apply effect)

theorem foldl_lib (effects : List LineEffect) (config : OxmodConfig) :
    (effects.foldl OxmodConfig.apply config).lib =
      effects.foldl (fun last effect => (effect .lib).or last) config.lib := by
  induction effects generalizing config with
  | nil => rfl
  | cons effect rest ih => exact ih (config.apply effect)

theorem lineEffect_isSome_iff (key : OxmodKey) (line : List Char) :
    (lineEffect line key).isSome ↔ ∃ word, Sets key line word := by
  simp only [Option.isSome_iff_exists, lineEffect_iff]

theorem lineEffect_none_iff (key : OxmodKey) (line : List Char) :
    lineEffect line key = none ↔ ∀ word, ¬Sets key line word := by
  simp only [← lineEffect_iff, Option.eq_none_iff_forall_ne_some, ne_eq]

theorem configAfter_complete_iff (lines : List (List Char)) :
    (configAfter lines).Complete ↔ KeysSeen lines := by
  rw [OxmodConfig.Complete, configAfter, foldl_runtime, foldl_lib, foldl_or_isSome,
    foldl_or_isSome, KeysSeen]
  simp [OxmodConfig.empty, lineEffect_isSome_iff]

theorem configAfter_runtime_iff (lines : List (List Char)) (word : List Char) :
    (configAfter lines).runtime = some word ↔
      ∃ front line back, lines = front ++ line :: back ∧ Sets .runtime line word ∧
        ∀ later ∈ back, ∀ other, ¬Sets .runtime later other := by
  rw [configAfter, foldl_runtime, List.foldl_map,
    foldl_or_some (fun line => lineEffect line .runtime)]
  simp [OxmodConfig.empty, lineEffect_iff, lineEffect_none_iff]

namespace OxmodReads

variable {content : List Char} {oxmod : Oxmod} {rest : List (List Char)}

theorem complete_of_seen (reads : OxmodReads content oxmod rest) {front back : List (List Char)}
    {line : List Char} (text : chunks maxLine content = front ++ line :: back)
    (seen : (configAfter front).Complete) : oxmod.config.Complete := by
  by_contra missing
  obtain ⟨between, behind⟩ := (reads.split text).1 seen
  rw [reads.whole missing] at behind
  simp at behind

theorem complete_iff (reads : OxmodReads content oxmod rest) :
    oxmod.config.Complete ↔ KeysSeen (chunks maxLine content) := by
  constructor
  · intro complete
    rw [reads.config, configAfter_complete_iff] at complete
    obtain ⟨⟨runtimeLine, runtimeRead, runtime⟩, libLine, libRead, lib⟩ := complete
    rw [reads.text]
    exact ⟨⟨runtimeLine, List.mem_append_left rest runtimeRead, runtime⟩, libLine,
      List.mem_append_left rest libRead, lib⟩
  · intro seen
    by_contra missing
    rw [reads.text, reads.whole missing, List.append_nil, ← configAfter_complete_iff,
      ← reads.config] at seen
    exact missing seen

theorem runtime_iff (reads : OxmodReads content oxmod rest) (word : List Char) :
    oxmod.config.runtime = some word ↔ RuntimeRead (chunks maxLine content) word := by
  rw [reads.config, configAfter_runtime_iff]
  constructor
  · rintro ⟨front, line, back, read, sets, last⟩
    have text : chunks maxLine content = front ++ line :: (back ++ rest) := by
      rw [reads.text, read, List.append_assoc, List.cons_append]
    refine ⟨front, line, back ++ rest, text, ?_, sets, ?_⟩
    · rw [← configAfter_complete_iff]
      exact reads.early front line back read
    · intro between later others behind missing
      have further : chunks maxLine content = (front ++ line :: between) ++ later :: others := by
        rw [text, behind, List.append_assoc, List.cons_append]
      rw [← configAfter_complete_iff] at missing
      obtain ⟨more, readOn⟩ := (reads.split further).2 missing
      rw [read, List.append_assoc, List.cons_append, List.append_cancel_left_eq,
        List.cons.injEq] at readOn
      exact last later (by simp [readOn.2])
  · rintro ⟨front, line, back, text, missing, sets, last⟩
    rw [← configAfter_complete_iff] at missing
    obtain ⟨more, read⟩ := (reads.split text).2 missing
    refine ⟨front, line, more, read, sets, fun later member => ?_⟩
    obtain ⟨between, others, behind⟩ := List.append_of_mem member
    have whole := reads.text
    rw [text, read, behind, List.append_assoc, List.append_cancel_left_eq, List.cons_append,
      List.cons.injEq, List.append_assoc, List.cons_append] at whole
    refine last between later (others ++ rest) whole.2 ?_
    rw [← configAfter_complete_iff]
    refine reads.early (front ++ line :: between) later others ?_
    rw [read, behind, List.append_assoc, List.cons_append]

end OxmodReads

/-- A property of the lines that each loop reads, as one of the lines of the file. -/
theorem read_lines_iff (content : List Char) (holds : OxmodKey → List Char → Prop) :
    ((∀ line ∈ (readOxmod content).configLines, ∀ key ∈ [OxmodKey.runtime, .lib], holds key line) ∧
        ∀ line ∈ (readOxmod content).flagLines, holds .dlopenFlag line) ↔
      ∀ front line back, chunks maxLine content = front ++ line :: back →
        (¬KeysSeen front → holds .runtime line ∧ holds .lib line) ∧
        (KeysSeen front → RuntimeRead (chunks maxLine content) nativeRuntime →
          holds .dlopenFlag line) := by
  obtain ⟨rest, reads⟩ := readOxmod_reads content
  simp only [reads.mem_configLines, reads.mem_flagLines, configAfter_complete_iff]
  constructor
  · rintro ⟨keys, flags⟩ front line back text
    refine ⟨fun missing => ⟨?_, ?_⟩, fun seen native => ?_⟩
    · exact keys line ⟨front, back, text, missing⟩ .runtime (by simp)
    · exact keys line ⟨front, back, text, missing⟩ .lib (by simp)
    · have complete := reads.complete_of_seen text ((configAfter_complete_iff front).mpr seen)
      have config : (readOxmod content).config.Native :=
        ⟨(reads.runtime_iff nativeRuntime).mpr native, complete.2⟩
      exact flags line ⟨config, front, back, text, seen⟩
  · intro all
    constructor
    · rintro line ⟨front, back, text, missing⟩ key member
      have both := (all front line back text).1 missing
      rcases List.mem_pair.mp member with rfl | rfl
      · exact both.1
      · exact both.2
    · rintro line ⟨native, front, back, text, seen⟩
      exact (all front line back text).2 seen ((reads.runtime_iff nativeRuntime).mp native.1)

/-- The settings are what the lines that each loop reads give, and these are taken for the keys of
the loop by the grammar exactly when none of them goes on directly behind one of these keys. -/
theorem key_grammar_iff (content : List Char) :
    ((readOxmod content).config = configAfter (readOxmod content).configLines ∧
        (readOxmod content).flags =
          ((readOxmod content).flagLines.map lineEffect).foldl applyFlag rtldNow) ∧
      (((∀ line ∈ (readOxmod content).configLines, ∀ key ∈ [OxmodKey.runtime, .lib], ∀ word,
            lineEffect line key = some word ↔ KeyLine key line word) ∧
          ∀ line ∈ (readOxmod content).flagLines, ∀ word,
            lineEffect line .dlopenFlag = some word ↔ KeyLine .dlopenFlag line word) ↔
        ∀ front line back, chunks maxLine content = front ++ line :: back →
          (¬KeysSeen front → ¬Glued .runtime line ∧ ¬Glued .lib line) ∧
          (KeysSeen front → RuntimeRead (chunks maxLine content) nativeRuntime →
            ¬Glued .dlopenFlag line)) := by
  obtain ⟨rest, reads⟩ := readOxmod_reads content
  refine ⟨⟨reads.config, reads.flags_eq⟩, ?_⟩
  simp only [reads_keyLine_iff]
  exact read_lines_iff content fun key line => ¬Glued key line

theorem library_line_sets_lib :
    "library x\n".toList ∈ (readOxmod "runtime native\nlibrary x\n".toList).configLines ∧
      lineEffect "library x\n".toList .lib = some "rary".toList ∧
      nativeCall "runtime native\nlibrary x\n".toList = .ok (some ("rary".toList, rtldNow)) ∧
      ¬KeyLine .lib "library x\n".toList "rary".toList := by
  refine ⟨by decide, by decide, by decide, fun keyLine => keyLine.not_glued ?_⟩
  exact ⟨'r', "ary x\n".toList, by decide, by decide⟩

/-- The line gives a word that does not fit into `value` with its terminator. -/
def LongWord (key : OxmodKey) (line : List Char) : Prop :=
  ∃ word, Sets key line word ∧ maxValue ≤ word.length

theorem fits_iff (key : OxmodKey) (line : List Char) :
    fitsValue (lineEffect line key) = true ↔ ¬LongWord key line := by
  simp only [fitsValue_iff, lineEffect_iff, LongWord, not_exists, not_and, Nat.not_le]
  rfl

/-- The words that the two loops store fit into `value` exactly when no line that is read for a
key gives a long word for it. -/
theorem values_fit_iff_no_long_word (content : List Char) :
    (∀ value ∈ (readOxmod content).values, value.length + 1 ≤ maxValue) ↔
      ∀ front line back, chunks maxLine content = front ++ line :: back →
        (¬KeysSeen front → ¬LongWord .runtime line ∧ ¬LongWord .lib line) ∧
        (KeysSeen front → RuntimeRead (chunks maxLine content) nativeRuntime →
          ¬LongWord .dlopenFlag line) := by
  rw [Oxmod.values, List.forall_mem_append, storedValues_fit_iff, storedValues_fit_iff,
    ← read_lines_iff content fun key line => ¬LongWord key line]
  simp only [fits_iff, List.mem_singleton, forall_eq]

def longLib : List Char := "runtime native\nlib ".toList ++ List.replicate 64 'x' ++ ['\n']

/-- A path of 64 characters: its terminator is stored behind the 64 bytes of `value`. -/
theorem long_lib_overruns :
    oxmodSettings longLib = .error .outOfBounds ∧
      ¬∀ value ∈ (readOxmod longLib).values, value.length + 1 ≤ maxValue := by
  have stored : (readOxmod longLib).values = [nativeRuntime, List.replicate 64 'x'] := by
    decide +kernel
  have long : ¬∀ value ∈ (readOxmod longLib).values, value.length + 1 ≤ maxValue := by
    rw [stored]
    decide
  refine ⟨?_, long⟩
  rw [oxmodSettings]
  exact if_neg long

end YakUnshorn
