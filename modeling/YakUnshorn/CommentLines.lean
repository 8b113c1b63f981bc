import YakUnshorn.OxmodGrammar
import YakUnshorn.ModuleLifecycle
import Mathlib.Tactic.IntervalCases

/-!
Comment lines that are too long for the buffer. What `fgets` delivers of such a line behind its
first piece is read as further lines.
-/

namespace YakUnshorn

open CMachine LineReader Scanf

def commentLine (text : List Char) : List Char := '#' :: text ++ ['\n']

def commentPieces (text : List Char) : List (List Char) := chunks maxLine (commentLine text)

/-- A line that changes no setting, wherever it stands. -/
structure Inert (line : List Char) : Prop where
  runtime : ∀ word, ¬Sets .runtime line word
  lib : ∀ word, ¬Sets .lib line word
  dlopenFlag : ∀ word, Sets .dlopenFlag line word →
    word ≠ rtldGlobalFlag ∧ word.length < maxValue

theorem Inert.effect {line : List Char} (inert : Inert line) :
    lineEffect line .runtime = none ∧ lineEffect line .lib = none ∧
      lineEffect line .dlopenFlag ≠ some rtldGlobalFlag ∧
      OxmodState.flagFits (lineEffect line) = true := by
  refine ⟨(lineEffect_none_iff _ _).mpr inert.runtime, (lineEffect_none_iff _ _).mpr inert.lib, ?_,
    ?_⟩
  · intro given
    exact (inert.dlopenFlag _ ((lineEffect_iff _ _ _).mp given)).1 rfl
  · refine fitsValue_iff.mpr fun word given => ?_
    exact (inert.dlopenFlag word ((lineEffect_iff _ _ _).mp given)).2

theorem inert_of_effect {line : List Char} (runtime : lineEffect line .runtime = none)
    (lib : lineEffect line .lib = none) (flag : lineEffect line .dlopenFlag ≠ some rtldGlobalFlag)
    (fits : OxmodState.flagFits (lineEffect line) = true) : Inert line where
  runtime := (lineEffect_none_iff _ _).mp runtime
  lib := (lineEffect_none_iff _ _).mp lib
  dlopenFlag word sets := by
    have given := (lineEffect_iff .dlopenFlag line word).mpr sets
    refine ⟨fun same => flag (same ▸ given), ?_⟩
    exact fitsValue_iff.mp fits word given

theorem inert_of_skipped {line : List Char} (skipped : isSkipped line = true) : Inert line := by
  have none (key : OxmodKey) (word : List Char) : ¬Sets key line word := by
    intro sets
    rw [not_skipped_of_sets sets] at skipped
    cases skipped
  exact ⟨none .runtime, none .lib, fun word sets => absurd sets (none .dlopenFlag word)⟩

theorem OxmodState.step_inert (state : OxmodState) {line : List Char} (inert : Inert line) :
    state.step (lineEffect line) = state := by
  obtain ⟨runtime, lib, flag, fits⟩ := inert.effect
  by_cases complete : state.config.Complete
  · by_cases native : state.config.Native
    · rw [step_native native, applyFlag, if_neg flag, fits, Bool.and_true]
    · exact step_other complete native _
  · rw [step, if_pos complete, OxmodConfig.apply, runtime, lib]
    simp [fitsValue]

theorem OxmodState.foldl_inert {lines : List (List Char)} (inert : ∀ line ∈ lines, Inert line)
    (state : OxmodState) : (lines.map lineEffect).foldl step state = state := by
  induction lines with
  | nil => rfl
  | cons line rest ih =>
      obtain ⟨here, behind⟩ := List.forall_mem_cons.mp inert
      rw [List.map_cons, List.foldl_cons, step_inert state here]
      exact ih behind

theorem OxmodState.keys_unset {state : OxmodState} {effect : LineEffect}
    (same : (state.step effect).config = .empty) :
    state.config = .empty ∧ effect .runtime = none ∧ effect .lib = none := by
  by_cases complete : state.config.Complete
  · have kept : (state.step effect).config = state.config := by
      rw [step, if_neg (not_not.mpr complete)]
      split <;> rfl
    rw [← kept, same] at complete
    exact absurd complete (by decide)
  · rw [step, if_pos complete] at same
    obtain ⟨runtime, lib⟩ := OxmodConfig.mk.inj same
    rw [Option.or_eq_none_iff] at runtime lib
    refine ⟨?_, runtime.1, lib.1⟩
    calc
      state.config = ⟨state.config.runtime, state.config.lib⟩ := rfl
      _ = .empty := by rw [runtime.2, lib.2]; rfl

theorem no_keys_of_empty {effects : List LineEffect}
    (same : (effects.foldl OxmodState.step .start).config = .empty) :
    ∀ effect ∈ effects, effect .runtime = none ∧ effect .lib = none := by
  induction effects using List.reverseRecOn with
  | nil => simp
  | append_singleton front effect ih =>
      rw [List.foldl_append, List.foldl_cons, List.foldl_nil] at same
      obtain ⟨before, runtime, lib⟩ := OxmodState.keys_unset same
      exact List.forall_mem_append.mpr ⟨ih before, by simp [runtime, lib]⟩

theorem applyFlag_now {flags : Nat} {effect : LineEffect}
    (same : applyFlag flags effect = rtldNow) :
    flags = rtldNow ∧ effect .dlopenFlag ≠ some rtldGlobalFlag := by
  rw [applyFlag] at same
  split at same
  case isTrue =>
    have bit : Nat.testBit rtldNow 8 = true := by
      rw [← same, Nat.testBit_or, show Nat.testBit rtldGlobal 8 = true by decide, Bool.or_true]
    exact absurd bit (by decide)
  case isFalse other => exact ⟨same, other⟩

theorem no_flag_of_now {effects : List LineEffect}
    (same : effects.foldl applyFlag rtldNow = rtldNow) :
    ∀ effect ∈ effects, effect .dlopenFlag ≠ some rtldGlobalFlag := by
  induction effects using List.reverseRecOn with
  | nil => simp
  | append_singleton front effect ih =>
      rw [List.foldl_append, List.foldl_cons, List.foldl_nil] at same
      obtain ⟨before, other⟩ := applyFlag_now same
      exact List.forall_mem_append.mpr ⟨ih before, by simpa using other⟩

theorem lineEnd_commentLine (text : List Char) : LineEnd (commentLine text) :=
  lineEnd_of_getLast (by rw [commentLine, List.getLast?_append]; rfl)

theorem chunks_inserted {front : List Char} (ended : LineEnd front) (text back : List Char) :
    chunks maxLine (front ++ (commentLine text ++ back)) =
      chunks maxLine front ++ (commentPieces text ++ chunks maxLine back) := by
  rw [chunks_append maxLine_roomy ended, chunks_append maxLine_roomy (lineEnd_commentLine text)]
  rfl

theorem effectsOf_inserted {front : List Char} (ended : LineEnd front) (text back : List Char) :
    effectsOf (front ++ (commentLine text ++ back)) =
      effectsOf front ++ ((commentPieces text).map lineEffect ++ effectsOf back) := by
  rw [effectsOf, chunks_inserted ended, List.map_append, List.map_append, effectsOf, effectsOf]

theorem effectsOf_nil : effectsOf [] = [] := rfl

theorem effectsOf_append {front : List Char} (ended : LineEnd front) (back : List Char) :
    effectsOf (front ++ back) = effectsOf front ++ effectsOf back := by
  rw [effectsOf, chunks_append maxLine_roomy ended, List.map_append, effectsOf, effectsOf]

def commentTail (text : List Char) : List (List Char) := (commentPieces text).tail

theorem commentPieces_eq (text : List Char) :
    ∃ piece, commentPieces text = ('#' :: piece) :: commentTail text := by
  obtain ⟨piece, left, -, -, split⟩ := chunks_first maxLine_roomy '#' (text ++ ['\n'])
  refine ⟨piece, ?_⟩
  have same : commentPieces text = ('#' :: piece) :: chunks maxLine left := split
  rw [commentTail, same, List.tail_cons]

theorem inert_commentPieces_iff (text : List Char) :
    (∀ piece ∈ commentPieces text, Inert piece) ↔ ∀ piece ∈ commentTail text, Inert piece := by
  obtain ⟨piece, split⟩ := commentPieces_eq text
  rw [split, List.forall_mem_cons]
  exact and_iff_right (inert_of_skipped (by simp [isSkipped]))

theorem OxmodState.settings_ok {state : OxmodState} {settings : OxmodConfig × Nat}
    (same : state.settings = .ok settings) :
    state.config = settings.1 ∧ state.flags = settings.2 ∧ state.fits = true := by
  rw [OxmodState.settings] at same
  split at same
  case isTrue fits =>
    obtain rfl := Except.ok.inj same
    exact ⟨rfl, rfl, fits⟩
  case isFalse => cases same

def bothKeys : List Char := "runtime native\nlib x\n".toList

theorem bothKeys_state : (effectsOf bothKeys).foldl OxmodState.step .start =
    ⟨⟨some nativeRuntime, some ['x']⟩, rtldNow, true⟩ := by
  decide

theorem inert_of_unchanged {text : List Char}
    (unchanged : ∀ front back, LineEnd front →
      oxmodSettings (front ++ (commentLine text ++ back)) = oxmodSettings (front ++ back)) :
    ∀ piece ∈ commentPieces text, Inert piece := by
  have keys : ∀ effect ∈ (commentPieces text).map lineEffect,
      effect .runtime = none ∧ effect .lib = none := by
    have same := unchanged [] [] lineEnd_nil
    rw [oxmodSettings_eq, effectsOf_inserted lineEnd_nil, effectsOf_nil, List.nil_append,
      List.append_nil] at same
    exact no_keys_of_empty (OxmodState.settings_ok same).1
  have ended : LineEnd bothKeys := lineEnd_of_getLast (by decide)
  have native : OxmodConfig.Native ⟨some nativeRuntime, some ['x']⟩ := ⟨rfl, rfl⟩
  have same := unchanged bothKeys [] ended
  have settings : oxmodSettings bothKeys =
      .ok (⟨some nativeRuntime, some ['x']⟩, rtldNow) := by
    rw [oxmodSettings_eq, bothKeys_state]
    rfl
  rw [List.append_nil bothKeys, settings, oxmodSettings_eq, effectsOf_inserted ended,
    List.foldl_append, List.foldl_append, bothKeys_state, OxmodState.foldl_native native,
    effectsOf_nil, List.foldl_nil] at same
  obtain ⟨-, flags, fits⟩ := OxmodState.settings_ok same
  rw [Bool.true_and, List.all_eq_true] at fits
  intro piece member
  have inside : lineEffect piece ∈ (commentPieces text).map lineEffect :=
    List.mem_map_of_mem member
  exact inert_of_effect (keys _ inside).1 (keys _ inside).2 (no_flag_of_now flags _ inside)
    (fits _ inside)

theorem settings_unchanged_iff (text : List Char) :
    (∀ front back, LineEnd front →
        oxmodSettings (front ++ (commentLine text ++ back)) = oxmodSettings (front ++ back)) ↔
      ∀ piece ∈ commentTail text, Inert piece := by
  rw [← inert_commentPieces_iff]
  refine ⟨inert_of_unchanged, fun inert front back ended => ?_⟩
  rw [oxmodSettings_eq, oxmodSettings_eq, effectsOf_inserted ended, effectsOf_append ended,
    List.foldl_append, List.foldl_append, List.foldl_append, OxmodState.foldl_inert inert]

def pathsOf (pieces : List (List Char)) : List (List Char) :=
  (pieces.filter isPathLine).map cutLine

theorem pathsOf_append (front back : List (List Char)) :
    pathsOf (front ++ back) = pathsOf front ++ pathsOf back := by
  rw [pathsOf, List.filter_append, List.map_append, pathsOf, pathsOf]

theorem passedPaths_pieces (startModule : StartModule) (content : List Char) :
    passedPaths startModule content = some (pathsOf ((chunks maxLine content).take maxMods)) := by
  rw [passedPaths_lines, loadLines, readLines_take maxLine_roomy, pathsOf]

section LoadLists

variable (text front back : List Char)

def piecesLeft : Nat := maxMods - (chunks maxLine front).length

def gainedPaths : List (List Char) := pathsOf ((commentPieces text).take (piecesLeft front))

def keptPaths : List (List Char) :=
  pathsOf ((chunks maxLine back).take (piecesLeft front - (commentPieces text).length))

def lostPaths : List (List Char) :=
  pathsOf (((chunks maxLine back).take (piecesLeft front)).drop
    (piecesLeft front - (commentPieces text).length))

variable {front}

theorem passedPaths_inserted (startModule : StartModule) (ended : LineEnd front) :
    passedPaths startModule (front ++ (commentLine text ++ back)) =
      some (pathsOf ((chunks maxLine front).take maxMods) ++
        (gainedPaths text front ++ keptPaths text front back)) := by
  rw [passedPaths_pieces, chunks_inserted ended, List.take_append, List.take_append,
    pathsOf_append, pathsOf_append, gainedPaths, keptPaths, piecesLeft]

theorem passedPaths_original (startModule : StartModule) (ended : LineEnd front) :
    passedPaths startModule (front ++ back) =
      some (pathsOf ((chunks maxLine front).take maxMods) ++
        (keptPaths text front back ++ lostPaths text front back)) := by
  have split : (chunks maxLine back).take (piecesLeft front) =
      (chunks maxLine back).take (piecesLeft front - (commentPieces text).length) ++
        ((chunks maxLine back).take (piecesLeft front)).drop
          (piecesLeft front - (commentPieces text).length) := by
    conv_lhs => rw [← List.take_append_drop
      (piecesLeft front - (commentPieces text).length) ((chunks maxLine back).take _)]
    rw [List.take_take, Nat.min_eq_left (Nat.sub_le _ _)]
  rw [passedPaths_pieces, chunks_append maxLine_roomy ended, List.take_append, pathsOf_append,
    ← piecesLeft, split, pathsOf_append, keptPaths, lostPaths]

theorem passed_unchanged_iff (startModule : StartModule) (ended : LineEnd front) :
    passedPaths startModule (front ++ (commentLine text ++ back)) =
        passedPaths startModule (front ++ back) ↔
      gainedPaths text front ++ keptPaths text front back =
        keptPaths text front back ++ lostPaths text front back := by
  rw [passedPaths_inserted text back startModule ended,
    passedPaths_original text back startModule ended, Option.some.injEq,
    List.append_cancel_left_eq]

end LoadLists

theorem one_piece_iff {text : List Char} (plain : '\n' ∉ text) :
    (commentPieces text).length = 1 ↔ text.length + 2 < maxLine := by
  have plainLine : '\n' ∉ '#' :: text := by simpa using plain
  exact chunks_line_iff maxLine_roomy plainLine

theorem unchanged_of_one_piece (startModule : StartModule) {text front back : List Char}
    (one : (commentPieces text).length = 1) (ended : LineEnd front)
    (short : (chunks maxLine (front ++ back)).length < maxMods) :
    passedPaths startModule (front ++ (commentLine text ++ back)) =
      passedPaths startModule (front ++ back) := by
  rw [passed_unchanged_iff text back startModule ended]
  rw [chunks_append maxLine_roomy ended, List.length_append] at short
  have rest : (chunks maxLine back).length ≤ piecesLeft front - 1 := by
    unfold piecesLeft
    omega
  have gained : gainedPaths text front = [] := by
    obtain ⟨piece, split⟩ := commentPieces_eq text
    rw [split, List.length_cons, Nat.add_eq_right, List.length_eq_zero_iff] at one
    have skipped : isPathLine ('#' :: piece) = false := by simp [isPathLine]
    rw [gainedPaths, split, one]
    cases piecesLeft front <;> simp [pathsOf, skipped]
  have lost : lostPaths text front back = [] := by
    rw [lostPaths, one, List.drop_of_length_le]
    · rfl
    · exact Nat.le_trans (List.length_take_le' _ _) rest
  rw [gained, lost, List.nil_append, List.append_nil]

def threePaths : List Char := "a\nb\nc\n".toList

theorem one_piece_of_unchanged (startModule : StartModule) {text : List Char}
    (unchanged : ∀ front back, LineEnd front →
      (chunks maxLine (front ++ back)).length < maxMods →
        passedPaths startModule (front ++ (commentLine text ++ back)) =
          passedPaths startModule (front ++ back)) : (commentPieces text).length = 1 := by
  have pieces : chunks maxLine threePaths = [['a', '\n'], ['b', '\n'], ['c', '\n']] := by decide
  have gained : gainedPaths text [] = [] := by
    have same := unchanged [] [] lineEnd_nil (by decide)
    rw [passed_unchanged_iff text [] startModule lineEnd_nil] at same
    simpa [keptPaths, lostPaths, pathsOf, chunks, readLines] using same
  have same := unchanged [] threePaths lineEnd_nil (by rw [List.nil_append, pieces]; decide)
  rw [passed_unchanged_iff text threePaths startModule lineEnd_nil, gained, List.nil_append,
    List.self_eq_append_right] at same
  obtain ⟨piece, split⟩ := commentPieces_eq text
  have some : 1 ≤ (commentPieces text).length := by simp [split]
  by_contra more
  obtain ⟨left, leftEq, few⟩ : ∃ left, maxMods - (commentPieces text).length = left ∧ left ≤ 2 :=
    ⟨_, rfl, by unfold maxMods; omega⟩
  have room : piecesLeft [] = maxMods := rfl
  rw [lostPaths, room, leftEq, pieces] at same
  revert same
  clear leftEq
  interval_cases left <;> decide

/-- A comment changes the settings of no `oxmod` file exactly when nothing behind its first piece
does. The paths of a load list stay the same exactly when those the comment adds and those it keeps
from being read make no difference to the sequence, and in all lists with a piece to spare exactly
when the comment fits into the buffer. -/
theorem comment_harmless_iff (startModule : StartModule) {text : List Char}
    (plain : '\n' ∉ text) :
    ((∀ front back, LineEnd front →
          oxmodSettings (front ++ (commentLine text ++ back)) = oxmodSettings (front ++ back)) ↔
        ∀ piece ∈ commentTail text, Inert piece) ∧
      (∀ front back, LineEnd front →
        (passedPaths startModule (front ++ (commentLine text ++ back)) =
            passedPaths startModule (front ++ back) ↔
          gainedPaths text front ++ keptPaths text front back =
            keptPaths text front back ++ lostPaths text front back)) ∧
      ((∀ front back, LineEnd front → (chunks maxLine (front ++ back)).length < maxMods →
          passedPaths startModule (front ++ (commentLine text ++ back)) =
            passedPaths startModule (front ++ back)) ↔
        text.length + 2 < maxLine) := by
  refine ⟨settings_unchanged_iff text, ?_, ?_⟩
  · exact fun front back ended => passed_unchanged_iff text back startModule ended
  · rw [← one_piece_iff plain]
    refine ⟨one_piece_of_unchanged startModule, fun one front back ended short => ?_⟩
    exact unchanged_of_one_piece startModule one ended short

theorem comment_harmless_iff_short :
    let startModule : StartModule := fun _ _ => Module.empty
    ((∀ front back, LineEnd front →
          oxmodSettings (front ++ (commentLine ['x'] ++ back)) = oxmodSettings (front ++ back)) ↔
        ∀ piece ∈ commentTail ['x'], Inert piece) ∧
      (∀ front back, LineEnd front →
        (passedPaths startModule (front ++ (commentLine ['x'] ++ back)) =
            passedPaths startModule (front ++ back) ↔
          gainedPaths ['x'] front ++ keptPaths ['x'] front back =
            keptPaths ['x'] front back ++ lostPaths ['x'] front back)) ∧
      ((∀ front back, LineEnd front → (chunks maxLine (front ++ back)).length < maxMods →
          passedPaths startModule (front ++ (commentLine ['x'] ++ back)) =
            passedPaths startModule (front ++ back)) ↔
        ['x'].length + 2 < maxLine) :=
  comment_harmless_iff _ (by decide)

/-- With its `#` it fills the buffer once, and `lib y` is read as the next line. -/
def longComment : List Char := List.replicate 1022 'x' ++ "lib y".toList

theorem long_comment_sets_lib :
    '\n' ∉ longComment ∧
      nativeCall ("runtime native\n".toList ++ "lib x\n".toList) =
        .ok (some (['x'], rtldNow)) ∧
      nativeCall ("runtime native\n".toList ++ (commentLine longComment ++ "lib x\n".toList)) =
        .ok (some (['y'], rtldNow)) ∧
      passedPaths (fun _ _ => Module.empty) ("a\n".toList ++ "b\n".toList) =
        some [['a'], ['b']] ∧
      passedPaths (fun _ _ => Module.empty)
          ("a\n".toList ++ (commentLine longComment ++ "b\n".toList)) =
        some [['a'], "lib y".toList, ['b']] := by
  decide +kernel

end YakUnshorn
