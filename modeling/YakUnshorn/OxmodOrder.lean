import YakUnshorn.OxmodGrammar
import YakUnshorn.ModuleLifecycle

/-!
`oxmod` files whose lines change places. A flag counts if it stands behind both keys.
-/

namespace YakUnshorn

open CMachine LineReader Scanf

def lineTexts (content : List Char) : List (List Char) := (lines content).map withoutNewline

theorem newline_not_mem_name (key : OxmodKey) : '\n' ∉ key.name := by
  cases key <;> decide

theorem scanValue_newline (key : OxmodKey) (text : List Char) :
    scanValue key (text ++ ['\n']) = scanValue key text := by
  have same : sscanf (text ++ ['\n']) key.format = sscanf text key.format := by
    rw [sscanf, sscanf, cString_append (by decide)]
    split
    case isTrue whole =>
      rw [format_directives, scan_key_append_space (by decide) (newline_not_mem_name key), whole]
    case isFalse => rfl
  rw [scanValue, scanValue, same]

theorem lineEffect_newline (text : List Char) : lineEffect (text ++ ['\n']) = lineEffect text := by
  funext key
  cases text with
  | nil =>
      rw [List.nil_append, lineEffect_skipped (by decide), lineEffect_read (by decide)]
      cases key <;> decide
  | cons first rest =>
      have skipped : isSkipped (first :: rest ++ ['\n']) = isSkipped (first :: rest) := rfl
      rw [lineEffect, lineEffect, skipped, scanValue_newline]

theorem lineEffect_withoutNewline {content line : List Char} (member : line ∈ lines content) :
    lineEffect line = lineEffect (withoutNewline line) := by
  obtain ⟨text, plain, rfl | ⟨rfl, -⟩⟩ := mem_lines member
  · rw [withoutNewline_line plain, lineEffect_newline]
  · rw [withoutNewline_plain plain]

theorem effectsOf_texts {content : List Char}
    (short : ∀ text ∈ lineTexts content, text.length < maxLine - 1) :
    effectsOf content = (lineTexts content).map lineEffect := by
  have fit : ∀ line ∈ lines content, line.length < maxLine := by
    intro line member
    obtain ⟨text, rfl, longer, -⟩ := line_text member
    have := short _ (List.mem_map_of_mem member)
    unfold maxLine at *
    omega
  rw [effectsOf, chunks_eq_lines fit, lineTexts, List.map_map]
  exact List.map_congr_left fun line member => lineEffect_withoutNewline member

def Comment (text : List Char) : Prop := text.head? = some '#'

def Blank (text : List Char) : Prop := ∀ char ∈ text, isSpace char = true

inductive PlainLine (lib : List Char) (text : List Char) : Prop
  | runtime (keyLine : KeyLine .runtime text nativeRuntime)
  | lib (keyLine : KeyLine .lib text lib)
  | dlopenFlag (word : List Char) (keyLine : KeyLine .dlopenFlag text word)
      (fits : word.length < maxValue)
  | comment (marked : Comment text)
  | blank (blank : Blank text)

def ExactlyOne (is : List Char → Prop) (texts : List (List Char)) : Prop :=
  ∃ one others, texts.Perm (one :: others) ∧ is one ∧ ∀ other ∈ others, ¬is other

structure PlainOxmod (lib : List Char) (texts : List (List Char)) : Prop where
  short : ∀ text ∈ texts, text.length < maxLine - 1
  fits : lib.length < maxValue
  kinds : ∀ text ∈ texts, PlainLine lib text
  runtime : ExactlyOne (fun text => KeyLine .runtime text nativeRuntime) texts
  lib : ExactlyOne (fun text => KeyLine .lib text lib) texts

theorem PlainOxmod.perm {lib : List Char} {texts other : List (List Char)}
    (plain : PlainOxmod lib texts) (perm : other.Perm texts) : PlainOxmod lib other where
  short text member := plain.short text (perm.mem_iff.mp member)
  fits := plain.fits
  kinds text member := plain.kinds text (perm.mem_iff.mp member)
  runtime := by
    obtain ⟨one, others, split, only⟩ := plain.runtime
    exact ⟨one, others, perm.trans split, only⟩
  lib := by
    obtain ⟨one, others, split, only⟩ := plain.lib
    exact ⟨one, others, perm.trans split, only⟩

theorem ExactlyOne.exists_mem {is : List Char → Prop} {texts : List (List Char)}
    (once : ExactlyOne is texts) : ∃ text ∈ texts, is text := by
  obtain ⟨one, others, split, marked, -⟩ := once
  exact ⟨one, split.mem_iff.mpr List.mem_cons_self, marked⟩

theorem OxmodKey.head_injective : Function.Injective fun key : OxmodKey => key.name.head? := by
  intro key other
  cases key <;> cases other <;> decide

theorem Sets.key_unique {key other : OxmodKey} {line word otherWord : List Char}
    (sets : Sets key line word) (otherSets : Sets other line otherWord) : key = other := by
  obtain ⟨tail, -, split, -⟩ := sets
  obtain ⟨otherTail, -, otherSplit, -⟩ := otherSets
  obtain ⟨letter, others, named, -⟩ := key.name_letter
  obtain ⟨otherLetter, otherOthers, otherNamed, -⟩ := other.name_letter
  have heads : key.name.head? = other.name.head? := by
    rw [split, named, otherNamed, List.cons_append, List.cons_append, List.cons.injEq] at otherSplit
    rw [named, otherNamed, List.head?_cons, List.head?_cons, otherSplit.1]
  exact OxmodKey.head_injective heads

theorem Blank.not_sets {text : List Char} (blank : Blank text) (key : OxmodKey)
    (word : List Char) : ¬Sets key text word := by
  rintro ⟨tail, gap, split, ⟨rest, rfl, -, full, solid, -⟩⟩
  obtain ⟨first, others, rfl⟩ := List.exists_cons_of_ne_nil full
  have inside : first ∈ cString text := by simp [split]
  have space := blank first ((List.takeWhile_sublist _).subset inside)
  rw [solid first List.mem_cons_self] at space
  cases space

theorem Comment.skipped {text : List Char} (marked : Comment text) : isSkipped text = true := by
  simp only [isSkipped, show text.head? = some '#' from marked, true_or, decide_true]

theorem PlainLine.effect {lib text : List Char} (plain : PlainLine lib text) {key : OxmodKey}
    {word : List Char} (gives : lineEffect text key = some word) :
    (key = .runtime → word = nativeRuntime) ∧ (key = .lib → word = lib) ∧
      (key = .dlopenFlag → word.length < maxValue) := by
  have sets := (lineEffect_iff key text word).mp gives
  have only {other : OxmodKey} {given : List Char} (keyLine : KeyLine other text given) :
      key = other ∧ word = given := by
    have same := sets.key_unique keyLine.sets
    subst same
    have both := (lineEffect_iff key text given).mpr keyLine.sets
    exact ⟨rfl, Option.some.inj (gives.symm.trans both)⟩
  cases plain with
  | runtime keyLine =>
      obtain ⟨rfl, rfl⟩ := only keyLine
      simp
  | lib keyLine =>
      obtain ⟨rfl, rfl⟩ := only keyLine
      simp
  | dlopenFlag given keyLine fits =>
      obtain ⟨rfl, rfl⟩ := only keyLine
      simpa using fits
  | comment marked =>
      rw [lineEffect_skipped marked.skipped] at gives
      cases gives
  | blank blank => exact absurd sets (blank.not_sets key word)

theorem PlainLine.flag_iff {lib text : List Char} (plain : PlainLine lib text)
    (word : List Char) :
    lineEffect text .dlopenFlag = some word ↔ KeyLine .dlopenFlag text word := by
  rw [lineEffect_iff]
  refine ⟨fun sets => ?_, KeyLine.sets⟩
  cases plain with
  | runtime keyLine => cases sets.key_unique keyLine.sets
  | lib keyLine => cases sets.key_unique keyLine.sets
  | dlopenFlag given keyLine fits =>
      have here := (lineEffect_iff .dlopenFlag text word).mpr sets
      rw [(lineEffect_iff .dlopenFlag text given).mpr keyLine.sets, Option.some.injEq] at here
      exact here ▸ keyLine
  | comment marked =>
      have here := (lineEffect_iff .dlopenFlag text word).mpr sets
      rw [lineEffect_skipped marked.skipped] at here
      cases here
  | blank blank => exact absurd sets (blank.not_sets .dlopenFlag word)

/-- A flag for global symbols stands behind both keys. -/
def GlobalBehind (texts : List (List Char)) : Prop :=
  ∃ front text back, texts = front ++ text :: back ∧ KeysSeen front ∧
    KeyLine .dlopenFlag text rtldGlobalFlag

theorem globalBehind_append_singleton (front : List (List Char)) (text : List Char) :
    GlobalBehind (front ++ [text]) ↔
      GlobalBehind front ∨ KeysSeen front ∧ KeyLine .dlopenFlag text rtldGlobalFlag := by
  constructor
  · rintro ⟨first, found, back, split, seen, flag⟩
    rcases List.eq_nil_or_concat back with rfl | ⟨others, last, rfl⟩
    · obtain ⟨rfl, same⟩ := List.append_inj' split rfl
      rw [List.singleton_inj.mp same]
      exact Or.inr ⟨seen, flag⟩
    · rw [List.concat_eq_append, ← List.cons_append, ← List.append_assoc] at split
      obtain ⟨rfl, -⟩ := List.append_inj' split rfl
      exact Or.inl ⟨first, found, others, rfl, seen, flag⟩
  · rintro (⟨first, found, back, rfl, seen, flag⟩ | ⟨seen, flag⟩)
    · exact ⟨first, found, back ++ [text], by simp, seen, flag⟩
    · exact ⟨front, text, [], rfl, seen, flag⟩

structure PlainState (lib : List Char) (texts : List (List Char)) (state : OxmodState) : Prop where
  config : state.config = configAfter texts
  runtime : ∀ word, state.config.runtime = some word → word = nativeRuntime
  lib : ∀ word, state.config.lib = some word → word = lib
  fits : state.fits = true
  global : GlobalBehind texts → state.flags = rtldNow ||| rtldGlobal
  plainFlags : ¬GlobalBehind texts → state.flags = rtldNow

theorem plainState_start (lib : List Char) : PlainState lib [] .start where
  config := rfl
  runtime word given := by cases given
  lib word given := by cases given
  fits := rfl
  global behind := by
    obtain ⟨front, text, back, split, -⟩ := behind
    simp at split
  plainFlags _ := rfl

theorem configAfter_append_singleton (front : List (List Char)) (text : List Char) :
    configAfter (front ++ [text]) = (configAfter front).apply (lineEffect text) := by
  rw [configAfter_append, List.map_singleton, List.foldl_cons, List.foldl_nil]

theorem or_known {found known : Option (List Char)} {word : List Char}
    (knownWord : ∀ given, known = some given → given = word)
    (foundWord : ∀ given, found = some given → given = word) :
    ∀ given, found.or known = some given → given = word := by
  intro given here
  cases found with
  | none => exact knownWord given here
  | some first => exact foundWord given here

theorem OxmodConfig.eq_of_complete {lib : List Char} {config : OxmodConfig}
    (complete : config.Complete)
    (runtime : ∀ word, config.runtime = some word → word = nativeRuntime)
    (only : ∀ word, config.lib = some word → word = lib) :
    config = ⟨some nativeRuntime, some lib⟩ := by
  obtain ⟨word, runtimeGiven⟩ := Option.isSome_iff_exists.mp complete.1
  obtain ⟨path, libGiven⟩ := Option.isSome_iff_exists.mp complete.2
  rw [runtime word runtimeGiven] at runtimeGiven
  rw [only path libGiven] at libGiven
  rw [← runtimeGiven, ← libGiven]

namespace PlainState

variable {lib text : List Char} {texts : List (List Char)} {state : OxmodState}

theorem native_of_complete (reached : PlainState lib texts state)
    (complete : state.config.Complete) : state.config = ⟨some nativeRuntime, some lib⟩ :=
  OxmodConfig.eq_of_complete complete reached.runtime reached.lib

theorem applied (reached : PlainState lib texts state) (plain : PlainLine lib text) :
    (∀ word, (state.config.apply (lineEffect text)).runtime = some word → word = nativeRuntime) ∧
      ∀ word, (state.config.apply (lineEffect text)).lib = some word → word = lib :=
  ⟨or_known reached.runtime fun _ given => (plain.effect given).1 rfl,
    or_known reached.lib fun _ given => (plain.effect given).2.1 rfl⟩

theorem apply_complete (reached : PlainState lib texts state) (plain : PlainLine lib text)
    (complete : state.config.Complete) :
    state.config.apply (lineEffect text) = state.config := by
  obtain ⟨runtime, only⟩ := reached.applied plain
  rw [OxmodConfig.eq_of_complete (complete.apply _) runtime only,
    reached.native_of_complete complete]

theorem keys_step (reached : PlainState lib texts state) (plain : PlainLine lib text)
    (fits : lib.length < maxValue) (missing : ¬state.config.Complete) :
    PlainState lib (texts ++ [text]) (state.step (lineEffect text)) := by
  have unseen : ¬KeysSeen texts := by
    rwa [← configAfter_complete_iff, ← reached.config]
  have same : GlobalBehind (texts ++ [text]) ↔ GlobalBehind texts := by
    rw [globalBehind_append_singleton]
    exact or_iff_left fun later => unseen later.1
  have runtimeFits : fitsValue (lineEffect text .runtime) = true := by
    refine fitsValue_iff.mpr fun word given => ?_
    rw [(plain.effect given).1 rfl]
    decide
  have libFits : fitsValue (lineEffect text .lib) = true := by
    refine fitsValue_iff.mpr fun word given => ?_
    rw [(plain.effect given).2.1 rfl]
    exact fits
  rw [OxmodState.step, if_pos missing]
  exact {
    config := by rw [configAfter_append_singleton, ← reached.config]
    runtime := (reached.applied plain).1
    lib := (reached.applied plain).2
    fits := by simp only [reached.fits, runtimeFits, libFits, Bool.and_self]
    global := fun behind => reached.global (same.mp behind)
    plainFlags := fun none => reached.plainFlags fun behind => none (same.mpr behind) }

theorem flag_step (reached : PlainState lib texts state) (plain : PlainLine lib text)
    (complete : state.config.Complete) :
    PlainState lib (texts ++ [text]) (state.step (lineEffect text)) := by
  have seen : KeysSeen texts := by
    rwa [← configAfter_complete_iff, ← reached.config]
  have native : state.config.Native := by
    rw [reached.native_of_complete complete]
    exact ⟨rfl, rfl⟩
  have flagFits : OxmodState.flagFits (lineEffect text) = true :=
    fitsValue_iff.mpr fun word given => (plain.effect given).2.2 rfl
  rw [OxmodState.step_native native]
  refine ⟨?_, reached.runtime, reached.lib, ?_, ?_, ?_⟩
  · rw [configAfter_append_singleton, ← reached.config, reached.apply_complete plain complete]
  · simp only [reached.fits, flagFits, Bool.and_self]
  · intro behind
    rw [globalBehind_append_singleton] at behind
    by_cases before : GlobalBehind texts
    · simp only [applyFlag, reached.global before]
      split <;> rfl
    · obtain ⟨-, flag⟩ := behind.resolve_left before
      simp only [applyFlag, reached.plainFlags before, (plain.flag_iff _).mpr flag, if_true]
  · intro none
    rw [globalBehind_append_singleton, not_or, not_and] at none
    have other : ¬lineEffect text .dlopenFlag = some rtldGlobalFlag := by
      rw [plain.flag_iff]
      exact none.2 seen
    simp only [applyFlag, reached.plainFlags none.1, if_neg other]

theorem run (fits : lib.length < maxValue) (kinds : ∀ text ∈ texts, PlainLine lib text) :
    PlainState lib texts ((texts.map lineEffect).foldl OxmodState.step .start) := by
  induction texts using List.reverseRecOn with
  | nil => exact plainState_start lib
  | append_singleton front text ih =>
      have before := ih fun other member => kinds other (List.mem_append_left _ member)
      have plain := kinds text (by simp)
      rw [List.map_append, List.foldl_append, List.map_singleton, List.foldl_cons, List.foldl_nil]
      by_cases complete :
        ((front.map lineEffect).foldl OxmodState.step .start).config.Complete
      · exact before.flag_step plain complete
      · exact before.keys_step plain fits complete

end PlainState

theorem PlainOxmod.keysSeen {lib : List Char} {texts : List (List Char)}
    (plain : PlainOxmod lib texts) : KeysSeen texts := by
  obtain ⟨text, member, keyLine⟩ := plain.runtime.exists_mem
  obtain ⟨other, otherMember, otherLine⟩ := plain.lib.exists_mem
  exact ⟨⟨text, member, nativeRuntime, keyLine.sets⟩, other, otherMember, lib, otherLine.sets⟩

/-- What such a file starts: the library, with the flags that stand behind both keys. -/
theorem PlainOxmod.nativeCall {lib content : List Char}
    (plain : PlainOxmod lib (lineTexts content)) :
    (GlobalBehind (lineTexts content) →
        nativeCall content = .ok (some (lib, rtldNow ||| rtldGlobal))) ∧
      (¬GlobalBehind (lineTexts content) → nativeCall content = .ok (some (lib, rtldNow))) := by
  have reached := PlainState.run plain.fits plain.kinds
  have complete : ((lineTexts content).map lineEffect |>.foldl OxmodState.step
      .start).config.Complete := by
    rw [reached.config, configAfter_complete_iff]
    exact plain.keysSeen
  have config := reached.native_of_complete complete
  have native : OxmodConfig.Native ⟨some nativeRuntime, some lib⟩ := ⟨rfl, rfl⟩
  rw [YakUnshorn.nativeCall, oxmodSettings_eq, effectsOf_texts plain.short, OxmodState.settings,
    if_pos reached.fits, config]
  simp only [if_pos native, Option.map_some]
  exact ⟨fun behind => by rw [reached.global behind], fun none => by rw [reached.plainFlags none]⟩

theorem newline_not_mem_text {content text : List Char} (member : text ∈ lineTexts content) :
    '\n' ∉ text := by
  obtain ⟨line, lineMember, rfl⟩ := List.mem_map.mp member
  obtain ⟨text, plain, rfl | ⟨rfl, -⟩⟩ := mem_lines lineMember
  · rwa [withoutNewline_line plain]
  · rwa [withoutNewline_plain plain]

theorem lineTexts_joinLines {texts : List (List Char)} (plain : ∀ text ∈ texts, '\n' ∉ text) :
    lineTexts (joinLines texts) = texts := by
  rw [lineTexts, lines_joinLines plain, List.map_map]
  have same : texts.map (withoutNewline ∘ fun text => text ++ ['\n']) = texts.map id :=
    List.map_congr_left fun text member => withoutNewline_line (plain text member)
  rw [same, List.map_id]

def isFlagText (text : List Char) : Bool := (lineEffect text .dlopenFlag).isSome

theorem KeyLine.isFlagText {text word : List Char} (flag : KeyLine .dlopenFlag text word) :
    isFlagText text = true := by
  rw [YakUnshorn.isFlagText, (lineEffect_iff .dlopenFlag text word).mpr flag.sets,
    Option.isSome_some]

theorem unseen_of_flagTexts {texts : List (List Char)}
    (flags : ∀ text ∈ texts, isFlagText text = true) : ¬KeysSeen texts := by
  rintro ⟨⟨text, member, word, sets⟩, -⟩
  obtain ⟨flag, given⟩ := Option.isSome_iff_exists.mp (flags text member)
  cases sets.key_unique ((lineEffect_iff .dlopenFlag text flag).mp given)

theorem not_globalBehind_of_flags_first {flags others : List (List Char)}
    (marked : ∀ text ∈ flags, isFlagText text = true)
    (unmarked : ∀ text ∈ others, isFlagText text = false) : ¬GlobalBehind (flags ++ others) := by
  rintro ⟨front, text, back, split, seen, flag⟩
  rcases List.append_eq_append_iff.mp split with ⟨more, rfl, behind⟩ | ⟨more, rfl, behind⟩
  · have here := unmarked text (by simp [behind])
    rw [flag.isFlagText] at here
    cases here
  · refine unseen_of_flagTexts (fun other member => ?_) seen
    exact marked other (List.mem_append_left _ member)

theorem globalBehind_of_flags_last {flags others : List (List Char)} (seen : KeysSeen others)
    {text : List Char} (member : text ∈ flags) (flag : KeyLine .dlopenFlag text rtldGlobalFlag) :
    GlobalBehind (others ++ flags) := by
  obtain ⟨front, back, rfl⟩ := List.append_of_mem member
  obtain ⟨⟨runtime, runtimeMember, runtimeSets⟩, lib, libMember, libSets⟩ := seen
  refine ⟨others ++ front, text, back, (List.append_assoc ..).symm, ?_, flag⟩
  exact ⟨⟨runtime, List.mem_append_left _ runtimeMember, runtimeSets⟩, lib,
    List.mem_append_left _ libMember, libSets⟩

theorem KeysSeen.without_flags {texts : List (List Char)} (seen : KeysSeen texts) :
    KeysSeen (texts.filter fun text => !isFlagText text) := by
  have kept {key : OxmodKey} (other : key ≠ .dlopenFlag)
      (given : ∃ text ∈ texts, ∃ word, Sets key text word) :
      ∃ text ∈ texts.filter fun text => !isFlagText text, ∃ word, Sets key text word := by
    obtain ⟨text, member, word, sets⟩ := given
    refine ⟨text, List.mem_filter.mpr ⟨member, ?_⟩, word, sets⟩
    rw [isFlagText, Bool.not_eq_true', Option.isSome_eq_false_iff, Option.isNone_iff_eq_none,
      lineEffect_none_iff]
    exact fun flag flagSets => other (sets.key_unique flagSets)
  exact ⟨kept (by decide) seen.1, kept (by decide) seen.2⟩

theorem PlainOxmod.flags_moved {lib content text : List Char}
    (plain : PlainOxmod lib (lineTexts content)) (member : text ∈ lineTexts content)
    (flag : KeyLine .dlopenFlag text rtldGlobalFlag) :
    ∃ first last, (lineTexts first).Perm (lineTexts content) ∧
      (lineTexts last).Perm (lineTexts content) ∧ ¬GlobalBehind (lineTexts first) ∧
      GlobalBehind (lineTexts last) := by
  set flags := (lineTexts content).filter isFlagText with flagsEq
  set others := (lineTexts content).filter fun text => !isFlagText text with othersEq
  have flagsPlain : ∀ text ∈ flags, '\n' ∉ text :=
    fun text here => newline_not_mem_text (List.mem_of_mem_filter here)
  have othersPlain : ∀ text ∈ others, '\n' ∉ text :=
    fun text here => newline_not_mem_text (List.mem_of_mem_filter here)
  have split : (flags ++ others).Perm (lineTexts content) := List.filter_append_perm _ _
  have first := lineTexts_joinLines (List.forall_mem_append.mpr ⟨flagsPlain, othersPlain⟩)
  have last := lineTexts_joinLines (List.forall_mem_append.mpr ⟨othersPlain, flagsPlain⟩)
  refine ⟨joinLines (flags ++ others), joinLines (others ++ flags), ?_⟩
  rw [first, last]
  refine ⟨split, List.perm_append_comm.trans split, ?_, ?_⟩
  · refine not_globalBehind_of_flags_first (fun text here => (List.mem_filter.mp here).2) ?_
    exact fun text here => by simpa using (List.mem_filter.mp here).2
  · have marked : text ∈ flags := List.mem_filter.mpr ⟨member, flag.isFlagText⟩
    exact globalBehind_of_flags_last plain.keysSeen.without_flags marked flag

theorem PlainOxmod.same_call_iff {lib content other : List Char}
    (plain : PlainOxmod lib (lineTexts content)) (otherPlain : PlainOxmod lib (lineTexts other)) :
    (∃ flags, YakUnshorn.nativeCall other = .ok (some (lib, flags)) ∧
        YakUnshorn.nativeCall content = .ok (some (lib, flags))) ↔
      (GlobalBehind (lineTexts other) ↔ GlobalBehind (lineTexts content)) := by
  by_cases here : GlobalBehind (lineTexts content)
  · by_cases there : GlobalBehind (lineTexts other)
    · refine iff_of_true ⟨_, otherPlain.nativeCall.1 there, plain.nativeCall.1 here⟩ ?_
      exact iff_of_true there here
    · rw [otherPlain.nativeCall.2 there, plain.nativeCall.1 here]
      simp [here, there, rtldNow, rtldGlobal]
  · by_cases there : GlobalBehind (lineTexts other)
    · rw [otherPlain.nativeCall.1 there, plain.nativeCall.2 here]
      simp [here, there, rtldNow, rtldGlobal]
    · refine iff_of_true ⟨_, otherPlain.nativeCall.2 there, plain.nativeCall.2 here⟩ ?_
      exact iff_of_false there here

theorem keyLine_of_word (key : OxmodKey) {word : List Char} (full : word ≠ [])
    (plain : (word.all fun char => !isSpace char && char != Char.ofNat 0) = true) :
    KeyLine key (key.name ++ ' ' :: word) word := by
  simp only [List.all_eq_true, Bool.and_eq_true, Bool.not_eq_true', bne_iff_ne] at plain
  have solid : ∀ char ∈ word, isSpace char = false := fun char member => (plain char member).1
  have gap : ∀ char ∈ [' '], isSpace char = true := by simp [isSpace]
  have named : cString key.name = key.name := by
    cases key <;> decide
  refine ⟨' ' :: word, [' '], ?_, ⟨[], by simp, gap, full, solid, by simp⟩, by simp⟩
  rw [cString, List.takeWhile_eq_self_iff] at named ⊢
  rintro char member
  rcases List.mem_append.mp member with inKey | behind
  · exact named char inKey
  · rcases List.mem_cons.mp behind with rfl | inWord
    · decide
    · simpa using (plain char inWord).2

def flagLast : List Char := "runtime native\nlib x\ndlopen_flag RTLD_GLOBAL\n".toList

def flagFirst : List Char := "dlopen_flag RTLD_GLOBAL\nruntime native\nlib x\n".toList

theorem flagLast_plain : PlainOxmod ['x'] (lineTexts flagLast) := by
  have texts : lineTexts flagLast = ["runtime native".toList, "lib x".toList,
      "dlopen_flag RTLD_GLOBAL".toList] := by decide
  have runtime : KeyLine .runtime "runtime native".toList nativeRuntime :=
    keyLine_of_word .runtime (by decide) (by decide)
  have lib : KeyLine .lib "lib x".toList ['x'] :=
    keyLine_of_word .lib (by decide) (by decide)
  have flag : KeyLine .dlopenFlag "dlopen_flag RTLD_GLOBAL".toList rtldGlobalFlag :=
    keyLine_of_word .dlopenFlag (by decide) (by decide)
  rw [texts]
  refine ⟨by decide, by decide, ?_, ?_, ?_⟩
  · simp only [List.forall_mem_cons]
    exact ⟨.runtime runtime, .lib lib, .dlopenFlag _ flag (by decide), by simp⟩
  · refine ⟨_, _, List.Perm.refl _, runtime, ?_⟩
    simp only [List.forall_mem_cons]
    refine ⟨fun other => ?_, fun other => ?_, by simp⟩
    · cases lib.sets.key_unique other.sets
    · cases flag.sets.key_unique other.sets
  · refine ⟨_, _, List.Perm.swap _ _ _, lib, ?_⟩
    simp only [List.forall_mem_cons]
    refine ⟨fun other => ?_, fun other => ?_, by simp⟩
    · cases runtime.sets.key_unique other.sets
    · cases flag.sets.key_unique other.sets

/-- Two orders of the lines of a file start the library with the same flags exactly when both have
a flag for global symbols behind both keys or neither has. All orders do when there is no such
flag. -/
theorem order_free_iff {lib content : List Char} (plain : PlainOxmod lib (lineTexts content)) :
    (∀ other, (lineTexts other).Perm (lineTexts content) →
        ((∃ flags, nativeCall other = .ok (some (lib, flags)) ∧
            nativeCall content = .ok (some (lib, flags))) ↔
          (GlobalBehind (lineTexts other) ↔ GlobalBehind (lineTexts content)))) ∧
      ((∀ other, (lineTexts other).Perm (lineTexts content) →
          ∃ flags, nativeCall other = .ok (some (lib, flags)) ∧
            nativeCall content = .ok (some (lib, flags))) ↔
        ∀ text ∈ lineTexts content, ¬KeyLine .dlopenFlag text rtldGlobalFlag) := by
  have pairs : ∀ other, (lineTexts other).Perm (lineTexts content) →
      ((∃ flags, nativeCall other = .ok (some (lib, flags)) ∧
          nativeCall content = .ok (some (lib, flags))) ↔
        (GlobalBehind (lineTexts other) ↔ GlobalBehind (lineTexts content))) :=
    fun other perm => plain.same_call_iff (plain.perm perm)
  refine ⟨pairs, fun free text member flag => ?_, fun none other perm => ?_⟩
  · obtain ⟨first, last, firstPerm, lastPerm, before, behind⟩ := plain.flags_moved member flag
    have firstSame := (pairs first firstPerm).mp (free first firstPerm)
    have lastSame := (pairs last lastPerm).mp (free last lastPerm)
    exact before (firstSame.mpr (lastSame.mp behind))
  · have never {texts : List (List Char)} (perm : texts.Perm (lineTexts content)) :
        ¬GlobalBehind texts := by
      rintro ⟨front, text, back, rfl, -, flag⟩
      exact none text (perm.mem_iff.mp (by simp)) flag
    exact (pairs other perm).mpr (iff_of_false (never perm) (never (List.Perm.refl _)))

theorem order_free_iff_flagLast :
    (∀ other, (lineTexts other).Perm (lineTexts flagLast) →
        ((∃ flags, nativeCall other = .ok (some (['x'], flags)) ∧
            nativeCall flagLast = .ok (some (['x'], flags))) ↔
          (GlobalBehind (lineTexts other) ↔ GlobalBehind (lineTexts flagLast)))) ∧
      ((∀ other, (lineTexts other).Perm (lineTexts flagLast) →
          ∃ flags, nativeCall other = .ok (some (['x'], flags)) ∧
            nativeCall flagLast = .ok (some (['x'], flags))) ↔
        ∀ text ∈ lineTexts flagLast, ¬KeyLine .dlopenFlag text rtldGlobalFlag) :=
  order_free_iff flagLast_plain

/-- The loop that looks for the keys reads the flag line and forgets it. -/
theorem flag_first_forgotten :
    PlainOxmod ['x'] (lineTexts flagLast) ∧ (lineTexts flagFirst).Perm (lineTexts flagLast) ∧
      nativeCall flagLast = .ok (some (['x'], rtldNow ||| rtldGlobal)) ∧
      nativeCall flagFirst = .ok (some (['x'], rtldNow)) :=
  ⟨flagLast_plain, by decide, by decide, by decide⟩

end YakUnshorn
