import YakUnshorn.Lib.History
import Mathlib.Data.List.Basic

/-!
The loggers of `bunuelib.c`. They read the environment at every call, and remember between calls
only that they have warned of an unknown prefix type.
-/

namespace YakUnshorn

open History

/-- `bunuel_LogLevel`, the most severe level first. -/
inductive LogLevel
  | fatal
  | error
  | warning
  | info
  | debug
  | unknown
  deriving Repr, DecidableEq

def LogLevel.value : LogLevel → Nat
  | .fatal => 0
  | .error => 1
  | .warning => 2
  | .info => 3
  | .debug => 4
  | .unknown => 5

def bunuelLogLevelName : LogLevel → List Char
  | .fatal => "FATAL".toList
  | .error => "ERROR".toList
  | .warning => "WARNING".toList
  | .info => "INFO".toList
  | .debug => "DEBUG".toList
  | .unknown => "LOG_LEVEL_UNKNOWN".toList

structure LogEnv where
  bunuelLogLevel : Option (List Char)
  bunuelLogPrefixType : Option (List Char)
  deriving Repr, DecidableEq

structure LogBuild where
  date : List Char
  time : List Char
  file : List Char

structure LogState where
  stdout : List Char
  unknownPrefixAlreadyWarned : Bool
  deriving Repr, DecidableEq

def getLogLevel (env : LogEnv) : LogLevel :=
  match env.bunuelLogLevel with
  | none => .unknown
  | some level =>
      if level = "FATAL".toList then .fatal
      else if level = "ERROR".toList then .error
      else if level = "WARNING".toList then .warning
      else if level = "INFO".toList then .info
      else if level = "DEBUG".toList then .debug
      else .unknown

/-- `printf` of a text, and the number of characters it returns. -/
def printText (state : LogState) (text : List Char) : LogState × Nat :=
  ({ state with stdout := state.stdout ++ text }, text.length)

def standardLogPrefix (build : LogBuild) (logLevel : LogLevel) : List Char :=
  build.date ++ [' '] ++ build.time ++ [' '] ++ bunuelLogLevelName logLevel ++ [' ']

/-- The line is the one that asks for it, whoever logs. -/
def fileLineLogPrefix (build : LogBuild) : List Char := build.file ++ ":32 ".toList

def functionLogPrefix : List Char := "print_function_log_prefix ".toList

def printStandardLogPrefix (build : LogBuild) (state : LogState) (logLevel : LogLevel) :
    LogState × Nat :=
  printText state (standardLogPrefix build logLevel)

def printFileLineLogPrefix (build : LogBuild) (state : LogState) : LogState × Nat :=
  printText state (fileLineLogPrefix build)

def printFunctionLogPrefix (state : LogState) : LogState × Nat :=
  printText state functionLogPrefix

def unknownPrefixWarning (prefixType : List Char) : List Char :=
  "unknown env BUNUEL_LOG_PREFIX_TYPE ".toList ++ prefixType ++
    ", expected one of 'standard', 'function', 'line', 'full'\n".toList

def printLogPrefix (build : LogBuild) (env : LogEnv) (state : LogState) (logLevel : LogLevel) :
    LogState × Nat :=
  match env.bunuelLogPrefixType with
  | none => (state, 0)
  | some prefixType =>
      if prefixType = "standard".toList then printStandardLogPrefix build state logLevel
      else if prefixType = "function".toList then
        let (state, standard) := printStandardLogPrefix build state logLevel
        let (state, function) := printFunctionLogPrefix state
        (state, standard + function)
      else if prefixType = "line".toList then
        let (state, standard) := printStandardLogPrefix build state logLevel
        let (state, line) := printFileLineLogPrefix build state
        (state, standard + line)
      else if prefixType = "full".toList then
        let (state, standard) := printStandardLogPrefix build state logLevel
        let (state, line) := printFileLineLogPrefix build state
        let (state, function) := printFunctionLogPrefix state
        (state, standard + line + function)
      else if state.unknownPrefixAlreadyWarned = false then
        let (state, printed) := printText state (unknownPrefixWarning prefixType)
        ({ state with unknownPrefixAlreadyWarned := true }, printed)
      else (state, 0)

def vlogLine (build : LogBuild) (env : LogEnv) (state : LogState) (logLevel : LogLevel)
    (message : List Char) : LogState × Nat :=
  if (getLogLevel env).value < logLevel.value then (state, 0)
  else
    let (state, front) := printLogPrefix build env state logLevel
    let (state, line) := printText state message
    let (state, _) := printText state ['\n']
    (state, front + line + 1)

section Loggers

variable (build : LogBuild) (env : LogEnv) (state : LogState) (message : List Char)

def bunuelFatal : LogState × Nat := vlogLine build env state .fatal message

def bunuelError : LogState × Nat := vlogLine build env state .error message

def bunuelWarning : LogState × Nat := vlogLine build env state .warning message

def bunuelInfo : LogState × Nat := vlogLine build env state .info message

def bunuelDebug : LogState × Nat := vlogLine build env state .debug message

end Loggers

inductive Logger
  | fatal
  | error
  | warning
  | info
  | debug
  deriving Repr, DecidableEq

def Logger.level : Logger → LogLevel
  | .fatal => .fatal
  | .error => .error
  | .warning => .warning
  | .info => .info
  | .debug => .debug

def Logger.log (build : LogBuild) (env : LogEnv) (state : LogState) (message : List Char) :
    Logger → LogState × Nat
  | .fatal => bunuelFatal build env state message
  | .error => bunuelError build env state message
  | .warning => bunuelWarning build env state message
  | .info => bunuelInfo build env state message
  | .debug => bunuelDebug build env state message

structure LogCall where
  logger : Logger
  env : LogEnv
  message : List Char
  deriving Repr, DecidableEq

structure LogEntry where
  call : LogCall
  text : List Char
  printed : Nat
  deriving Repr, DecidableEq

def logStep (build : LogBuild) (state : LogState × List LogEntry) (call : LogCall) :
    LogState × List LogEntry :=
  let (after, printed) := call.logger.log build call.env state.1 call.message
  (after, state.2 ++ [⟨call, after.stdout.drop state.1.stdout.length, printed⟩])

def logRun (build : LogBuild) (stdout : List Char) (calls : List LogCall) :
    LogState × List LogEntry :=
  calls.foldl (logStep build) (⟨stdout, false⟩, [])

/-- The environment names no level more severe than the call. -/
def LogCall.Loud (call : LogCall) : Prop :=
  ∀ level, call.env.bunuelLogLevel = some (bunuelLogLevelName level) →
    call.logger.level.value ≤ level.value

inductive PrefixType
  | standard
  | function
  | line
  | full
  deriving Repr, DecidableEq

def PrefixType.name : PrefixType → List Char
  | .standard => "standard".toList
  | .function => "function".toList
  | .line => "line".toList
  | .full => "full".toList

def PrefixType.text (build : LogBuild) (level : LogLevel) : PrefixType → List Char
  | .standard => standardLogPrefix build level
  | .function => standardLogPrefix build level ++ functionLogPrefix
  | .line => standardLogPrefix build level ++ fileLineLogPrefix build
  | .full => standardLogPrefix build level ++ fileLineLogPrefix build ++ functionLogPrefix

/-- The call asks for a prefix of a type that does not exist. -/
def LogCall.Puzzled (call : LogCall) (prefixType : List Char) : Prop :=
  call.Loud ∧ call.env.bunuelLogPrefixType = some prefixType ∧
    ∀ known : PrefixType, prefixType ≠ known.name

structure LoggedRight (build : LogBuild) (before : List LogEntry) (entry : LogEntry) : Prop where
  returned : entry.printed = entry.text.length
  silent : ¬entry.call.Loud → entry.text = []
  bare : entry.call.Loud → entry.call.env.bunuelLogPrefixType = none →
    entry.text = entry.call.message ++ ['\n']
  known : entry.call.Loud → ∀ known : PrefixType,
    entry.call.env.bunuelLogPrefixType = some known.name →
    entry.text = known.text build entry.call.logger.level ++ entry.call.message ++ ['\n']
  warned : ∀ prefixType, entry.call.Puzzled prefixType →
    (∀ earlier ∈ before, ∀ other, ¬earlier.call.Puzzled other) →
    entry.text = unknownPrefixWarning prefixType ++ entry.call.message ++ ['\n']
  again : ∀ prefixType, entry.call.Puzzled prefixType →
    (∃ earlier ∈ before, ∃ other, earlier.call.Puzzled other) →
    entry.text = entry.call.message ++ ['\n']

theorem Logger.log_eq (logger : Logger) (build : LogBuild) (env : LogEnv) (state : LogState)
    (message : List Char) :
    logger.log build env state message = vlogLine build env state logger.level message := by
  cases logger <;> rfl

theorem getLogLevel_named {env : LogEnv} {level : LogLevel}
    (named : env.bunuelLogLevel = some (bunuelLogLevelName level)) : getLogLevel env = level := by
  obtain ⟨bunuelLogLevel, prefixType⟩ := env
  subst named
  cases level <;> rfl

theorem getLogLevel_cases (env : LogEnv) :
    getLogLevel env = .unknown ∨
      env.bunuelLogLevel = some (bunuelLogLevelName (getLogLevel env)) := by
  unfold getLogLevel
  rcases env.bunuelLogLevel with _ | level
  · exact Or.inl rfl
  simp only
  split_ifs with fatal error warning info debug
  · exact Or.inr (congrArg some fatal)
  · exact Or.inr (congrArg some error)
  · exact Or.inr (congrArg some warning)
  · exact Or.inr (congrArg some info)
  · exact Or.inr (congrArg some debug)
  · exact Or.inl rfl

theorem LogCall.loud_iff (call : LogCall) :
    call.Loud ↔ ¬(getLogLevel call.env).value < call.logger.level.value := by
  rw [Nat.not_lt]
  constructor
  · intro loud
    rcases getLogLevel_cases call.env with unknown | named
    · rw [unknown]
      cases call.logger <;> decide
    · exact loud _ named
  · intro below level named
    rwa [getLogLevel_named named] at below

theorem printText_append (state : LogState) (first second : List Char) :
    ((printText (printText state first).1 second).1, first.length + second.length) =
      printText state (first ++ second) := by
  simp [printText]

theorem printLogPrefix_known {build : LogBuild} {env : LogEnv} {state : LogState}
    {level : LogLevel} {known : PrefixType} (typed : env.bunuelLogPrefixType = some known.name) :
    printLogPrefix build env state level = printText state (known.text build level) := by
  obtain ⟨bunuelLogLevel, bunuelLogPrefixType⟩ := env
  subst typed
  cases known
  case standard => rfl
  case function => exact printText_append state (standardLogPrefix build level) functionLogPrefix
  case line =>
      exact printText_append state (standardLogPrefix build level) (fileLineLogPrefix build)
  case full =>
      have two := printText_append state (standardLogPrefix build level) (fileLineLogPrefix build)
      have all := printText_append state
        (standardLogPrefix build level ++ fileLineLogPrefix build) functionLogPrefix
      rw [← two, List.length_append] at all
      exact all

theorem printLogPrefix_unknown {build : LogBuild} {env : LogEnv} {state : LogState}
    {level : LogLevel} {prefixType : List Char} (typed : env.bunuelLogPrefixType = some prefixType)
    (unknown : ∀ known : PrefixType, prefixType ≠ known.name) :
    printLogPrefix build env state level =
      if state.unknownPrefixAlreadyWarned = false then
        (⟨state.stdout ++ unknownPrefixWarning prefixType, true⟩,
          (unknownPrefixWarning prefixType).length)
      else (state, 0) := by
  have standard : prefixType ≠ "standard".toList := unknown .standard
  have function : prefixType ≠ "function".toList := unknown .function
  have line : prefixType ≠ "line".toList := unknown .line
  have full : prefixType ≠ "full".toList := unknown .full
  simp only [printLogPrefix, typed, if_neg standard, if_neg function, if_neg line, if_neg full,
    printText]

section Calls

variable {build : LogBuild} {env : LogEnv} {state : LogState} {level : LogLevel}
  {message : List Char}

theorem vlogLine_silent (quiet : (getLogLevel env).value < level.value) :
    vlogLine build env state level message = (state, 0) :=
  if_pos quiet

theorem vlogLine_loud (loud : ¬(getLogLevel env).value < level.value) {front : List Char}
    {warned : Bool}
    (printed : printLogPrefix build env state level =
      (⟨state.stdout ++ front, warned⟩, front.length)) :
    vlogLine build env state level message =
      (⟨state.stdout ++ (front ++ message ++ ['\n']), warned⟩,
        (front ++ message ++ ['\n']).length) := by
  simp only [vlogLine, if_neg loud, printed, printText]
  simp [Nat.add_assoc]

end Calls

theorem PrefixType.name_injective : Function.Injective PrefixType.name := by
  intro first second same
  cases first <;> cases second <;> first | rfl | exact absurd same (by decide)

structure Remembers (build : LogBuild) (stdout : List Char)
    (state : LogState × List LogEntry) : Prop where
  written : state.1.stdout = stdout ++ state.2.flatMap LogEntry.text
  warned : state.1.unknownPrefixAlreadyWarned = true ↔
    ∃ earlier ∈ state.2, ∃ other, earlier.call.Puzzled other
  right : Throughout (LoggedRight build) state.2

section Steps

variable {build : LogBuild} {stdout text : List Char} {state : LogState × List LogEntry}
  {call : LogCall} {before : List LogEntry}

theorem Remembers.concat (remembers : Remembers build stdout state) {warned : Bool}
    {printed : Nat}
    (logged : vlogLine build call.env state.1 call.logger.level call.message =
      (⟨state.1.stdout ++ text, warned⟩, printed))
    (right : LoggedRight build state.2 ⟨call, text, printed⟩)
    (flag : warned = true ↔
      state.1.unknownPrefixAlreadyWarned = true ∨ ∃ other, call.Puzzled other) :
    Remembers build stdout (logStep build state call) := by
  have stepped : logStep build state call =
      (⟨state.1.stdout ++ text, warned⟩, state.2 ++ [⟨call, text, printed⟩]) := by
    simp [logStep, Logger.log_eq, logged]
  rw [stepped]
  exact {
    written := by simp [remembers.written]
    warned := by simp [flag, remembers.warned, or_and_right, exists_or]
    right := throughout_concat.mpr ⟨remembers.right, right⟩ }

theorem loggedRight_silent (quiet : ¬call.Loud) : LoggedRight build before ⟨call, [], 0⟩ where
  returned := rfl
  silent _ := rfl
  bare loud := absurd loud quiet
  known loud := absurd loud quiet
  warned _ puzzled := absurd puzzled.1 quiet
  again _ puzzled := absurd puzzled.1 quiet

theorem loggedRight_bare (loud : call.Loud) (bare : call.env.bunuelLogPrefixType = none) :
    LoggedRight build before ⟨call, call.message ++ ['\n'], (call.message ++ ['\n']).length⟩ where
  returned := rfl
  silent quiet := absurd loud quiet
  bare _ _ := rfl
  known _ _ typed := by cases bare.symm.trans typed
  warned _ puzzled := by cases bare.symm.trans puzzled.2.1
  again _ puzzled := by cases bare.symm.trans puzzled.2.1

theorem loggedRight_known (loud : call.Loud) {known : PrefixType}
    (typed : call.env.bunuelLogPrefixType = some known.name)
    (written : text = known.text build call.logger.level ++ call.message ++ ['\n']) :
    LoggedRight build before ⟨call, text, text.length⟩ where
  returned := rfl
  silent quiet := absurd loud quiet
  bare _ none := by cases typed.symm.trans none
  known _ other otherTyped := by
    have same : known = other :=
      PrefixType.name_injective (Option.some.inj (typed.symm.trans otherTyped))
    exact same ▸ written
  warned _ puzzled := absurd (Option.some.inj (puzzled.2.1.symm.trans typed)) (puzzled.2.2 known)
  again _ puzzled := absurd (Option.some.inj (puzzled.2.1.symm.trans typed)) (puzzled.2.2 known)

theorem loggedRight_puzzled {prefixType : List Char} (puzzled : call.Puzzled prefixType)
    (warns : (∀ earlier ∈ before, ∀ other, ¬earlier.call.Puzzled other) →
      text = unknownPrefixWarning prefixType ++ call.message ++ ['\n'])
    (again : (∃ earlier ∈ before, ∃ other, earlier.call.Puzzled other) →
      text = call.message ++ ['\n']) :
    LoggedRight build before ⟨call, text, text.length⟩ where
  returned := rfl
  silent quiet := absurd puzzled.1 quiet
  bare _ none := by cases puzzled.2.1.symm.trans none
  known _ other typed := absurd (Option.some.inj (puzzled.2.1.symm.trans typed)) (puzzled.2.2 other)
  warned other puzzles first := by
    rw [← Option.some.inj (puzzled.2.1.symm.trans puzzles.2.1)]
    exact warns first
  again _ _ := again

theorem Remembers.step (remembers : Remembers build stdout state) (call : LogCall) :
    Remembers build stdout (logStep build state call) := by
  have plain (printed : ∀ other, ¬call.Puzzled other) :
      state.1.unknownPrefixAlreadyWarned = true ↔
        state.1.unknownPrefixAlreadyWarned = true ∨ ∃ other, call.Puzzled other := by
    exact (or_iff_left (not_exists.mpr printed)).symm
  by_cases loud : call.Loud
  case neg =>
    have logged : vlogLine build call.env state.1 call.logger.level call.message =
        (⟨state.1.stdout ++ [], state.1.unknownPrefixAlreadyWarned⟩, 0) := by
      rw [List.append_nil]
      exact vlogLine_silent (not_not.mp (call.loud_iff.not.mp loud))
    exact remembers.concat logged (loggedRight_silent loud)
      (plain fun _ puzzled => loud puzzled.1)
  have heard := call.loud_iff.mp loud
  rcases typed : call.env.bunuelLogPrefixType with _ | prefixType
  · have printed : printLogPrefix build call.env state.1 call.logger.level =
        (⟨state.1.stdout ++ [], state.1.unknownPrefixAlreadyWarned⟩, ([] : List Char).length) := by
      simp [printLogPrefix, typed]
    exact remembers.concat (vlogLine_loud heard printed) (loggedRight_bare loud typed)
      (plain fun _ puzzled => by cases typed.symm.trans puzzled.2.1)
  by_cases isKnown : ∃ known : PrefixType, prefixType = known.name
  · obtain ⟨known, rfl⟩ := isKnown
    exact remembers.concat (vlogLine_loud heard (printLogPrefix_known typed))
      (loggedRight_known loud typed rfl)
      (plain fun _ puzzled =>
        puzzled.2.2 known (Option.some.inj (puzzled.2.1.symm.trans typed)))
  have puzzled : call.Puzzled prefixType := ⟨loud, typed, not_exists.mp isKnown⟩
  have printed : printLogPrefix build call.env state.1 call.logger.level = _ :=
    printLogPrefix_unknown typed puzzled.2.2
  by_cases first : state.1.unknownPrefixAlreadyWarned = false
  · rw [if_pos first] at printed
    refine remembers.concat (vlogLine_loud heard printed)
      (loggedRight_puzzled puzzled (fun _ => rfl) fun earlier => ?_) ?_
    · rw [remembers.warned.mpr earlier] at first
      cases first
    · exact iff_of_true rfl (Or.inr ⟨_, puzzled⟩)
  · have already : state.1.unknownPrefixAlreadyWarned = true := by simpa using first
    have silent : printLogPrefix build call.env state.1 call.logger.level =
        (⟨state.1.stdout ++ [], state.1.unknownPrefixAlreadyWarned⟩, ([] : List Char).length) := by
      rw [printed, if_neg first, List.append_nil]
      rfl
    refine remembers.concat (vlogLine_loud heard silent)
      (loggedRight_puzzled puzzled (fun none => ?_) fun _ => rfl) ?_
    · obtain ⟨earlier, member, other, puzzles⟩ := remembers.warned.mp already
      exact absurd puzzles (none earlier member other)
    · exact iff_of_true already (Or.inl already)

theorem logRun_remembers (calls : List LogCall) (remembers : Remembers build stdout state) :
    Remembers build stdout (calls.foldl (logStep build) state) ∧
      (calls.foldl (logStep build) state).2.map LogEntry.call =
        state.2.map LogEntry.call ++ calls := by
  induction calls generalizing state with
  | nil => exact ⟨remembers, (List.append_nil _).symm⟩
  | cons call rest ih =>
      obtain ⟨after, called⟩ := ih (remembers.step call)
      refine ⟨after, called.trans ?_⟩
      simp [logStep]

end Steps

/-- Whatever becomes of the environment between the calls, each call writes and returns what is
told, and a prefix type that does not exist is reported by the first call that asks for one. -/
theorem logged_right (build : LogBuild) (stdout : List Char) (calls : List LogCall) :
    (logRun build stdout calls).1.stdout =
        stdout ++ (logRun build stdout calls).2.flatMap LogEntry.text ∧
      (logRun build stdout calls).2.map LogEntry.call = calls ∧
      Throughout (LoggedRight build) (logRun build stdout calls).2 := by
  have initially : Remembers build stdout (⟨stdout, false⟩, []) := {
    written := (List.append_nil stdout).symm
    warned := by simp
    right := throughout_nil _ }
  obtain ⟨after, called⟩ := logRun_remembers calls initially
  exact ⟨after.written, called, after.right⟩

end YakUnshorn
