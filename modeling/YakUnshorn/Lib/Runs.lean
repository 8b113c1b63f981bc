import Mathlib.Init

/-!
Runs of a machine whose steps may fault, and the rules by which facts about one
step become facts about whole runs.
-/

namespace StepRuns

variable {State Op : Type*}

/-- The state after a run, or nothing when one of its steps faults. -/
def run (step : State → Op → Option State) : State → List Op → Option State
  | state, [] => some state
  | state, op :: rest => (step state op).bind fun after => run step after rest

/-- `holds` is true of every operation of the run, in the state the operation is applied to. -/
def Along (step : State → Op → Option State) (holds : State → Op → Prop) :
    State → List Op → Prop
  | _, [] => True
  | state, op :: rest =>
      holds state op ∧ ∀ after, step state op = some after → Along step holds after rest

section Rules

variable {step : State → Op → Option State}

@[simp] theorem run_cons (state : State) (op : Op) (rest : List Op) :
    run step state (op :: rest) = (step state op).bind fun after => run step after rest := rfl

@[simp] theorem along_cons (holds : State → Op → Prop) (state : State) (op : Op)
    (rest : List Op) :
    Along step holds state (op :: rest) ↔
      holds state op ∧ ∀ after, step state op = some after → Along step holds after rest :=
  Iff.rfl

theorem along_cons_some {holds : State → Op → Prop} {state after : State} {op : Op}
    {rest : List Op} (stepped : step state op = some after) :
    Along step holds state (op :: rest) ↔ holds state op ∧ Along step holds after rest := by
  simp [stepped]

theorem along_cons_none {holds : State → Op → Prop} {state : State} {op : Op} {rest : List Op}
    (faulted : step state op = none) :
    Along step holds state (op :: rest) ↔ holds state op := by
  simp [faulted]

instance decidableAlong (step : State → Op → Option State) (holds : State → Op → Prop)
    [decide : ∀ state op, Decidable (holds state op)] :
    (state : State) → (ops : List Op) → Decidable (Along step holds state ops)
  | _, [] => isTrue trivial
  | state, op :: rest =>
      match stepped : step state op with
      | none => decidable_of_iff _ (along_cons_none stepped).symm
      | some after =>
          have := decidableAlong step holds after rest
          decidable_of_iff _ (along_cons_some stepped).symm

theorem Along.of_forall {holds : State → Op → Prop} {state : State} {ops : List Op}
    (always : ∀ op ∈ ops, ∀ state, holds state op) : Along step holds state ops := by
  induction ops generalizing state with
  | nil => trivial
  | cons op rest ih =>
      refine ⟨always op List.mem_cons_self state, fun after stepped => ih ?_⟩
      exact fun later member => always later (List.mem_cons_of_mem op member)

theorem Along.mono {holds weaker : State → Op → Prop} {state : State} {ops : List Op}
    (along : Along step holds state ops) (implies : ∀ state op, holds state op → weaker state op) :
    Along step weaker state ops := by
  induction ops generalizing state with
  | nil => trivial
  | cons op rest ih =>
      exact ⟨implies _ _ along.1, fun after stepped => ih (along.2 after stepped)⟩

theorem Along.and {first second : State → Op → Prop} {state : State} {ops : List Op}
    (one : Along step first state ops) (two : Along step second state ops) :
    Along step (fun state op => first state op ∧ second state op) state ops := by
  induction ops generalizing state with
  | nil => trivial
  | cons op rest ih =>
      exact ⟨⟨one.1, two.1⟩, fun after stepped => ih (one.2 after stepped) (two.2 after stepped)⟩

theorem run_append (state : State) (first second : List Op) :
    run step state (first ++ second) =
      (run step state first).bind fun after => run step after second := by
  induction first generalizing state with
  | nil => rfl
  | cons op rest ih =>
      rw [List.cons_append, run_cons, run_cons, Option.bind_assoc]
      exact congrArg _ (funext ih)

theorem along_append {holds : State → Op → Prop} {state : State} {first second : List Op} :
    Along step holds state (first ++ second) ↔
      Along step holds state first ∧
        ∀ after, run step state first = some after → Along step holds after second := by
  induction first generalizing state with
  | nil => simp [run, Along]
  | cons op rest ih =>
      simp only [List.cons_append, along_cons, run_cons, Option.bind_eq_some_iff, ih]
      constructor
      · rintro ⟨here, later⟩
        refine ⟨⟨here, fun middle stepped => (later middle stepped).1⟩, ?_⟩
        rintro after ⟨middle, stepped, ran⟩
        exact (later middle stepped).2 after ran
      · rintro ⟨⟨here, later⟩, behind⟩
        exact ⟨here, fun middle stepped =>
          ⟨later middle stepped, fun after ran => behind after ⟨middle, stepped, ran⟩⟩⟩

def Reaches (step : State → Op → Option State) (guard : State → Op → Prop)
    (state after : State) : Prop :=
  ∃ ops, Along step guard state ops ∧ run step state ops = some after

section Reaching

variable {guard good : State → Op → Prop} {state middle after : State} {op : Op}

theorem Reaches.refl (state : State) : Reaches step guard state state := ⟨[], trivial, rfl⟩

theorem Reaches.single (guarded : guard state op) (stepped : step state op = some after) :
    Reaches step guard state after := by
  refine ⟨[op], ⟨guarded, fun _ _ => trivial⟩, ?_⟩
  rw [run_cons, stepped]
  rfl

theorem Reaches.trans (first : Reaches step guard state middle)
    (second : Reaches step guard middle after) : Reaches step guard state after := by
  obtain ⟨ops, guarded, ran⟩ := first
  obtain ⟨later, laterGuarded, laterRan⟩ := second
  refine ⟨ops ++ later, along_append.mpr ⟨guarded, fun found reached => ?_⟩, ?_⟩
  · rw [ran, Option.some.injEq] at reached
    exact reached ▸ laterGuarded
  · rw [run_append, ran, Option.bind_some, laterRan]

/-- What is good all along every guarded run is good in every state that these reach. -/
theorem Reaches.good_after (reached : Reaches step guard state after) (guarded : guard after op)
    (always : ∀ ops, Along step guard state ops → Along step good state ops) : good after op := by
  obtain ⟨ops, along, ran⟩ := reached
  have whole := always (ops ++ [op]) (along_append.mpr ⟨along, fun found reached => by
    rw [ran, Option.some.injEq] at reached
    exact reached ▸ ⟨guarded, fun _ _ => trivial⟩⟩)
  exact ((along_append.mp whole).2 after ran).1

end Reaching

/-- An invariant that every guarded step keeps holds at the end of every guarded run, and such
a run does not fault. -/
theorem run_invariant (invariant : State → Prop) {guard : State → Op → Prop}
    (keeps : ∀ state op, invariant state → guard state op →
      ∃ after, step state op = some after ∧ invariant after)
    {state : State} {ops : List Op} (initially : invariant state)
    (guarded : Along step guard state ops) :
    ∃ after, run step state ops = some after ∧ invariant after := by
  induction ops generalizing state with
  | nil => exact ⟨state, rfl, initially⟩
  | cons op rest ih =>
      obtain ⟨middle, stepped, held⟩ := keeps state op initially guarded.1
      obtain ⟨after, ran, kept⟩ := ih held (guarded.2 middle stepped)
      exact ⟨after, by simp [stepped, ran], kept⟩

/-- The state in which a guarded run ends, when its steps may fault. -/
theorem invariant_of_run (invariant : State → Prop) {guard : State → Op → Prop}
    (keeps : ∀ state op after, invariant state → guard state op → step state op = some after →
      invariant after)
    {state after : State} {ops : List Op} (initially : invariant state)
    (guarded : Along step guard state ops) (ran : run step state ops = some after) :
    invariant after := by
  induction ops generalizing state with
  | nil => exact Option.some.inj ran ▸ initially
  | cons op rest ih =>
      rw [run_cons, Option.bind_eq_some_iff] at ran
      obtain ⟨middle, stepped, later⟩ := ran
      exact ih (keeps state op middle initially guarded.1 stepped) (guarded.2 middle stepped) later

theorem along_of_invariant (invariant : State → Prop) {guard good : State → Op → Prop}
    (gives : ∀ state op, invariant state → guard state op → good state op)
    (keeps : ∀ state op after, invariant state → guard state op → step state op = some after →
      invariant after)
    {state : State} {ops : List Op} (initially : invariant state)
    (guarded : Along step guard state ops) : Along step good state ops := by
  induction ops generalizing state with
  | nil => trivial
  | cons op rest ih =>
      refine ⟨gives state op initially guarded.1, fun after stepped => ?_⟩
      exact ih (keeps state op after initially guarded.1 stepped) (guarded.2 after stepped)

/-- If, under an invariant, an operation does well exactly when it is guarded, then a run does
well all along exactly when it is guarded all along. The domain restricts the operations that
are considered at all. -/
theorem along_iff (invariant : State → Prop) {domain good guard : State → Op → Prop}
    (exact : ∀ state op, invariant state → domain state op → (good state op ↔ guard state op))
    (keeps : ∀ state op after, invariant state → domain state op → guard state op →
      step state op = some after → invariant after)
    {state : State} {ops : List Op} (initially : invariant state)
    (within : Along step domain state ops) :
    Along step good state ops ↔ Along step guard state ops := by
  induction ops generalizing state with
  | nil => exact Iff.rfl
  | cons op rest ih =>
      simp only [along_cons]
      have here := exact state op initially within.1
      constructor
      · rintro ⟨well, later⟩
        refine ⟨here.mp well, fun after stepped => ?_⟩
        have held := keeps state op after initially within.1 (here.mp well) stepped
        exact (ih held (within.2 after stepped)).mp (later after stepped)
      · rintro ⟨guarded, later⟩
        refine ⟨here.mpr guarded, fun after stepped => ?_⟩
        have held := keeps state op after initially within.1 guarded stepped
        exact (ih held (within.2 after stepped)).mpr (later after stepped)

end Rules

section Stopping

variable {Stop : Type*}

/-- A run of a machine that may stop on its own, with what stopped it. -/
def runUntil (step : State → Op → State × Option Stop) :
    State → List Op → State × Option Stop
  | state, [] => (state, none)
  | state, op :: rest =>
      match step state op with
      | (after, none) => runUntil step after rest
      | (after, some stop) => (after, some stop)

variable {step : State → Op → State × Option Stop}

theorem runUntil_cons_none {state after : State} {op : Op} (rest : List Op)
    (stepped : step state op = (after, none)) :
    runUntil step state (op :: rest) = runUntil step after rest := by
  simp only [runUntil, stepped]

theorem runUntil_cons_some {state after : State} {op : Op} {stop : Stop} (rest : List Op)
    (stepped : step state op = (after, some stop)) :
    runUntil step state (op :: rest) = (after, some stop) := by
  simp only [runUntil, stepped]

theorem of_runUntil {held : State → Prop} (back : ∀ state op, held (step state op).1 → held state)
    {state : State} {ops : List Op} (atEnd : held (runUntil step state ops).1) : held state := by
  induction ops generalizing state with
  | nil => exact atEnd
  | cons op rest ih =>
      rcases stepped : step state op with ⟨after, stop⟩
      have first : held (step state op).1 := by
        rw [stepped]
        cases stop with
        | none => exact ih (runUntil_cons_none rest stepped ▸ atEnd)
        | some stop => exact (runUntil_cons_some rest stepped ▸ atEnd :)
      exact back state op first

theorem runUntil_append_none {state after : State} {front : List Op} (back : List Op)
    (ran : runUntil step state front = (after, none)) :
    runUntil step state (front ++ back) = runUntil step after back := by
  induction front generalizing state with
  | nil =>
      cases ran
      rfl
  | cons op rest ih =>
      rcases stepped : step state op with ⟨middle, stop⟩
      cases stop with
      | none =>
          rw [runUntil_cons_none rest stepped] at ran
          rw [List.cons_append, runUntil_cons_none _ stepped, ih ran]
      | some stop =>
          rw [runUntil_cons_some rest stepped] at ran
          cases ran

theorem runUntil_append_some {state after : State} {front : List Op} {stop : Stop}
    (back : List Op) (ran : runUntil step state front = (after, some stop)) :
    runUntil step state (front ++ back) = (after, some stop) := by
  induction front generalizing state with
  | nil => cases ran
  | cons op rest ih =>
      rcases stepped : step state op with ⟨middle, found⟩
      cases found with
      | none =>
          rw [runUntil_cons_none rest stepped] at ran
          rw [List.cons_append, runUntil_cons_none _ stepped, ih ran]
      | some found =>
          rw [runUntil_cons_some rest stepped] at ran
          rw [List.cons_append, runUntil_cons_some _ stepped, ran]

/-- What no step restores held in the middle of a run, if it holds at the end. -/
theorem of_runUntil_append (held : State → Prop)
    (back : ∀ state op, held (step state op).1 → held state) {state : State} {first second : List Op}
    (atEnd : held (runUntil step state (first ++ second)).1) :
    held (runUntil step state first).1 := by
  rcases ran : runUntil step state first with ⟨after, stop⟩
  cases stop with
  | none =>
      rw [runUntil_append_none second ran] at atEnd
      exact of_runUntil back atEnd
  | some stop =>
      rw [runUntil_append_some second ran] at atEnd
      exact atEnd

variable {Abstract : Type*} {abstractStep : Abstract → Op → Abstract × Option Stop}

/-- Forward simulation: a relation that every allowed step keeps, stopping alike, is kept by
whole runs, which stop alike. The steps may rely on what holds at the end of the run. -/
theorem runUntil_simulates (related : State → Abstract → Prop) (held : State → Prop)
    {allowed : Op → Prop} (back : ∀ state op, held (step state op).1 → held state)
    (simulates : ∀ state abstract op, related state abstract → allowed op →
      held (step state op).1 → related (step state op).1 (abstractStep abstract op).1 ∧
        (step state op).2 = (abstractStep abstract op).2)
    {state : State} {abstract : Abstract} {ops : List Op} (initially : related state abstract)
    (within : ∀ op ∈ ops, allowed op) (atEnd : held (runUntil step state ops).1) :
    related (runUntil step state ops).1 (runUntil abstractStep abstract ops).1 ∧
      (runUntil step state ops).2 = (runUntil abstractStep abstract ops).2 := by
  induction ops generalizing state abstract with
  | nil => exact ⟨initially, rfl⟩
  | cons op rest ih =>
      rcases stepped : step state op with ⟨after, stop⟩
      rcases abstractStepped : abstractStep abstract op with ⟨abstractAfter, abstractStop⟩
      have here := simulates state abstract op initially (within op (by simp))
      rw [stepped, abstractStepped] at here
      cases stop with
      | none =>
          rw [runUntil_cons_none rest stepped] at atEnd ⊢
          obtain ⟨kept, alike⟩ := here (of_runUntil back atEnd)
          simp only at alike
          subst alike
          rw [runUntil_cons_none rest abstractStepped]
          exact ih kept (fun later member => within later (by simp [member])) atEnd
      | some stop =>
          rw [runUntil_cons_some rest stepped] at atEnd ⊢
          obtain ⟨kept, alike⟩ := here atEnd
          simp only at alike
          subst alike
          rw [runUntil_cons_some rest abstractStepped]
          exact ⟨kept, rfl⟩

end Stopping

end StepRuns
