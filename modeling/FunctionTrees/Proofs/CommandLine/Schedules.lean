import FunctionTrees.CommandLine.Run
import FunctionTrees.Proofs.Crew
import FunctionTrees.Proofs.Lowering.Refinement

/-!
# Schedules do not show

* `resultOf` : the entity of a function, or its failure;
* `intakeOf_eq`, `ofContent_eq` : what becomes of the functions of a unit, whoever works on them and when;
* `Options.run_eq` : a run of the tool ends the same way with any number of jobs and any schedules;
* `results_in_order` : whatever happens in which order, each function has its result in its place in the end.
-/

set_option autoImplicit false

namespace FunctionTrees.CommandLine

def resultOf (function : Transfer.Function) : Except FunctionFailure Entity := (entityOrFailure function).result

/-- The results are taken in in the order of the unit. -/
theorem intakeOf_eq (workers : Nat) (schedule : Crew.Schedule) (functions : List Transfer.Function) :
    intakeOf workers schedule functions = (functions.map resultOf).foldl Intake.add {} := by
  rw [intakeOf, Crew.inOrder_eq_map]
  rfl

theorem InputResult.ofContent_eq (workers workers' : Nat) (schedule schedule' : Crew.Schedule)
    (content : Except FileError ByteArray) :
    InputResult.ofContent workers schedule content = InputResult.ofContent workers' schedule' content := by
  unfold InputResult.ofContent
  split
  · rw [intakeOf_eq, intakeOf_eq]
  · rfl

section Runs

variable {m : Type → Type} [Monad m] [Files m]

theorem processInputs_eq (options : Options) (jobs : Option Nat) (schedules schedules' : Nat → Crew.Schedule)
    (progress : Progress) (inputs : List String) :
    processInputs (m := m) { options with jobs } schedules progress inputs =
      processInputs options schedules' progress inputs := by
  induction inputs generalizing progress with
  | nil => rfl
  | cons input inputs ih =>
    have hlisted : ({ options with jobs } : Options).listed = options.listed := rfl
    have hdrain : drain (m := m) { options with jobs } = drain options := rfl
    unfold processInputs
    congr 1
    funext content
    rw [InputResult.ofContent_eq _ options.workers _ (schedules' progress.report.length), hlisted]
    dsimp only
    split
    · rfl
    · rw [hdrain]
      congr 1
      funext drained
      split
      · rfl
      · exact ih _

/-- A run ends the same way with any number of jobs and any schedules. -/
theorem Options.run_eq (options : Options) (jobs : Option Nat) (schedules schedules' : Nat → Crew.Schedule) :
    ({ options with jobs } : Options).run schedules = (options.run schedules' : m Finish) := by
  have hinputs := processInputs_eq (m := m) options jobs schedules schedules' {} options.inputs
  obtain ⟨_, dump, verbose, output, inputs⟩ := options
  cases output with
  | none => exact hinputs
  | some path =>
    show (Files.create path >>= _) = Files.create path >>= _
    congr 1
    funext created
    split
    · exact hinputs
    · rfl

end Runs

/-! ## All functions of a unit -/

/-- In whatever order things happen, no result is lost, doubled or put in another place: at any point each function has
a result to come or in its slot, after three moves for each function nothing is left to do, and then the results are
those of the functions in the order of the unit. A run of the tool shows nothing of the order. -/
theorem results_in_order :
    (∀ (workers : Nat) (functions : List Transfer.Function) (moves : List Crew.Move),
      (Crew.start workers functions).Admits resultOf moves →
        let crew := (Crew.start workers functions).afterAll resultOf moves
        crew.Balanced resultOf functions ∧ crew.movesLeft + moves.length = 3 * functions.length ∧
          (crew.moves = [] → crew.slots.filterMap id = functions.map resultOf ∧
            ∃ schedule, (Crew.start workers functions).run resultOf schedule = crew)) ∧
    (∀ (workers : Nat) (schedule : Crew.Schedule) (functions : List Transfer.Function),
      Crew.inOrder workers schedule resultOf functions = functions.map resultOf ∧
        intakeOf workers schedule functions = (functions.map resultOf).foldl Intake.add {}) ∧
    ∀ (m : Type → Type) [Monad m] [Files m] (options : Options) (jobs : Option Nat)
      (schedules schedules' : Nat → Crew.Schedule),
      ({ options with jobs } : Options).run schedules = (options.run schedules' : m Finish) := by
  refine ⟨fun workers functions moves hmoves => ⟨?_, ?_, fun hdone => ⟨?_, ?_⟩⟩,
    fun workers schedule functions => ⟨?_, ?_⟩, fun m => Options.run_eq⟩
  · exact Crew.balanced_afterAll (Crew.balanced_start workers functions) hmoves
  · have hleft := Crew.movesLeft_afterAll hmoves
    simpa [Crew.start, Crew.movesLeft] using hleft
  · have hbalanced := Crew.balanced_afterAll (Crew.balanced_start workers functions) hmoves
    rw [hbalanced.slots_eq hdone, List.filterMap_map]
    exact List.filterMap_some
  · exact Crew.exists_schedule hmoves hdone
  · exact Crew.inOrder_eq_map workers schedule resultOf functions
  · exact intakeOf_eq workers schedule functions

/-- Two functions, the second of which is taken first and fails. -/
theorem results_in_order_overtaken :
    let functions := [Lowering.sample, { Lowering.sample with version := 7 }]
    let moves : List Crew.Move := [.take 1, .finish 0, .take 0, .finish 0, .deliver 1, .deliver 0]
    (Crew.start 2 functions).Admits resultOf moves ∧
      ((Crew.start 2 functions).afterAll resultOf moves).moves = [] ∧
      ((Crew.start 2 functions).afterAll resultOf moves).slots.filterMap id = functions.map resultOf := by
  intro functions moves
  have hmoves : (Crew.start 2 functions).Admits resultOf moves := by decide
  have hdone : ((Crew.start 2 functions).afterAll resultOf moves).moves = [] := by decide
  exact ⟨hmoves, hdone, ((results_in_order.1 2 functions moves hmoves).2.2 hdone).1⟩

end FunctionTrees.CommandLine
