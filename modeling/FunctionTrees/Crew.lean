/-!
# Crews

A `Crew` works through numbered tasks. A task waits until an idle worker takes it, ends in a report that is sent, and the
report is delivered into the slot of its number. At most points several of these moves are possible, and a `Schedule` picks
one: `Crew.moves` lists the moves that are possible, `Crew.after` is the crew after a move, and `Crew.run` makes moves
until none is left. `Crew.inOrder` reads the results off the slots.
-/

set_option autoImplicit false

namespace FunctionTrees

/-- Workers, and how far each task has come. -/
structure Crew (α β : Type) where
  /-- How many tasks can be in work at a time. -/
  workers : Nat
  /-- The tasks that nobody has taken, with their numbers. -/
  waiting : List (α × Nat)
  busy : List (α × Nat) := []
  /-- The reports on their way, with the numbers of their tasks. -/
  sent : List (β × Nat) := []
  /-- What has been delivered for each task. -/
  slots : List (Option β)
  staffed : 0 < workers

namespace Crew

/-- Something that can happen next; the index is that of the task or report among those of its stage. -/
inductive Move where
  | take (index : Nat)
  | finish (index : Nat)
  | deliver (index : Nat)
deriving DecidableEq

/-- Which of the possible moves is made, one number for each: it is reduced modulo the number of possible moves. Once the
numbers run out, it is the first possible move each time. -/
abbrev Schedule := List Nat

variable {α β : Type}

/-- The crew before anything has happened, with at least one worker. -/
def start (workers : Nat) (tasks : List α) : Crew α β where
  workers := max 1 workers
  waiting := tasks.zipIdx
  slots := tasks.map fun _ => none
  staffed := by omega

/-- What can happen next. -/
def moves (crew : Crew α β) : List Move :=
  (if crew.busy.length < crew.workers then (List.range crew.waiting.length).map .take else []) ++
    (List.range crew.busy.length).map .finish ++ (List.range crew.sent.length).map .deliver

/-- The crew after a move. -/
def after (work : α → β) (crew : Crew α β) : Move → Crew α β
  | .take index =>
    { crew with waiting := crew.waiting.eraseIdx index, busy := crew.busy ++ crew.waiting[index]?.toList }
  | .finish index =>
    let report := crew.busy[index]?.map fun (task, number) => (work task, number)
    { crew with busy := crew.busy.eraseIdx index, sent := crew.sent ++ report.toList }
  | .deliver index =>
    match crew.sent[index]? with
    | some (result, number) =>
      { crew with sent := crew.sent.eraseIdx index, slots := crew.slots.set number (some result) }
    | none => crew

/-- How many moves are still to be made. -/
def movesLeft (crew : Crew α β) : Nat := 3 * crew.waiting.length + 2 * crew.busy.length + crew.sent.length

theorem mem_moves {crew : Crew α β} {move : Move} :
    move ∈ crew.moves ↔ match move with
      | .take index => crew.busy.length < crew.workers ∧ index < crew.waiting.length
      | .finish index => index < crew.busy.length
      | .deliver index => index < crew.sent.length := by
  unfold moves
  cases move <;> split <;> simp [*]

/-- Every move leaves one fewer to make. -/
theorem movesLeft_after (work : α → β) {crew : Crew α β} {move : Move} (h : move ∈ crew.moves) :
    (crew.after work move).movesLeft + 1 = crew.movesLeft := by
  rw [mem_moves] at h
  cases move with
  | take index => simp [after, movesLeft, List.length_eraseIdx, h.2]; omega
  | finish index =>
    replace h : index < crew.busy.length := h
    simp [after, movesLeft, List.length_eraseIdx, h]; omega
  | deliver index =>
    replace h : index < crew.sent.length := h
    simp [after, movesLeft, List.length_eraseIdx, h]; omega

/-- The crew once nothing is left to do. -/
def run (work : α → β) (schedule : Schedule) (crew : Crew α β) : Crew α β :=
  match h : crew.moves with
  | [] => crew
  | first :: others =>
    let pick : Fin (first :: others).length := ⟨schedule.headD 0 % (others.length + 1), Nat.mod_lt _ (Nat.succ_pos _)⟩
    run work schedule.tail (crew.after work (first :: others)[pick])
termination_by crew.movesLeft
decreasing_by
  have mem : (first :: others)[pick] ∈ crew.moves := by
    rw [h]
    exact List.getElem_mem pick.isLt
  exact Nat.lt_of_succ_le (Nat.le_of_eq (movesLeft_after work mem))

/-- The results of all tasks in the order of the tasks, whatever the schedule. -/
def inOrder (workers : Nat) (schedule : Schedule) (work : α → β) (tasks : List α) : List β :=
  ((start workers tasks).run work schedule).slots.filterMap id

end Crew

end FunctionTrees
