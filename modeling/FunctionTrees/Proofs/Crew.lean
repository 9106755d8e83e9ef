import FunctionTrees.Crew
import Mathlib.Data.List.Perm.Basic

/-!
# Crews deliver every result once, in its place

* `tickets work crew` : the reports that are still to be delivered, sent or not; `tickets_take`, `tickets_finish` (they
  stay the same), `tickets_deliver` (one is taken off, and its slot filled);
* `Balanced work tasks crew` : each task has a report to come or a slot that is filled, never both, and all of them hold
  the right result; `balanced_start`, `Balanced.after`;
* `Admits`, `afterAll` : moves that are possible one after the other; `balanced_afterAll`, `movesLeft_afterAll`;
* `Balanced.slots_eq` : where no move is left, every slot is filled;
* `exists_moves_of_run`, `exists_schedule` : the schedules pick the possible orders of moves, and all of them;
* `inOrder_eq_map` : the results are those of the tasks, in the order of the tasks.
-/

set_option autoImplicit false

namespace FunctionTrees.Crew

variable {α β : Type} {work : α → β} {tasks : List α} {crew : Crew α β}

/-! ## Reports to come -/

def report (work : α → β) (task : α × Nat) : β × Nat := (work task.1, task.2)

/-- The reports that are still to be delivered, sent or not. -/
def tickets (work : α → β) (crew : Crew α β) : List (β × Nat) :=
  crew.waiting.map (report work) ++ (crew.busy.map (report work) ++ crew.sent)

theorem eraseIdx_append_perm {γ : Type} {items : List γ} {index : Nat} (h : index < items.length) :
    (items.eraseIdx index ++ [items[index]]).Perm items :=
  (List.perm_append_singleton _ _).trans (List.getElem_cons_eraseIdx_perm h)

/-- What is moved from the first list to the end of the second stays in both together. -/
theorem append_perm_of_moved {γ : Type} {first first' : List γ} {item : γ} (h : (first' ++ [item]).Perm first)
    (second : List γ) : (first' ++ (second ++ [item])).Perm (first ++ second) := by
  refine .trans ?_ (h.append_right second)
  rw [List.append_assoc]
  exact List.perm_append_comm.append_left first'

theorem tickets_take {index : Nat} (h : index < crew.waiting.length) :
    ((crew.after work (.take index)).tickets work).Perm (crew.tickets work) := by
  have hbusy : (crew.after work (.take index)).busy = crew.busy ++ [crew.waiting[index]] := by
    simp [after, List.getElem?_eq_getElem h]
  have hmoved := (eraseIdx_append_perm h).map (report work)
  rw [List.map_append, List.map_singleton] at hmoved
  have hboth := (append_perm_of_moved hmoved (crew.busy.map (report work))).append_right crew.sent
  rw [List.append_assoc, List.append_assoc (crew.waiting.map _)] at hboth
  show (_ ++ ((crew.after work (.take index)).busy.map (report work) ++ crew.sent)).Perm (crew.tickets work)
  rw [hbusy, List.map_append, List.map_singleton]
  exact hboth

theorem tickets_finish {index : Nat} (h : index < crew.busy.length) :
    ((crew.after work (.finish index)).tickets work).Perm (crew.tickets work) := by
  have hsent : (crew.after work (.finish index)).sent = crew.sent ++ [report work crew.busy[index]] := by
    simp [after, List.getElem?_eq_getElem h, report]
  have hmoved := (eraseIdx_append_perm h).map (report work)
  rw [List.map_append, List.map_singleton] at hmoved
  unfold tickets
  rw [hsent]
  exact (append_perm_of_moved hmoved crew.sent).append_left _

theorem tickets_deliver {index : Nat} (h : index < crew.sent.length) :
    (crew.tickets work).Perm (crew.sent[index] :: (crew.after work (.deliver index)).tickets work) := by
  have hafter : (crew.after work (.deliver index)).tickets work =
      crew.waiting.map (report work) ++ (crew.busy.map (report work) ++ crew.sent.eraseIdx index) := by
    simp [tickets, after, List.getElem?_eq_getElem h]
  rw [hafter, tickets, ← List.append_assoc, ← List.append_assoc]
  exact ((List.getElem_cons_eraseIdx_perm h).symm.append_left _).trans List.perm_middle

theorem slots_deliver {index : Nat} (h : index < crew.sent.length) :
    (crew.after work (.deliver index)).slots = crew.slots.set crew.sent[index].2 (some crew.sent[index].1) := by
  simp [after, List.getElem?_eq_getElem h]

/-! ## The balance -/

/-- Each task has a report to come or a slot that is filled, never both, and all of them hold the right result. -/
structure Balanced (work : α → β) (tasks : List α) (crew : Crew α β) : Prop where
  /-- No two reports to come are of one task. -/
  nodup : ((crew.tickets work).map Prod.snd).Nodup
  /-- The reports to come are right. -/
  ticket : ∀ result number, (result, number) ∈ crew.tickets work → (tasks.map work)[number]? = some result
  length_eq : crew.slots.length = tasks.length
  /-- The slots that are not filled are those of the reports to come. -/
  open_iff : ∀ number : Nat, crew.slots[number]? = some none ↔ number ∈ (crew.tickets work).map Prod.snd
  /-- The results that have been delivered are right. -/
  filled : ∀ (number : Nat) result, crew.slots[number]? = some (some result) → (tasks.map work)[number]? = some result

theorem tickets_start (workers : Nat) (tasks : List α) :
    (start workers tasks).tickets work = (tasks.map work).zipIdx := by
  simp [tickets, start, List.zipIdx_map, report, Prod.map]

theorem balanced_start (workers : Nat) (tasks : List α) : (start workers tasks).Balanced work tasks := by
  refine ⟨?_, fun result number hmem => ?_, ?_, fun number => ?_, fun number result hslot => ?_⟩
  · rw [tickets_start, List.zipIdx_map_snd]
    exact List.nodup_range'
  · rw [tickets_start, List.mk_mem_zipIdx_iff_getElem?] at hmem
    exact hmem
  · simp [start]
  · rw [tickets_start, List.zipIdx_map_snd]
    simp [start, List.getElem?_replicate]
  · have hnone := List.mem_of_getElem? hslot
    simp [start] at hnone

/-- Where neither the reports to come nor the slots change, the balance is kept. -/
theorem Balanced.congr {crew' : Crew α β} (h : crew.Balanced work tasks)
    (htickets : (crew'.tickets work).Perm (crew.tickets work)) (hslots : crew'.slots = crew.slots) :
    crew'.Balanced work tasks := by
  have hnumbers := htickets.map Prod.snd
  refine ⟨hnumbers.nodup_iff.2 h.nodup, fun result number hmem => ?_, hslots ▸ h.length_eq, fun number => ?_, ?_⟩
  · exact h.ticket result number (htickets.mem_iff.1 hmem)
  · rw [hslots, hnumbers.mem_iff]
    exact h.open_iff number
  · rw [hslots]
    exact h.filled

/-- A delivery takes one report off and fills the slot of its number. -/
theorem Balanced.deliver {crew' : Crew α β} {result : β} {number : Nat} (h : crew.Balanced work tasks)
    (htickets : (crew.tickets work).Perm ((result, number) :: crew'.tickets work))
    (hslots : crew'.slots = crew.slots.set number (some result)) : crew'.Balanced work tasks := by
  have hnumbers := htickets.map Prod.snd
  rw [List.map_cons] at hnumbers
  obtain ⟨hnew, hnodup⟩ := List.nodup_cons.1 (hnumbers.nodup_iff.1 h.nodup)
  have hright := h.ticket result number (htickets.mem_iff.2 List.mem_cons_self)
  refine ⟨hnodup, fun other other' hmem => ?_, ?_, fun other => ?_, fun other value hslot => ?_⟩
  · exact h.ticket other other' (htickets.mem_iff.2 (List.mem_cons_of_mem _ hmem))
  · rw [hslots, List.length_set, h.length_eq]
  · -- the number of the report was that of an open slot, and is no longer among those to come
    have hopen := (h.open_iff other).trans hnumbers.mem_iff
    rw [List.mem_cons] at hopen
    rw [hslots, List.getElem?_set]
    by_cases hother : number = other
    · subst hother
      rw [if_pos rfl]
      refine ⟨fun hslot => ?_, fun hmem => absurd hmem hnew⟩
      split at hslot <;> cases hslot
    · rw [if_neg hother, hopen]
      exact ⟨fun hor => hor.resolve_left (Ne.symm hother), .inr⟩
  · rw [hslots, List.getElem?_set] at hslot
    split at hslot
    next heq =>
      subst heq
      split at hslot
      · cases hslot
        exact hright
      · cases hslot
    next => exact h.filled other value hslot

theorem Balanced.after (h : crew.Balanced work tasks) {move : Move} (hmove : move ∈ crew.moves) :
    (crew.after work move).Balanced work tasks := by
  rw [mem_moves] at hmove
  cases move with
  | take index => exact h.congr (tickets_take hmove.2) rfl
  | finish index => exact h.congr (tickets_finish hmove) rfl
  | deliver index => exact h.deliver (tickets_deliver hmove) (slots_deliver hmove)

/-- Where no move is left, nothing is to come. -/
theorem tickets_eq_nil (h : crew.moves = []) : crew.tickets work = [] := by
  have hnone (move : Move) : move ∉ crew.moves := by
    rw [h]
    exact List.not_mem_nil
  have hsent : crew.sent = [] := by
    by_contra hne
    exact hnone (.deliver 0) (mem_moves.2 (List.length_pos_of_ne_nil hne))
  have hbusy : crew.busy = [] := by
    by_contra hne
    exact hnone (.finish 0) (mem_moves.2 (List.length_pos_of_ne_nil hne))
  -- all workers are idle, so one of them could take a task
  have hwaiting : crew.waiting = [] := by
    by_contra hne
    refine hnone (.take 0) (mem_moves.2 ⟨?_, List.length_pos_of_ne_nil hne⟩)
    rw [hbusy]
    exact crew.staffed
  rw [tickets, hsent, hbusy, hwaiting]
  rfl

/-- Where no move is left, every slot is filled, with the result of its task. -/
theorem Balanced.slots_eq (h : crew.Balanced work tasks) (hdone : crew.moves = []) :
    crew.slots = (tasks.map work).map some := by
  apply List.ext_getElem?
  intro number
  rw [List.getElem?_map]
  cases hslot : crew.slots[number]? with
  | none =>
    rw [List.getElem?_eq_none_iff, h.length_eq] at hslot
    rw [List.getElem?_eq_none (by rwa [List.length_map])]
    rfl
  | some slot =>
    cases slot with
    | none =>
      have hmem := (h.open_iff number).1 hslot
      rw [tickets_eq_nil hdone] at hmem
      cases hmem
    | some result => rw [h.filled number result hslot, Option.map_some]

/-! ## Rows of moves -/

/-- Each move of the list is possible when its turn comes. -/
def Admits (work : α → β) (crew : Crew α β) : List Move → Prop
  | [] => True
  | move :: moves => move ∈ crew.moves ∧ Admits work (crew.after work move) moves

instance decidableAdmits (work : α → β) : (crew : Crew α β) → (moves : List Move) → Decidable (crew.Admits work moves)
  | _, [] => .isTrue trivial
  | crew, move :: moves =>
    have := decidableAdmits work (crew.after work move) moves
    inferInstanceAs (Decidable (_ ∧ _))

def afterAll (work : α → β) (crew : Crew α β) (moves : List Move) : Crew α β := moves.foldl (after work) crew

theorem balanced_afterAll {moves : List Move} (h : crew.Balanced work tasks) (hmoves : crew.Admits work moves) :
    (crew.afterAll work moves).Balanced work tasks := by
  induction moves generalizing crew with
  | nil => exact h
  | cons move moves ih => exact ih (h.after hmoves.1) hmoves.2

/-- Every row of moves comes to an end. -/
theorem movesLeft_afterAll {moves : List Move} (hmoves : crew.Admits work moves) :
    (crew.afterAll work moves).movesLeft + moves.length = crew.movesLeft := by
  induction moves generalizing crew with
  | nil => rfl
  | cons move moves ih =>
    have hstep := movesLeft_after work hmoves.1
    have hrest : (crew.afterAll work (move :: moves)).movesLeft + moves.length = _ := ih hmoves.2
    rw [List.length_cons]
    omega

/-! ## Schedules -/

/-- A run makes possible moves until none is left. -/
theorem exists_moves_of_run (work : α → β) (schedule : Schedule) (crew : Crew α β) :
    ∃ moves, crew.Admits work moves ∧ crew.run work schedule = crew.afterAll work moves ∧
      (crew.run work schedule).moves = [] := by
  fun_induction run work schedule crew with
  | case1 schedule crew hnone => exact ⟨[], trivial, rfl, hnone⟩
  | case2 schedule crew first others hmoves pick ih =>
    obtain ⟨moves, hadmits, hrun, hdone⟩ := ih
    have hmem : (first :: others)[pick] ∈ crew.moves := by
      rw [hmoves]
      exact List.getElem_mem pick.isLt
    exact ⟨(first :: others)[pick] :: moves, ⟨hmem, hadmits⟩, hrun, hdone⟩

/-- Each possible row of moves after which none is left is picked by some schedule. -/
theorem exists_schedule {moves : List Move} (hmoves : crew.Admits work moves)
    (hdone : (crew.afterAll work moves).moves = []) : ∃ schedule, crew.run work schedule = crew.afterAll work moves := by
  induction moves generalizing crew with
  | nil =>
    refine ⟨[], ?_⟩
    have hnone : crew.moves = [] := hdone
    rw [run]
    split
    · rfl
    next hcons => simp [hnone] at hcons
  | cons move moves ih =>
    obtain ⟨hmem, hrest⟩ := hmoves
    obtain ⟨schedule, hrun⟩ := ih hrest hdone
    obtain ⟨index, hlt, hmove⟩ := List.getElem_of_mem hmem
    -- the schedule starts with the place that the move has among those possible
    refine ⟨index :: schedule, ?_⟩
    rw [run]
    split
    next hnone => simp [hnone] at hlt
    next first others hcons =>
      have hbound : index < (first :: others).length := hcons ▸ hlt
      have hindex : index % (others.length + 1) = index := Nat.mod_eq_of_lt hbound
      have hpicked : (first :: others)[index] = move := by simpa only [hcons] using hmove
      simp only [List.headD_cons, List.tail_cons, Fin.getElem_fin, hindex, hpicked]
      exact hrun

/-! ## All together -/

/-- The results are those of the tasks, in the order of the tasks. -/
theorem inOrder_eq_map (workers : Nat) (schedule : Schedule) (work : α → β) (tasks : List α) :
    inOrder workers schedule work tasks = tasks.map work := by
  obtain ⟨moves, hadmits, hrun, hdone⟩ := exists_moves_of_run work schedule (start workers tasks)
  have hbalanced := balanced_afterAll (balanced_start workers tasks) hadmits
  rw [← hrun] at hbalanced
  rw [inOrder, hbalanced.slots_eq hdone, List.filterMap_map]
  exact List.filterMap_some

end FunctionTrees.Crew
