import FunctionTrees.Formats.Transfer
import FunctionTrees.Proofs.Json.Float

/-!
# Functions that are handed over are read back from JSON

* `Function.floats` : the floats among the operands of a function;
* `reads_span`, `settles_operand`, `settles_instruction`, `settles_block`, `settles_function`, `settles_unit` : all that
  makes up a function is read back, but for floats that are not finite;
* `readsBack_iff_finite` : so a function or a unit is read back exactly if all its floats are finite.
-/

set_option autoImplicit false

namespace FunctionTrees.Transfer

open Json

/-! ## Floats -/

def Operand.floats : Operand → List UInt64
  | float bits => [bits]
  | _ => []

def Instruction.floats (inst : Instruction) : List UInt64 := inst.operands.flatMap Operand.floats

def Block.floats (block : Block) : List UInt64 := block.instructions.flatMap Instruction.floats

def Function.floats (function : Function) : List UInt64 := function.blocks.flatMap Block.floats

def AllFinite (floats : List UInt64) : Prop := ∀ bits ∈ floats, Decimal.isFinite bits = true

/-- The finite ones of the floats are read back from their texts. -/
def FiniteReadBack (floats : List UInt64) : Prop :=
  ∀ bits ∈ floats, Decimal.isFinite bits = true → Format.float.ReadsBack bits

instance (floats : List UInt64) : Decidable (AllFinite floats) :=
  List.decidableBAll (fun bits => Decimal.isFinite bits = true) floats

instance (floats : List UInt64) : Decidable (FiniteReadBack floats) :=
  List.decidableBAll (fun bits => Decimal.isFinite bits = true → Format.float.ReadsBack bits) floats

/-- What is found in place of a float that is not finite. -/
def noFloat : Misfit := .kind .null "f64"

/-- Values with floats are read back from a list if each of them is by itself. -/
theorem settles_floats {α : Type} {format : Format α} {floatsOf : α → List UInt64}
    (hformat : ∀ value, FiniteReadBack (floatsOf value) → format.Settles noFloat (AllFinite (floatsOf value)) value)
    {values : List α} (h : FiniteReadBack (values.flatMap floatsOf)) :
    format.list.Settles noFloat (AllFinite (values.flatMap floatsOf)) values := by
  have hlist : format.list.Settles noFloat (∀ value ∈ values, AllFinite (floatsOf value)) values :=
    Format.settles_listAs _ fun value hmem => hformat value (List.forall_mem_flatMap.1 h value hmem)
  exact hlist.congr List.forall_mem_flatMap.symm

/-! ## Parts of a function -/

theorem reads_span (span : Span) : Span.format.Reads span :=
  Format.reads_record (by decide)
    (.field (Format.reads_text _) (.field (Format.reads_word32 _) (.field (Format.reads_word32 _)
      (.field (Format.reads_word32 _) (.field (Format.reads_word32 _) .done))))) rfl

theorem reads_span? (span : Option Span) : Span.format.optional.Reads span := by
  cases span with
  | none => exact Format.reads_none _
  | some span => exact (reads_span span).optional (Format.head_write_record _ _ _ _ span)

theorem reads_text? (text : Option String) : Format.text.optional.Reads text := by
  cases text with
  | none => exact Format.reads_none _
  | some text => exact (Format.reads_text text).optional (by simp [Format.text, writeText])

theorem settles_operand (operand : Operand) (h : FiniteReadBack operand.floats) :
    Operand.format.Settles noFloat (AllFinite operand.floats) operand := by
  refine ⟨fun hfinite => ?_, fun hno => ?_⟩
  · cases operand with
    | var name => exact Case.reads_contentCase rfl ((Format.reads_text name).takes.map Operand.var)
    | int value => exact Case.reads_contentCase rfl ((Format.reads_int64 value).takes.map Operand.int)
    | float bits =>
      have hback : Format.float.ReadsBack bits := h bits List.mem_cons_self (hfinite bits List.mem_cons_self)
      exact Case.reads_contentCase rfl ((Format.reads_float hback).takes.map Operand.float)
    | bool value => exact Case.reads_contentCase rfl ((Format.reads_bool value).takes.map Operand.bool)
    | str text => exact Case.reads_contentCase rfl ((Format.reads_text text).takes.map Operand.str)
    | null => exact Case.reads_bareCase rfl
  · unfold AllFinite at hno
    push Not at hno
    obtain ⟨bits, hbits, hinfinite⟩ := hno
    cases operand with
    | float other =>
      obtain rfl := List.mem_singleton.1 hbits
      rw [ne_eq, Bool.not_eq_true] at hinfinite
      exact Case.refuses_contentCase rfl ((Format.refuses_float hinfinite).stops.map Operand.float)
    | _ => cases hbits

/-! ## Functions -/

theorem settles_instruction (inst : Instruction) (h : FiniteReadBack inst.floats) :
    Instruction.format.Settles noFloat (AllFinite inst.floats) inst := by
  have hrecord : Instruction.format.Settles noFloat _ inst := Format.settles_record (by decide)
    (.field ((Format.reads_text _).settles noFloat) (.field ((reads_text? _).settles noFloat)
      (.field (settles_floats settles_operand h) (.field ((Format.reads_texts _).settles noFloat)
        (.field ((reads_span? _).settles noFloat) .done))))) rfl
  refine hrecord.congr ?_
  simp only [true_and, and_true]
  rfl

theorem settles_block (block : Block) (h : FiniteReadBack block.floats) :
    Block.format.Settles noFloat (AllFinite block.floats) block := by
  have hrecord : Block.format.Settles noFloat _ block := Format.settles_record (by decide)
    (.field ((Format.reads_text _).settles noFloat) (.field (settles_floats settles_instruction h) .done)) rfl
  refine hrecord.congr ?_
  simp only [true_and, and_true]
  rfl

theorem settles_function (function : Function) (h : FiniteReadBack function.floats) :
    Function.format.Settles noFloat (AllFinite function.floats) function := by
  have hpositions : Span.format.list.Reads function.argumentPositions :=
    Format.reads_listAs _ fun span _ => reads_span span
  have hrecord : Function.format.Settles noFloat _ function := Format.settles_record (by decide)
    (.field ((Format.reads_word32 _).settles noFloat) (.field ((Format.reads_text _).settles noFloat)
      (.field ((Format.reads_text _).settles noFloat) (.field ((Format.reads_texts _).settles noFloat)
        (.field ((Format.reads_texts _).settles noFloat) (.field (hpositions.settles noFloat)
          (.field ((reads_span? _).settles noFloat) (.field (settles_floats settles_block h) .done)))))))) rfl
  refine hrecord.congr ?_
  simp only [true_and, and_true]
  rfl

theorem settles_unit (functions : List Function) (h : FiniteReadBack (functions.flatMap Function.floats)) :
    unitFormat.Settles noFloat (AllFinite (functions.flatMap Function.floats)) functions :=
  settles_floats settles_function h

/-- A function or a unit is read back from its text exactly if all its floats are finite. It is refused otherwise: a float
that is not finite is written, but as null. -/
theorem readsBack_iff_finite :
    (∀ function : Function, FiniteReadBack function.floats →
      (Function.format.ReadsBack function ↔ AllFinite function.floats) ∧
      (¬ AllFinite function.floats → ∃ spot,
        Function.format.decode (Function.format.encode function) = .error ⟨.unfit noFloat, spot⟩)) ∧
    ∀ functions : List Function, FiniteReadBack (functions.flatMap Function.floats) →
      (unitFormat.ReadsBack functions ↔ ∀ function ∈ functions, AllFinite function.floats) ∧
      ((∃ function ∈ functions, ¬ AllFinite function.floats) → ∃ spot,
        unitFormat.decode (unitFormat.encode functions) = .error ⟨.unfit noFloat, spot⟩) := by
  refine ⟨fun function h => ?_, fun functions h => ?_⟩
  · have hsettles := settles_function function h
    exact ⟨hsettles.readsBack_iff, fun hno => Format.decode_of_refuses (hsettles.refuses hno)⟩
  · have hsettles := (settles_unit functions h).congr List.forall_mem_flatMap
    refine ⟨hsettles.readsBack_iff, fun ⟨function, hmem, hno⟩ => Format.decode_of_refuses (hsettles.refuses ?_)⟩
    exact fun hall => hno (hall function hmem)

/-- A function with three floats, and the same function with no number among them. -/
theorem readsBack_iff_finite_no_number :
    let withFloats (floats : List UInt64) : Function :=
      { name := "f", returnType := "Int", blocks := [⟨"entry", [{ opcode := "return", operands := floats.map .float }]⟩] }
    let finite := withFloats [0x4004000000000000, 0x8000000000000000, 0x3ff8000000000000]
    let other := withFloats [0x4004000000000000, 0x7ff8000000000000]
    Function.format.ReadsBack finite ∧
      ∃ spot, unitFormat.decode (unitFormat.encode [finite, other]) = .error ⟨.unfit noFloat, spot⟩ := by
  intro withFloats finite other
  have hfinite : FiniteReadBack finite.floats := by decide +kernel
  have hunit : FiniteReadBack ([finite, other].flatMap Function.floats) := by decide +kernel
  refine ⟨(readsBack_iff_finite.1 finite hfinite).1.2 (by decide +kernel), ?_⟩
  refine (readsBack_iff_finite.2 [finite, other] hunit).2 ⟨other, ?_, by decide +kernel⟩
  exact List.mem_cons_of_mem _ List.mem_cons_self

end FunctionTrees.Transfer
