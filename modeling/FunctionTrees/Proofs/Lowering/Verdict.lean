import FunctionTrees.Proofs.Lowering.Planning

/-!
# The verdict on a function

* `Span.Sound`, `sound_iff_located?` : spans that count from 1 and do not run backwards are the ones with an extent;
* `repeatedLabels`, `head?_repeatedLabels` : the labels that an earlier one repeats, the first of which is found;
* `violations function` : all that is wrong with a function, in the order in which it is looked for;
* `Acceptable function`, `violations_eq_nil_iff` : a function with which nothing is wrong;
* `reports_violations`, `reports_lower` : the check of a function ends in its first violation, if there is one;
* `lower_verdict` : exactly the acceptable functions are lowered, and the others end in their first violation.
-/

set_option autoImplicit false

namespace FunctionTrees

/-! ## Spans -/

namespace Transfer

/-- The numbers count from 1, and the last character is not before the first. -/
structure Span.Sound (span : Span) : Prop where
  one_le : ∀ number ∈ [span.firstLine, span.firstCol, span.lastLine, span.lastCol], 1 ≤ number.toNat
  forwards : span.firstLine.toNat < span.lastLine.toNat ∨
    span.firstLine.toNat = span.lastLine.toNat ∧ span.firstCol.toNat ≤ span.lastCol.toNat

theorem Span.sound_iff_located? (span : Span) : span.Sound ↔ span.located?.isSome := by
  obtain ⟨file, firstLine, firstCol, lastLine, lastCol⟩ := span
  have hbounds : (located? ⟨file, firstLine, firstCol, lastLine, lastCol⟩).isSome ↔
      (0 < firstLine ∧ 0 < firstCol ∧ 0 < lastLine ∧ 0 < lastCol) ∧
        (firstLine < lastLine ∨ firstLine = lastLine ∧ firstCol ≤ lastCol) := by
    unfold located? Located.ofBounds? Extent.ofBounds?
    split_ifs with h <;> simp [h]
  have hone (number : UInt32) : 1 ≤ number.toNat ↔ 0 < number := by
    rw [UInt32.lt_iff_toNat_lt]
    exact Iff.rfl
  rw [hbounds]
  constructor
  · rintro ⟨hone_le, hforwards⟩
    simp only [List.forall_mem_cons, hone] at hone_le
    rw [← UInt32.lt_iff_toNat_lt, UInt32.toNat_inj, ← UInt32.le_iff_toNat_le] at hforwards
    exact ⟨⟨hone_le.1, hone_le.2.1, hone_le.2.2.1, hone_le.2.2.2.1⟩, hforwards⟩
  · rintro ⟨⟨hfirstLine, hfirstCol, hlastLine, hlastCol⟩, hforwards⟩
    refine ⟨?_, ?_⟩
    · simp only [List.forall_mem_cons, hone]
      exact ⟨hfirstLine, hfirstCol, hlastLine, hlastCol, by simp⟩
    · rw [← UInt32.lt_iff_toNat_lt, UInt32.toNat_inj, ← UInt32.le_iff_toNat_le]
      exact hforwards

instance (span : Span) : Decidable span.Sound := decidable_of_iff _ span.sound_iff_located?.symm

/-- The spans of a function: its own, those of its arguments and those of its instructions. -/
def Function.spans (function : Function) : List Span :=
  function.position.toList ++ function.argumentPositions ++
    function.blocks.flatMap fun block => block.instructions.flatMap fun inst => inst.position.toList

def Function.labels (function : Function) : List String := function.blocks.map Block.label

end Transfer

namespace Lowering

open Transfer Outcome

/-! ## Labels -/

/-- The labels that an earlier one repeats. -/
def repeatedLabels (labels : List String) : List String :=
  (labels.zipIdx.filter fun numbered => numbered.1 ∈ labels.take numbered.2).map Prod.fst

theorem head?_repeatedAfter {before labels : List String} {all : List String} {start : Nat}
    (hlabels : all.drop start = labels) (hbefore : ∀ label, label ∈ before ↔ label ∈ all.take start) :
    (((labels.zipIdx start).filter fun numbered => numbered.1 ∈ all.take numbered.2).map Prod.fst).head? =
      repeatedLabel? before labels := by
  induction labels generalizing before start with
  | nil => rfl
  | cons label labels ih =>
    have hlt : start < all.length := by
      by_contra hle
      rw [List.drop_eq_nil_of_le (by omega)] at hlabels
      cases hlabels
    rw [List.drop_eq_getElem_cons hlt, List.cons.injEq] at hlabels
    obtain ⟨hlabel, hlabels⟩ := hlabels
    rw [List.zipIdx_cons, List.filter_cons, repeatedLabel?]
    by_cases hmem : label ∈ before
    · rw [if_pos (by simpa using (hbefore label).1 hmem), if_pos hmem]
      rfl
    · rw [if_neg (by simpa using mt (hbefore label).2 hmem), if_neg hmem]
      apply ih hlabels
      intro other
      rw [List.take_succ_eq_append_getElem hlt, hlabel, List.mem_append, List.mem_singleton, ← hbefore other,
        List.mem_cons, or_comm]

theorem repeatedLabel?_eq_none_iff (before labels : List String) :
    repeatedLabel? before labels = none ↔ labels.Nodup ∧ ∀ label ∈ labels, label ∉ before := by
  induction labels generalizing before with
  | nil => simp [repeatedLabel?]
  | cons label labels ih =>
    rw [repeatedLabel?]
    split_ifs with hmem
    · simp [hmem]
    · rw [ih, List.nodup_cons, List.forall_mem_cons]
      constructor
      · rintro ⟨hnodup, hfresh⟩
        refine ⟨⟨fun hlater => hfresh label hlater List.mem_cons_self, hnodup⟩, hmem, fun other hother => ?_⟩
        exact fun hbefore => hfresh other hother (List.mem_cons_of_mem _ hbefore)
      · rintro ⟨⟨hnew, hnodup⟩, -, hfresh⟩
        refine ⟨hnodup, fun other hother hcons => ?_⟩
        rcases List.mem_cons.1 hcons with rfl | hbefore
        · exact hnew hother
        · exact hfresh other hother hbefore

theorem head?_repeatedLabels (labels : List String) : (repeatedLabels labels).head? = repeatedLabel? [] labels :=
  head?_repeatedAfter List.drop_zero fun label => by rw [List.take_zero]

theorem repeatedLabels_eq_nil_iff (labels : List String) : repeatedLabels labels = [] ↔ labels.Nodup := by
  rw [← List.head?_eq_none_iff, head?_repeatedLabels, repeatedLabel?_eq_none_iff]
  simp

/-! ## Violations -/

def spanViolations (span : Span) : List LowerError := if span.Sound then [] else [.invalidPosition span]

def instructionViolations (labels : List String) (block : String) (inst : Instruction) (index : Nat) :
    List LowerError :=
  inst.position.toList.flatMap spanViolations ++
    (complaints labels inst).map (.malformedInstruction block index inst.opcode)

def blockViolations (labels : List String) (block : Block) : List LowerError :=
  block.instructions.zipIdx.flatMap fun numbered => instructionViolations labels block.label numbered.1 numbered.2

/-- All that is wrong with a function, in the order in which it is looked for. -/
def violations (function : Function) : List LowerError :=
  (if function.version = Transfer.version then [] else [.unsupportedVersion function.version]) ++
    (repeatedLabels function.labels).map .duplicateLabel ++
    function.position.toList.flatMap spanViolations ++
    function.argumentPositions.flatMap spanViolations ++
    function.blocks.flatMap (blockViolations function.labels)

structure Acceptable (function : Function) : Prop where
  version : function.version = Transfer.version
  labels : function.labels.Nodup
  spans : ∀ span ∈ function.spans, span.Sound
  shapes : ∀ block ∈ function.blocks, ∀ inst ∈ block.instructions, Shapely function.labels inst

theorem spanViolations_eq_nil_iff {span : Span} : spanViolations span = [] ↔ span.Sound := by
  unfold spanViolations
  split_ifs with hsound <;> simp [hsound]

theorem instructionViolations_eq_nil_iff {labels : List String} {block : String} {inst : Instruction} {index : Nat} :
    instructionViolations labels block inst index = [] ↔
      (∀ span ∈ inst.position.toList, span.Sound) ∧ Shapely labels inst := by
  rw [instructionViolations, List.append_eq_nil_iff, List.flatMap_eq_nil_iff, List.map_eq_nil_iff,
    complaints_eq_nil_iff]
  simp only [spanViolations_eq_nil_iff]

theorem blockViolations_eq_nil_iff {labels : List String} {block : Block} :
    blockViolations labels block = [] ↔
      ∀ inst ∈ block.instructions, (∀ span ∈ inst.position.toList, span.Sound) ∧ Shapely labels inst := by
  rw [blockViolations, List.flatMap_eq_nil_iff]
  simp only [instructionViolations_eq_nil_iff]
  constructor
  · intro h inst hinst
    obtain ⟨index, hindex⟩ := List.mem_iff_getElem?.1 hinst
    exact h (inst, index) (List.mk_mem_zipIdx_iff_getElem?.2 hindex)
  · intro h numbered hnumbered
    exact h numbered.1 (List.fst_mem_of_mem_zipIdx hnumbered)

/-- The conditions, instruction by instruction. -/
theorem acceptable_iff {function : Function} :
    Acceptable function ↔ (function.version = Transfer.version ∧ function.labels.Nodup) ∧
      (∀ span ∈ function.position.toList, span.Sound) ∧ (∀ span ∈ function.argumentPositions, span.Sound) ∧
      ∀ block ∈ function.blocks, ∀ inst ∈ block.instructions,
        (∀ span ∈ inst.position.toList, span.Sound) ∧ Shapely function.labels inst := by
  have hspans : (∀ span ∈ function.spans, span.Sound) ↔ (∀ span ∈ function.position.toList, span.Sound) ∧
      (∀ span ∈ function.argumentPositions, span.Sound) ∧
      ∀ block ∈ function.blocks, ∀ inst ∈ block.instructions, ∀ span ∈ inst.position.toList, span.Sound := by
    simp only [Function.spans, List.forall_mem_append, List.forall_mem_flatMap, and_assoc]
  constructor
  · rintro ⟨hversion, hlabels, hsound, hshapes⟩
    obtain ⟨hposition, harguments, hinstructions⟩ := hspans.1 hsound
    refine ⟨⟨hversion, hlabels⟩, hposition, harguments, fun block hblock inst hinst => ?_⟩
    exact ⟨hinstructions block hblock inst hinst, hshapes block hblock inst hinst⟩
  · rintro ⟨⟨hversion, hlabels⟩, hposition, harguments, hblocks⟩
    refine ⟨hversion, hlabels, hspans.2 ⟨hposition, harguments, ?_⟩, ?_⟩
    · exact fun block hblock inst hinst => (hblocks block hblock inst hinst).1
    · exact fun block hblock inst hinst => (hblocks block hblock inst hinst).2

theorem violations_eq_nil_iff {function : Function} : violations function = [] ↔ Acceptable function := by
  have hversion : (if function.version = Transfer.version then []
      else [LowerError.unsupportedVersion function.version]) = [] ↔ function.version = Transfer.version := by
    split_ifs with h <;> simp [h]
  rw [acceptable_iff]
  simp only [violations, List.append_eq_nil_iff, List.map_eq_nil_iff, List.flatMap_eq_nil_iff, hversion,
    repeatedLabels_eq_nil_iff, spanViolations_eq_nil_iff, blockViolations_eq_nil_iff, and_assoc]

/-! ## The check -/

theorem reports_soundSpan (span : Span) : Reports (soundSpan span).result (spanViolations span) := by
  have hsound := span.sound_iff_located?
  rw [result_soundSpan, spanViolations]
  cases hlocated : span.located? with
  | none =>
    rw [if_neg]
    · exact rfl
    · rw [hsound, hlocated]
      exact Bool.false_ne_true
  | some located =>
    rw [if_pos]
    · exact rfl
    · rw [hsound, hlocated]
      rfl

theorem reports_planInstruction (name : String) (labels : List String) (block : String) (inst : Instruction)
    (index : Nat) :
    Reports (planInstruction name labels block inst index).result (instructionViolations labels block inst index) := by
  rw [result_planInstruction, instructionViolations]
  apply (Reports.mapM? reports_soundSpan inst.position).bind
  intro position _
  have hread := readsWell labels inst
  unfold ReadsWell at hread
  cases hstatements : statementsOf labels inst with
  | error reason =>
    rw [hstatements] at hread
    show ((complaints labels inst).map _).head? = some _
    rw [List.head?_map, hread]
    rfl
  | ok statements =>
    rw [hstatements] at hread
    show (complaints labels inst).map _ = []
    rw [hread.2, List.map_nil]

theorem reports_planBlock (name : String) (labels : List String) (block : Block) :
    Reports (planBlock name labels block).result (blockViolations labels block) := by
  rw [result_planBlock, ← List.append_nil (blockViolations labels block)]
  apply Reports.bind
  · apply Reports.mapM
    intro numbered
    exact reports_planInstruction name labels block.label numbered.1 numbered.2
  · intro instructions _
    exact rfl

theorem reports_violations (function : Function) : Reports (planOf function).result (violations function) := by
  have hversion : (if function.version = Transfer.version then []
      else [LowerError.unsupportedVersion function.version]).head? =
      if function.version = Transfer.version then none else some (.unsupportedVersion function.version) := by
    split_ifs <;> rfl
  have hlabel : ((repeatedLabels function.labels).map LowerError.duplicateLabel).head? =
      (repeatedLabel? [] function.labels).map .duplicateLabel := by
    rw [List.head?_map, head?_repeatedLabels]
  have hblocks := Reports.mapM (reports_planBlock function.name function.labels) function.blocks
  rw [result_planOf, violations]
  simp only [List.append_assoc]
  apply (Reports.refuse hversion).bind
  intro _ _
  apply (Reports.refuse hlabel).bind
  intro _ _
  apply (Reports.mapM? reports_soundSpan function.position).bind
  intro _ _
  apply (Reports.mapM reports_soundSpan function.argumentPositions).bind
  intro _ _
  rw [← List.append_nil (function.blocks.flatMap _)]
  exact hblocks.bind fun _ _ => rfl

theorem reports_lower (function : Function) : Reports (lower function).result (violations function) := by
  rw [result_lower, ← List.append_nil (violations function)]
  exact (reports_violations function).bind fun _ _ => rfl

theorem exists_lower_iff (function : Function) :
    (∃ parts, (lower function).result = .ok parts) ↔ Acceptable function := by
  rw [(reports_lower function).exists_ok_iff, violations_eq_nil_iff]

/-- A function is lowered exactly if it is acceptable, and otherwise the end is the first violation. -/
theorem lower_verdict (function : Function) :
    ((∃ parts, (lower function).result = .ok parts) ↔ Acceptable function) ∧
      ∀ error, (lower function).result = .error error ↔ (violations function).head? = some error :=
  ⟨exists_lower_iff function, (reports_lower function).eq_error_iff⟩

end Lowering

end FunctionTrees
