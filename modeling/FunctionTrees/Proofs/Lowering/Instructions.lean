import FunctionTrees.Lowering.Check
import FunctionTrees.Proofs.Outcome

/-!
# What instructions mean, and what is wrong with them

* `controlOpcodes`, `Opcode.text` : the opcodes that ask something of their instruction;
* `Expr.build_over?` : the builder takes or refuses the same expressions;
* `Expr.attempt_of_some`, `Expr.attempt_of_none` : how the attempt at an operation ends; `Expr.ofOperation_eq` : what
  expression it comes to;
* `Means labels inst statements` : the sound instructions and their statements, opcode by opcode;
* `complaints labels inst` : all that is wrong with an instruction, the first complaint being the one that counts;
* `readsWell` : an instruction is read as `Means` says, or ends in its first complaint;
* `Shapely labels inst`, `complaints_eq_nil_iff` : the shape of an instruction without complaints.
-/

set_option autoImplicit false

namespace FunctionTrees.Lowering

open Transfer Outcome

/-! ## Opcodes -/

/-- The opcodes that ask something of their instruction. -/
def controlOpcodes : List String := ["assign", "call", "return", "br", "cond_br"]

theorem not_mem_controlOpcodes {text : String} : text ∉ controlOpcodes ↔
    text ≠ "assign" ∧ text ≠ "call" ∧ text ≠ "return" ∧ text ≠ "br" ∧ text ≠ "cond_br" := by
  simp only [controlOpcodes, List.mem_cons, List.not_mem_nil, or_false, not_or, ne_eq]

def Opcode.text : Opcode → String
  | assign => "assign"
  | ret => "return"
  | br => "br"
  | condBr => "cond_br"
  | call => "call"
  | operation mnemonic => mnemonic

theorem Opcode.text_ofText (text : String) : (ofText text).text = text := by
  unfold ofText
  split_ifs <;> simp_all [Opcode.text]

theorem Opcode.text_eq {text : String} {opcode : Opcode} (h : ofText text = opcode) : text = opcode.text := by
  rw [← h, text_ofText]

theorem Opcode.not_mem_of_operation {text mnemonic : String} (h : ofText text = .operation mnemonic) :
    text ∉ controlOpcodes := by
  unfold ofText at h
  split_ifs at h with hassign hret hbr hcond hcall
  obtain rfl := Opcode.operation.inj h
  exact not_mem_controlOpcodes.2 ⟨hassign, hcall, hret, hbr, hcond⟩

theorem Opcode.ofText_of_not_mem {text : String} (h : text ∉ controlOpcodes) : ofText text = .operation text := by
  obtain ⟨hassign, hcall, hret, hbr, hcond⟩ := not_mem_controlOpcodes.1 h
  rw [ofText, if_neg hassign, if_neg hret, if_neg hbr, if_neg hcond, if_neg hcall]

/-! ## Operations -/

section Operations

variable {op : Operator} {operands : List Operand} {arity : Arity}

theorem Expr.over?_unary (h : op.arity = .unary) (operand : Operand) :
    over? op [operand] = some (.unary op operand) := by
  simp only [over?, h]

theorem Expr.over?_binary (h : op.arity = .binary) (lhs rhs : Operand) :
    over? op [lhs, rhs] = some (.binary op lhs rhs) := by
  simp only [over?, h]

/-- An operator takes as many operands as its arity says. -/
theorem Expr.exists_over? (h : op.arity.count = operands.length) : ∃ value, over? op operands = some value := by
  match harity : op.arity, operands with
  | .unary, [operand] => exact ⟨_, over?_unary harity operand⟩
  | .binary, [lhs, rhs] => exact ⟨_, over?_binary harity lhs rhs⟩
  | .unary, [] | .unary, _ :: _ :: _ | .binary, [] | .binary, [_] | .binary, _ :: _ :: _ :: _ =>
    rw [harity] at h
    simp [Arity.count] at h

/-- An expression is refused over some operands exactly where a builder refuses it over their nodes. -/
theorem Expr.build_over? (op : Operator) (operands : List Operand) : (operands.mapM buildOperand >>= Build.expr? op) =
    match over? op operands with
    | some value => some <$> value.build
    | none => do let _ ← operands.mapM buildOperand; return none := by
  match harity : op.arity, operands with
  | .unary, [operand] => simp [over?_unary harity, Build.expr?, harity, Expr.build]
  | .binary, [lhs, rhs] => simp [over?_binary harity, Build.expr?, harity, Expr.build]
  | .unary, [] | .unary, _ :: _ :: _ | .binary, [] | .binary, [_] | .binary, _ :: _ :: _ :: _ =>
    simp [over?, Build.expr?, harity]

/-- The operator that an operation resolves to takes its operands, so that the attempt ends with it. -/
theorem Expr.attempt_of_some (mnemonic : String) (h : Arity.ofCount? operands.length = some arity) :
    let op := Operator.resolve mnemonic arity
    ∃ value, over? op operands = some value ∧
      attempt mnemonic operands = (if op.isFallback then [.fallback op] else [], value) := by
  intro op
  have harity : op.arity.count = operands.length := by
    rw [Operator.arity_resolve]
    exact Arity.ofCount?_eq_some_iff.1 h
  obtain ⟨value, hvalue⟩ := exists_over? harity
  refine ⟨value, hvalue, ?_⟩
  rw [attempt, h]
  dsimp only
  rw [hvalue]

theorem Expr.attempt_of_none (mnemonic : String) (h : Arity.ofCount? operands.length = none) :
    attempt mnemonic operands = ([.primitive], .primitive mnemonic operands) := by
  rw [attempt, h]

/-- An operation stands over an operator that takes its number of operands, or over none if no operator does. -/
theorem Expr.ofOperation_eq (mnemonic : String) (operands : List Operand) : ofOperation mnemonic operands =
    match operands with
    | [operand] => .unary (Operator.resolve mnemonic .unary) operand
    | [lhs, rhs] => .binary (Operator.resolve mnemonic .binary) lhs rhs
    | _ => .primitive mnemonic operands := by
  match operands with
  | [] | _ :: _ :: _ :: _ => rw [ofOperation, attempt_of_none mnemonic rfl]
  | [operand] =>
    have hcount : Arity.ofCount? [operand].length = some .unary := rfl
    obtain ⟨value, hvalue, hattempt⟩ := attempt_of_some mnemonic hcount
    rw [over?_unary (Operator.arity_resolve mnemonic .unary)] at hvalue
    rw [ofOperation, hattempt, ← Option.some.inj hvalue]
  | [lhs, rhs] =>
    have hcount : Arity.ofCount? [lhs, rhs].length = some .binary := rfl
    obtain ⟨value, hvalue, hattempt⟩ := attempt_of_some mnemonic hcount
    rw [over?_binary (Operator.arity_resolve mnemonic .binary)] at hvalue
    rw [ofOperation, hattempt, ← Option.some.inj hvalue]

end Operations

/-! ## Meaning -/

/-- The instruction is sound in a function with the given labels, and these are its statements. -/
inductive Means (labels : List String) : Instruction → List Statement → Prop
  | assign (name : String) (value : Operand) (position : Option Span) :
    Means labels ⟨"assign", some name, [value], [], position⟩ [.assign name value]
  | ret (value : Option Operand) (position : Option Span) :
    Means labels ⟨"return", none, value.toList, [], position⟩ [.ret value]
  | br {target : String} (position : Option Span) (htarget : target ∈ labels) :
    Means labels ⟨"br", none, [], [target], position⟩ [.goto target]
  | condBr (condition : Operand) {target otherwise : String} (position : Option Span) (htarget : target ∈ labels)
      (hotherwise : otherwise ∈ labels) :
    Means labels ⟨"cond_br", none, [condition], [target, otherwise], position⟩
      [.ifGoto condition target, .goto otherwise]
  | call (result : Option String) (target : Operand) (args : List Operand) (position : Option Span) :
    Means labels ⟨"call", result, target :: args, [], position⟩ [deliver result (.call target args)]
  | operation {mnemonic : String} (result : Option String) (operands : List Operand) (position : Option Span)
      (hmnemonic : mnemonic ∉ controlOpcodes) :
    Means labels ⟨mnemonic, result, operands, [], position⟩ [deliver result (.ofOperation mnemonic operands)]

/-- A sound instruction has a statement. -/
theorem Means.ne_nil {labels : List String} {inst : Instruction} {statements : List Statement}
    (h : Means labels inst statements) : statements ≠ [] := by
  cases h <;> exact List.cons_ne_nil _ _

/-! ## Complaints -/

def complaint (applies : Prop) [Decidable applies] (reason : Reason) : List Reason := if applies then [reason] else []

/-- What is wrong with a branch that takes the given numbers of operands and targets. -/
def branchComplaints (labels : List String) (inst : Instruction) (operands targets : Nat) : List Reason :=
  complaint (inst.result ≠ none) .unwantedResult ++
    complaint (inst.operands.length ≠ operands) (.operandCount operands inst.operands.length) ++
    complaint (inst.targets.length ≠ targets) (.targetCount targets inst.targets.length) ++
    (inst.targets.filter (· ∉ labels)).map .unknownTarget

/-- All that is wrong with an instruction of a function with the given labels, the weightiest first. -/
def complaints (labels : List String) (inst : Instruction) : List Reason :=
  complaint (inst.opcode ≠ "br" ∧ inst.opcode ≠ "cond_br" ∧ inst.targets ≠ []) .targetsOfNonBranch ++
    if inst.opcode = "assign" then
      complaint (inst.operands.length ≠ 1) (.operandCount 1 inst.operands.length) ++
        complaint (inst.result = none) .noResult
    else if inst.opcode = "return" then
      complaint (inst.result ≠ none) .unwantedResult ++
        complaint (1 < inst.operands.length) (.tooManyOperands inst.operands.length)
    else if inst.opcode = "br" then branchComplaints labels inst 0 1
    else if inst.opcode = "cond_br" then branchComplaints labels inst 1 2
    else if inst.opcode = "call" then complaint (inst.operands = []) .noCallTarget
    else []

/-- An operation can only be wrong about targets. -/
theorem complaints_of_not_mem {labels : List String} {inst : Instruction} (h : inst.opcode ∉ controlOpcodes) :
    complaints labels inst = complaint (inst.targets ≠ []) .targetsOfNonBranch := by
  obtain ⟨hassign, hcall, hret, hbr, hcond⟩ := not_mem_controlOpcodes.1 h
  simp [complaints, hassign, hcall, hret, hbr, hcond]

/-! ## Reading instructions -/

/-- An instruction is read as it means, or ends in its first complaint. -/
def ReadsWell (labels : List String) (inst : Instruction) : Prop :=
  match statementsOf labels inst with
  | .ok statements => Means labels inst statements ∧ complaints labels inst = []
  | .error reason => (complaints labels inst).head? = some reason

theorem ReadsWell.of_ok {labels : List String} {inst : Instruction} {statements : List Statement}
    (h : statementsOf labels inst = .ok statements) (hmeans : Means labels inst statements)
    (hnone : complaints labels inst = []) : ReadsWell labels inst := by
  unfold ReadsWell
  rw [h]
  exact ⟨hmeans, hnone⟩

theorem ReadsWell.of_error {labels : List String} {inst : Instruction} (reason : Reason)
    (h : statementsOf labels inst = .error reason) (hfirst : (complaints labels inst).head? = some reason) :
    ReadsWell labels inst := by
  unfold ReadsWell
  rw [h]
  exact hfirst

theorem readsWell_br (labels : List String) (target : String) (position : Option Span) :
    ReadsWell labels ⟨"br", none, [], [target], position⟩ := by
  have hread : statementsOf labels ⟨"br", none, [], [target], position⟩ =
      knownTarget labels target >>= fun known => .ok [.goto known] := rfl
  have hcomplaints : complaints labels ⟨"br", none, [], [target], position⟩ =
      ([target].filter (· ∉ labels)).map .unknownTarget := rfl
  by_cases hmem : target ∈ labels
  · refine .of_ok ?_ (.br position hmem) ?_
    · rw [hread, knownTarget, if_pos hmem, ok_bind]
    · simp [hcomplaints, hmem]
  · refine .of_error (.unknownTarget target) ?_ ?_
    · rw [hread, knownTarget, if_neg hmem, error_bind]
    · simp [hcomplaints, hmem]

theorem readsWell_condBr (labels : List String) (condition : Operand) (target otherwise : String)
    (position : Option Span) :
    ReadsWell labels ⟨"cond_br", none, [condition], [target, otherwise], position⟩ := by
  have hread : statementsOf labels ⟨"cond_br", none, [condition], [target, otherwise], position⟩ =
      knownTarget labels target >>= fun known => knownTarget labels otherwise >>= fun other =>
        .ok [.ifGoto condition known, .goto other] := rfl
  have hcomplaints : complaints labels ⟨"cond_br", none, [condition], [target, otherwise], position⟩ =
      ([target, otherwise].filter (· ∉ labels)).map .unknownTarget := rfl
  by_cases hmem : target ∈ labels
  · by_cases hother : otherwise ∈ labels
    · refine .of_ok ?_ (.condBr condition position hmem hother) ?_
      · rw [hread, knownTarget, if_pos hmem, ok_bind, knownTarget, if_pos hother, ok_bind]
      · simp [hcomplaints, hmem, hother]
    · refine .of_error (.unknownTarget otherwise) ?_ ?_
      · rw [hread, knownTarget, if_pos hmem, ok_bind, knownTarget, if_neg hother, error_bind]
      · simp [hcomplaints, hmem, hother]
  · refine .of_error (.unknownTarget target) ?_ ?_
    · rw [hread, knownTarget, if_neg hmem, error_bind]
    · simp [hcomplaints, hmem]

theorem readsWell_operation (labels : List String) {mnemonic : String} (hmnemonic : mnemonic ∉ controlOpcodes)
    (result : Option String) (operands : List Operand) (targets : List String) (position : Option Span) :
    ReadsWell labels ⟨mnemonic, result, operands, targets, position⟩ := by
  have hopcode := Opcode.ofText_of_not_mem hmnemonic
  have hcomplaints : complaints labels ⟨mnemonic, result, operands, targets, position⟩ =
      complaint (targets ≠ []) .targetsOfNonBranch := complaints_of_not_mem hmnemonic
  cases targets with
  | nil =>
    refine .of_ok ?_ (.operation result operands position hmnemonic) ?_
    · simp [statementsOf, hopcode, Opcode.isBranch]
    · simp [hcomplaints, complaint]
  | cons target targets =>
    refine .of_error .targetsOfNonBranch ?_ ?_
    · simp [statementsOf, hopcode, Opcode.isBranch]
    · simp [hcomplaints, complaint]

/-- Opcode by opcode, and then by how many operands and targets there are. -/
theorem readsWell (labels : List String) (inst : Instruction) : ReadsWell labels inst := by
  obtain ⟨opcode, result, operands, targets, position⟩ := inst
  cases hop : Opcode.ofText opcode with
  | assign =>
    obtain rfl := Opcode.text_eq hop
    match targets, operands, result with
    | _ :: _, _, _ => exact rfl
    | [], [], _ => exact rfl
    | [], [_], none => exact rfl
    | [], [value], some name => exact ⟨.assign name value position, rfl⟩
    | [], _ :: _ :: _, _ => exact rfl
  | ret =>
    obtain rfl := Opcode.text_eq hop
    match targets, result, operands with
    | _ :: _, _, _ => exact rfl
    | [], some _, _ => exact rfl
    | [], none, [] => exact ⟨.ret none position, rfl⟩
    | [], none, [value] => exact ⟨.ret (some value) position, rfl⟩
    | [], none, _ :: _ :: _ => exact rfl
  | br =>
    obtain rfl := Opcode.text_eq hop
    match result, operands, targets with
    | some _, _, _ => exact rfl
    | none, _ :: _, _ => exact rfl
    | none, [], [] => exact rfl
    | none, [], [target] => exact readsWell_br labels target position
    | none, [], _ :: _ :: _ => exact rfl
  | condBr =>
    obtain rfl := Opcode.text_eq hop
    match result, operands, targets with
    | some _, _, _ => exact rfl
    | none, [], _ => exact rfl
    | none, _ :: _ :: _, _ => exact rfl
    | none, [_], [] => exact rfl
    | none, [_], [_] => exact rfl
    | none, [condition], [target, otherwise] => exact readsWell_condBr labels condition target otherwise position
    | none, [_], _ :: _ :: _ :: _ => exact rfl
  | call =>
    obtain rfl := Opcode.text_eq hop
    match targets, operands with
    | _ :: _, _ => exact rfl
    | [], [] => exact rfl
    | [], target :: args => exact ⟨.call result target args position, rfl⟩
  | operation mnemonic =>
    have hopcode : opcode = mnemonic := Opcode.text_eq hop
    subst hopcode
    exact readsWell_operation labels (Opcode.not_mem_of_operation hop) result operands targets position

theorem means_of_statementsOf {labels : List String} {inst : Instruction} {statements : List Statement}
    (h : statementsOf labels inst = .ok statements) : Means labels inst statements := by
  have hread := readsWell labels inst
  unfold ReadsWell at hread
  rw [h] at hread
  exact hread.1

/-! ## Shapes -/

/-- The shape that the opcode of an instruction asks for, in a function with the given labels. -/
def Shapely (labels : List String) (inst : Instruction) : Prop :=
  if inst.opcode = "assign" then inst.targets = [] ∧ inst.operands.length = 1 ∧ inst.result ≠ none
  else if inst.opcode = "return" then inst.targets = [] ∧ inst.result = none ∧ inst.operands.length ≤ 1
  else if inst.opcode = "br" then
    inst.result = none ∧ inst.operands.length = 0 ∧ inst.targets.length = 1 ∧ ∀ target ∈ inst.targets, target ∈ labels
  else if inst.opcode = "cond_br" then
    inst.result = none ∧ inst.operands.length = 1 ∧ inst.targets.length = 2 ∧ ∀ target ∈ inst.targets, target ∈ labels
  else if inst.opcode = "call" then inst.targets = [] ∧ inst.operands ≠ []
  else inst.targets = []

/-- An operation only has to be without targets. -/
theorem shapely_iff_of_not_mem {labels : List String} {inst : Instruction} (h : inst.opcode ∉ controlOpcodes) :
    Shapely labels inst ↔ inst.targets = [] := by
  obtain ⟨hassign, hcall, hret, hbr, hcond⟩ := not_mem_controlOpcodes.1 h
  rw [Shapely, if_neg hassign, if_neg hret, if_neg hbr, if_neg hcond, if_neg hcall]

theorem complaint_eq_nil_iff {applies : Prop} [Decidable applies] {reason : Reason} :
    complaint applies reason = [] ↔ ¬ applies := by
  unfold complaint
  split <;> simp_all

theorem branchComplaints_eq_nil_iff {labels : List String} {inst : Instruction} {operands targets : Nat} :
    branchComplaints labels inst operands targets = [] ↔ inst.result = none ∧ inst.operands.length = operands ∧
      inst.targets.length = targets ∧ ∀ target ∈ inst.targets, target ∈ labels := by
  simp [branchComplaints, complaint_eq_nil_iff]

theorem complaints_eq_nil_iff {labels : List String} {inst : Instruction} :
    complaints labels inst = [] ↔ Shapely labels inst := by
  unfold complaints Shapely
  split_ifs <;> simp_all [complaint_eq_nil_iff, branchComplaints_eq_nil_iff]

end FunctionTrees.Lowering
