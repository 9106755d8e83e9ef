import FunctionTrees.Proofs.Ast.Actions

/-!
# Strings that something refers to

* `Builder.Refers symbol` : a constant or the position of a node refers to the string;
* `Builder.Owes debts` : no more than the strings in `debts` have been taken in without such use; `Owes.intern`,
  `Owes.store`, `Owes.settle` (a string constant pays its debt), `Owes.settle_position`;
* `Build.Pays act` : `act` leaves no debt of its own; `pays_string`, `pays_var`, … : the actions that make nodes.
-/

set_option autoImplicit false

namespace FunctionTrees

namespace Builder

variable {b b' : Builder} {symbol : Symbol} {debts : List Symbol}

/-! ## Debts -/

/-- A constant or the position of a node refers to the string. -/
def Refers (b : Builder) (symbol : Symbol) : Prop :=
  (∃ node, b.ast.data node = .ok (.constant (.str symbol))) ∨
    ∃ node position, b.positions.get? node = some position ∧ position.file = symbol

/-- No more than the strings in `debts` have been taken in without a node that refers to them. -/
structure Owes (b : Builder) (debts : List Symbol) : Prop where
  fresh : ∀ node, b.ast.size ≤ node.index → b.positions.get? node = none
  referred : ∀ symbol : Symbol, symbol.index < b.ast.strings.size → symbol ∈ debts ∨ b.Refers symbol

theorem owes_empty : Owes {} [] := by
  refine ⟨fun _ _ => rfl, fun symbol hlt => ?_⟩
  exact absurd hlt (Nat.not_lt_zero _)

/-- Neither the calls nor the current position matter. -/
theorem Owes.congr (h : b.Owes debts) (hnodes : b'.ast.nodes = b.ast.nodes)
    (hstrings : b'.ast.strings = b.ast.strings) (hpositions : b'.positions = b.positions) : b'.Owes debts := by
  have hsize : b'.ast.size = b.ast.size := congrArg Arena.size hnodes
  have hdata : b'.ast.data = b.ast.data := by
    funext node
    simp only [Ast.data, hnodes]
  refine ⟨?_, ?_⟩
  · rw [hsize, hpositions]
    exact h.fresh
  · unfold Refers
    rw [hstrings, hpositions, hdata]
    exact h.referred

theorem Owes.mono {more : List Symbol} (h : b.Owes debts) (hmore : ∀ symbol ∈ debts, symbol ∈ more ∨ b.Refers symbol) :
    b.Owes more := by
  refine ⟨h.fresh, fun symbol hlt => ?_⟩
  rcases h.referred symbol hlt with hmem | hrefers
  · exact hmore symbol hmem
  · exact .inr hrefers

/-- A string that is taken in is owed. -/
theorem Owes.intern (h : b.Owes debts) (text : String) :
    ((Build.intern text).run b).2.Owes (((Build.intern text).run b).1 :: debts) := by
  refine ⟨h.fresh, fun symbol hlt => ?_⟩
  rcases StringPool.lt_size_insert hlt with hold | hnew
  · rcases h.referred symbol hold with hmem | hrefers
    · exact .inl (List.mem_cons_of_mem _ hmem)
    · exact .inr hrefers
  · exact .inl (hnew ▸ List.mem_cons_self)

/-! ## Nodes -/

theorem Refers.store (h : b.Refers symbol) (hfresh : ∀ node, b.ast.size ≤ node.index → b.positions.get? node = none)
    (data : NodeData) : (b.store data).Refers symbol := by
  rcases h with ⟨node, hdata⟩ | ⟨node, position, hposition, hfile⟩
  · exact .inl ⟨node, (b.extends_store data).data hdata⟩
  · refine .inr ⟨node, position, ?_, hfile⟩
    have hne : node.index ≠ b.ast.size := by
      intro hindex
      have hnone := hfresh node (Nat.le_of_eq hindex.symm)
      rw [hposition] at hnone
      cases hnone
    rw [b.get?_store_of_ne data hne, hposition]

theorem Owes.store (h : b.Owes debts) (data : NodeData) : (b.store data).Owes debts := by
  refine ⟨fun node hle => ?_, fun symbol hlt => ?_⟩
  · rw [size_store] at hle
    rw [b.get?_store_of_ne data (by omega), h.fresh node (by omega)]
  · rcases h.referred symbol hlt with hmem | hrefers
    · exact .inl hmem
    · exact .inr (hrefers.store h.fresh data)

/-- A string constant pays its debt. -/
theorem Owes.settle (h : b.Owes (symbol :: debts)) : (b.store (.constant (.str symbol))).Owes debts := by
  apply (h.store (.constant (.str symbol))).mono
  intro other hother
  rcases List.mem_cons.1 hother with rfl | hmem
  · exact .inr (.inl ⟨⟨b.ast.size⟩, b.data_store _⟩)
  · exact .inl hmem

/-- The position of a node pays the debt of its file. -/
theorem Owes.settle_position {node : Node} {position : Position} (h : b.Owes (position.file :: debts))
    (hposition : b.positions.get? node = some position) : b.Owes debts := by
  apply h.mono
  intro other hother
  rcases List.mem_cons.1 hother with rfl | hmem
  · exact .inr (.inr ⟨node, position, hposition, rfl⟩)
  · exact .inl hmem

end Builder

/-! ## Actions -/

namespace Build

variable {α β : Type}

/-- `act` leaves no debt of its own. -/
def Pays (act : Build α) : Prop :=
  ∀ (b : Builder) (debts : List Symbol), b.Owes debts → (act.run b).2.Owes debts

theorem Pays.bind {act : Build α} {next : α → Build β} (h : act.Pays) (hnext : ∀ value, (next value).Pays) :
    Pays (act >>= next) :=
  fun b debts howes => hnext _ _ debts (h b debts howes)

theorem Pays.mapM {f : α → Build β} (h : ∀ item, (f item).Pays) (items : List α) : Pays (items.mapM f) := by
  induction items with
  | nil => exact fun b debts howes => howes
  | cons item items ih =>
    rw [List.mapM_cons]
    exact (h item).bind fun _ => ih.bind fun _ => fun b debts howes => howes

theorem pays_interior {kind : NodeKind} (h : kind.isLeaf = false) (children : List Node) :
    Pays (interior kind children) := by
  intro b debts howes
  rw [run_interior h]
  exact howes.store _

theorem pays_operator (op : Operator) : Pays (operator op) := by
  intro b debts howes
  rw [run_operator]
  exact howes.store _

theorem pays_constant (value : Constant) : Pays (constant value) := by
  intro b debts howes
  rw [run_constant]
  exact howes.store _

theorem pays_string (text : String) : Pays (string text) := by
  intro b debts howes
  rw [string, run_bind, run_constant]
  exact (howes.intern text).settle

theorem pays_var (name : String) : Pays (var name) :=
  (pays_string name).bind fun child => pays_interior rfl [child]

theorem pays_binary (op : Operator) (lhs rhs : Node) : Pays (binary op lhs rhs) :=
  (pays_operator op).bind fun child => pays_interior rfl [child, lhs, rhs]

theorem pays_unary (op : Operator) (operand : Node) : Pays (unary op operand) :=
  (pays_operator op).bind fun child => pays_interior rfl [child, operand]

theorem pays_primitive (name : String) (operands : List Node) : Pays (primitive name operands) :=
  (pays_string name).bind fun child => pays_interior rfl (child :: operands)

theorem pays_call (target : Node) (args : List Node) : Pays (call target args) := by
  intro b debts howes
  rw [run_call]
  exact (howes.store (.interior .call (target :: args))).congr rfl rfl rfl

theorem pays_ret (value : Option Node) : Pays (ret value) := pays_interior rfl value.toList

theorem pays_goto (target : String) : Pays (goto target) :=
  (pays_string target).bind fun child => pays_interior rfl [child]

theorem pays_ifGoto (condition : Node) (target : String) : Pays (ifGoto condition target) :=
  (pays_string target).bind fun child => pays_interior rfl [condition, child]

theorem pays_label (name : String) : Pays (label name) :=
  (pays_string name).bind fun child => pays_interior rfl [child]

end Build

end FunctionTrees
