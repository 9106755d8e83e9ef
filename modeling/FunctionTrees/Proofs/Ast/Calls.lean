import FunctionTrees.Proofs.Ast.Moves

/-!
# The list of calls

* `Ast.Names target symbol` : the node is a variable whose name is this string;
* `Ast.SiteSound site` : the entry of a call has its first child, and the name of that child where it is a variable;
* `Ast.CallsIndexed` : the entries are those of all calls among the nodes, in the order of their keys;
* `callsIndexed_of_moves` : so it is whatever moves a builder makes.
-/

set_option autoImplicit false

namespace FunctionTrees

namespace Ast

/-! ## Entries -/

/-- The node is a variable whose name is this string. -/
def Names (ast : Ast) (node : Node) (symbol : Symbol) : Prop :=
  ∃ name, ast.data node = .ok (.interior .var [name]) ∧ ast.data name = .ok (.constant (.str symbol))

theorem Names.kind {ast : Ast} {node : Node} {symbol : Symbol} (h : ast.Names node symbol) :
    ast.kind node = .ok .var := by
  obtain ⟨name, hdata, -⟩ := h
  exact kind_eq_ok_iff.2 ⟨_, hdata, rfl⟩

/-- Growth gives no old node another name. -/
theorem Extends.names_iff {small large : Ast} (hgrown : small.Extends large) (hclosed : small.Closed) {node : Node}
    (hlt : node.index < small.size) {symbol : Symbol} : large.Names node symbol ↔ small.Names node symbol := by
  constructor
  · rintro ⟨name, hdata, hname⟩
    have hold := hgrown.data_of_lt hlt hdata
    have hbefore := hclosed _ _ hold name (List.mem_singleton_self name)
    exact ⟨name, hold, hgrown.data_of_lt (Nat.lt_trans hbefore hlt) hname⟩
  · rintro ⟨name, hdata, hname⟩
    exact ⟨name, hgrown.data hdata, hgrown.data hname⟩

/-- Where shapes are good, every variable has a name. -/
theorem Regular.exists_names {ast : Ast} (h : ast.Regular) {node : Node} (hkind : ast.kind node = .ok .var) :
    ∃ symbol, ast.Names node symbol := by
  obtain ⟨data, hdata, hvar⟩ := kind_eq_ok_iff.1 hkind
  cases h.shape node data hdata with
  | @var name hname =>
    obtain ⟨symbol, hname⟩ := hname
    exact ⟨symbol, name, hdata, hname⟩
  | _ => cases hvar

/-- The entry of a call has its first child, and the name of that child where it is a variable. -/
structure SiteSound (ast : Ast) (site : CallSite) : Prop where
  target : ∃ args, ast.data site.call = .ok (.interior .call (site.target :: args))
  callee : ∀ symbol, site.callee = some symbol ↔ ast.Names site.target symbol
  unnamed : site.callee = none ↔ ast.kind site.target ≠ .ok .var

/-- The entries are those of all calls among the nodes, in the order of their keys. -/
structure CallsIndexed (ast : Ast) : Prop where
  ordered : ast.callSites.Pairwise fun site next => site.call.index < next.call.index
  complete : ∀ node, ast.kind node = .ok .call ↔ ∃ site ∈ ast.callSites, site.call = node
  sites : ∀ site ∈ ast.callSites, ast.SiteSound site

/-! ## Growth -/

theorem SiteSound.call_lt {ast : Ast} {site : CallSite} (h : ast.SiteSound site) : site.call.index < ast.size := by
  obtain ⟨args, hdata⟩ := h.target
  exact lt_size_of_data hdata

theorem SiteSound.grow {small large : Ast} {site : CallSite} (h : small.SiteSound site) (hclosed : small.Closed)
    (hgrown : small.Extends large) : large.SiteSound site := by
  obtain ⟨args, hdata⟩ := h.target
  have hlt : site.target.index < small.size :=
    Nat.lt_trans (hclosed _ _ hdata _ List.mem_cons_self) (lt_size_of_data hdata)
  refine ⟨⟨args, hgrown.data hdata⟩, fun symbol => ?_, ?_⟩
  · rw [hgrown.names_iff hclosed hlt]
    exact h.callee symbol
  · rw [hgrown.kind_eq hlt]
    exact h.unnamed

theorem callsIndexed_empty : CallsIndexed {} := by
  refine ⟨.nil, fun node => ⟨fun hkind => ?_, ?_⟩, fun _ hsite => nomatch hsite⟩
  · obtain ⟨data, hdata, -⟩ := kind_eq_ok_iff.1 hkind
    exact absurd (lt_size_of_data hdata) (Nat.not_lt_zero _)
  · rintro ⟨_, hsite, -⟩
    cases hsite

/-- The list stays right where no call is made and none is listed. -/
theorem CallsIndexed.keep {small large : Ast} (h : small.CallsIndexed) (hclosed : small.Closed)
    (hgrown : small.Extends large) (hsites : large.callSites = small.callSites)
    (hcalls : ∀ node, large.kind node = .ok .call → small.kind node = .ok .call) : large.CallsIndexed := by
  refine ⟨?_, fun node => ?_, ?_⟩
  · rw [hsites]
    exact h.ordered
  · rw [hsites, ← h.complete]
    exact ⟨hcalls node, hgrown.kind⟩
  · rw [hsites]
    intro site hsite
    exact (h.sites site hsite).grow hclosed hgrown

end Ast

/-! ## Moves -/

namespace Builder

open Ast

theorem kind_store_cases {b : Builder} {data : NodeData} {node : Node} {kind : NodeKind}
    (h : (b.store data).ast.kind node = .ok kind) :
    node = ⟨b.ast.size⟩ ∧ data.kind = kind ∨ b.ast.kind node = .ok kind := by
  obtain ⟨stored, hstored, rfl⟩ := kind_eq_ok_iff.1 h
  rcases data_store_cases hstored with ⟨rfl, rfl⟩ | hold
  · exact .inl ⟨rfl, rfl⟩
  · exact .inr (kind_eq_ok_iff.2 ⟨stored, hold, rfl⟩)

/-- What the list of calls says of the target is its name, if it is a variable. -/
theorem callee?_eq_some_iff {ast : Ast} (h : ast.Regular) {target : Node} {symbol : Symbol} :
    Build.callee? ast target = some symbol ↔ ast.Names target symbol := by
  have hnames {symbol : Symbol} (hnames : ast.Names target symbol) : Build.callee? ast target = some symbol := by
    obtain ⟨name, hdata, hname⟩ := hnames
    simp [Build.callee?, Ast.kind, Ast.nameSymbol?, Ast.child?, Ast.children, Ast.constant?, hdata, hname, Except.map,
      NodeData.kind, NodeData.children, NodeData.constant?, Constant.str?, Except.toOption]
  constructor
  · intro hcallee
    have hkind : ast.kind target = .ok .var := by
      unfold Build.callee? at hcallee
      split at hcallee
      next hkind => exact hkind
      next => cases hcallee
    obtain ⟨other, hother⟩ := h.exists_names hkind
    rw [hnames hother] at hcallee
    obtain rfl := Option.some.inj hcallee
    exact hother
  · exact hnames

theorem callee?_eq_none_iff {ast : Ast} (h : ast.Regular) {target : Node} :
    Build.callee? ast target = none ↔ ast.kind target ≠ .ok .var := by
  constructor
  · intro hnone hkind
    obtain ⟨symbol, hnames⟩ := h.exists_names hkind
    rw [(callee?_eq_some_iff h).2 hnames] at hnone
    cases hnone
  · intro hkind
    rw [Option.eq_none_iff_forall_ne_some]
    intro symbol hcallee
    exact hkind ((callee?_eq_some_iff h).1 hcallee).kind

/-- A call that is made and listed is in its place at the end of the list. -/
theorem callsIndexed_call {b : Builder} (h : b.ast.CallsIndexed) (hregular : b.ast.Regular) {target : Node}
    {args : List Node} (hchildren : ∀ child ∈ target :: args, child.index < b.ast.size) :
    ((Build.call target args).run b).2.ast.CallsIndexed := by
  have hgrown := (Move.call hchildren).grown
  have htarget : target.index < b.ast.size := hchildren target List.mem_cons_self
  rw [Build.run_call] at hgrown ⊢
  refine ⟨?_, fun node => ?_, ?_⟩
  · show (b.ast.callSites ++ [_]).Pairwise _
    rw [List.pairwise_append]
    refine ⟨h.ordered, List.pairwise_singleton _ _, fun site hsite next hnext => ?_⟩
    rw [List.mem_singleton.1 hnext]
    exact (h.sites site hsite).call_lt
  · show (b.store _).ast.kind node = _ ↔ ∃ site ∈ b.ast.callSites ++ [_], _
    simp only [List.mem_append, List.mem_singleton, or_and_right, exists_or, ← h.complete, exists_eq_left]
    constructor
    · intro hkind
      rcases kind_store_cases hkind with ⟨rfl, -⟩ | hold
      · exact .inr rfl
      · exact .inl hold
    · rintro (hold | rfl)
      · exact (b.extends_store _).kind hold
      · exact kind_eq_ok_iff.2 ⟨_, b.data_store _, rfl⟩
  · show ∀ site ∈ b.ast.callSites ++ [_], _
    rw [List.forall_mem_append, List.forall_mem_singleton]
    refine ⟨fun site hsite => (h.sites site hsite).grow hregular.closed hgrown, ⟨args, b.data_store _⟩, ?_, ?_⟩
    · intro symbol
      rw [hgrown.names_iff hregular.closed htarget]
      exact callee?_eq_some_iff hregular
    · rw [hgrown.kind_eq htarget]
      exact callee?_eq_none_iff hregular

theorem Move.callsIndexed {b b' : Builder} (hmove : Move b b') (hregular : b.ast.Regular) (h : b.ast.CallsIndexed) :
    b'.ast.CallsIndexed := by
  have hgrown := hmove.grown
  cases hmove with
  | intern text => exact h.keep hregular.closed hgrown rfl fun _ hkind => hkind
  | turn current => exact h
  | store hshape hcall hchildren =>
    refine h.keep hregular.closed hgrown rfl fun node hkind => ?_
    rcases kind_store_cases hkind with ⟨-, hnew⟩ | hold
    · exact absurd hnew hcall
    · exact hold
  | call hchildren => exact callsIndexed_call h hregular hchildren

theorem callsIndexed_of_moves {b b' : Builder} (hmoves : Moves b b') (hregular : b.ast.Regular)
    (h : b.ast.CallsIndexed) : b'.ast.CallsIndexed := by
  induction hmoves with
  | refl => exact h
  | tail hmoves hmove ih => exact hmove.callsIndexed (regular_of_moves hmoves hregular) ih

end Builder

end FunctionTrees
