import FunctionTrees.Operator
import Mathlib.Data.List.Nodup

/-!
# Which operator a mnemonic names

* `tag_injective` : an operator is known by its tag;
* `precise? mnemonic arity` : the operator with that tag and arity that is no fallback, looked up in the catalog;
* `resolve_eq_getD` : resolving a mnemonic is that lookup, with the fallback of the arity where it finds nothing;
* `isFallback_resolve_iff`, `eq_fallback_of_isFallback` : when that is, and that each arity has one fallback.
-/

set_option autoImplicit false

namespace FunctionTrees.Operator

theorem nodup_tags : (all.map tag).Nodup := by decide

theorem tag_injective {op other : Operator} (h : op.tag = other.tag) : op = other :=
  List.inj_on_of_nodup_map nodup_tags (mem_all op) (mem_all other) h

/-- The operator of the given tag and arity, fallbacks apart. -/
def precise? (mnemonic : String) (arity : Arity) : Option Operator :=
  all.find? fun op => op.tag = mnemonic ∧ op.arity = arity ∧ ¬ op.isFallback

/-- A condition that one operator at most meets finds that operator. -/
theorem find?_all_eq_some_iff {p : Operator → Bool} (h : ∀ op other, p op → p other → op = other) {op : Operator} :
    all.find? p = some op ↔ p op := by
  constructor
  · intro hfind
    exact List.find?_some hfind
  · intro hop
    cases hfind : all.find? p with
    | none => exact absurd hop (List.find?_eq_none.1 hfind op (mem_all op))
    | some other => rw [h op other hop (List.find?_some hfind)]

theorem precise?_eq_some_iff {mnemonic : String} {arity : Arity} {op : Operator} :
    precise? mnemonic arity = some op ↔ op.tag = mnemonic ∧ op.arity = arity ∧ ¬ op.isFallback := by
  rw [precise?, find?_all_eq_some_iff, decide_eq_true_iff]
  intro op other hop hother
  exact tag_injective ((of_decide_eq_true hop).1.trans (of_decide_eq_true hother).1.symm)

theorem ofTag?_eq_some_iff {tag : String} {op : Operator} : ofTag? tag = some op ↔ op.tag = tag := by
  rw [ofTag?, find?_all_eq_some_iff, beq_iff_eq]
  intro op other hop hother
  exact tag_injective ((beq_iff_eq.1 hop).trans (beq_iff_eq.1 hother).symm)

theorem resolve_eq_getD (mnemonic : String) (arity : Arity) :
    resolve mnemonic arity = (precise? mnemonic arity).getD (fallback arity) := by
  unfold resolve
  split
  next op hop =>
    have htag := ofTag?_eq_some_iff.1 hop
    split
    next hrest => rw [precise?_eq_some_iff.2 ⟨htag, hrest⟩, Option.getD_some]
    next hrest =>
      cases h : precise? mnemonic arity with
      | none => rfl
      | some other =>
        obtain ⟨hother, hprecise⟩ := precise?_eq_some_iff.1 h
        rw [tag_injective (htag.trans hother.symm)] at hrest
        exact absurd hprecise hrest
  next hnone =>
    cases h : precise? mnemonic arity with
    | none => rfl
    | some other =>
      rw [ofTag?_eq_some_iff.2 (precise?_eq_some_iff.1 h).1] at hnone
      cases hnone

/-! ## Fallbacks -/

theorem isFallback_fallback (arity : Arity) : (fallback arity).isFallback = true := by
  cases arity <;> rfl

theorem eq_fallback_of_isFallback {op : Operator} (h : op.isFallback = true) : op = fallback op.arity := by
  rcases Bool.or_eq_true_iff.1 h with hbinary | hunary
  · rw [beq_iff_eq.1 hbinary]
    rfl
  · rw [beq_iff_eq.1 hunary]
    rfl

/-- A fallback is resolved exactly where no other operator of the arity has the mnemonic as its tag. -/
theorem isFallback_resolve_iff {mnemonic : String} {arity : Arity} : (resolve mnemonic arity).isFallback = true ↔
    ∀ op : Operator, op.tag = mnemonic → op.arity = arity → op.isFallback = true := by
  rw [resolve_eq_getD]
  cases h : precise? mnemonic arity with
  | none =>
    refine ⟨fun _ op htag harity => ?_, fun _ => isFallback_fallback arity⟩
    by_contra hprecise
    rw [precise?_eq_some_iff.2 ⟨htag, harity, hprecise⟩] at h
    cases h
  | some op =>
    obtain ⟨htag, harity, hprecise⟩ := precise?_eq_some_iff.1 h
    exact ⟨fun hfallback => absurd hfallback hprecise, fun hall => hall op htag harity⟩

end FunctionTrees.Operator
