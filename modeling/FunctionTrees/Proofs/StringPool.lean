import FunctionTrees.Proofs.Outcome
import FunctionTrees.StringPool
import Mathlib.Data.List.Induction

/-!
# Symbols keep their texts

* `insert_eq_of_find?_eq_some`, `insert_eq_of_find?_eq_none` : the two ways in which a text is taken in;
* `find?_eq_some_iff` : the symbols of texts and the texts of symbols are the inverse of each other;
* `strings_prefix_insert` : taking a text in leaves the texts before it where they are;
* `get?_insert_self` : the symbol handed out stands for the text;
* `lt_size_insert` : no other symbol is new;
* `get?_of_prefix` : a symbol keeps its text in every pool that has grown from the first;
* `symbol_unique`, `nodup` : no two symbols of a pool stand for one text;
* `strings_ofList`, `ofList_strings` : the pool of some texts leaves out the repeats, and its strings make that pool.
-/

set_option autoImplicit false

namespace FunctionTrees.StringPool

theorem insert_eq_of_find?_eq_some {pool : StringPool} {text : String} {symbol : Symbol}
    (h : pool.find? text = some symbol) : pool.insert text = (symbol, pool) := by
  unfold insert
  split
  next found hfound =>
    rw [hfound] at h
    rw [Option.some.inj h]
  next hnone =>
    rw [hnone] at h
    cases h

theorem insert_eq_of_find?_eq_none {pool : StringPool} {text : String} (h : pool.find? text = none) :
    pool.insert text = (⟨pool.size⟩, pool.add text h) := by
  unfold insert
  split
  next found hfound =>
    rw [hfound] at h
    cases h
  next => rfl

/-- Symbols and texts are the inverse of each other. -/
theorem find?_eq_some_iff {pool : StringPool} {text : String} {symbol : Symbol} :
    pool.find? text = some symbol ↔ pool.get? symbol = some text :=
  pool.numbering text symbol

theorem strings_prefix_insert (pool : StringPool) (text : String) :
    pool.strings <+: (pool.insert text).2.strings := by
  cases h : pool.find? text with
  | some symbol =>
    have hinsert := insert_eq_of_find?_eq_some h
    have hstrings : (pool.insert text).2.strings = pool.strings := by rw [hinsert]
    exact hstrings ▸ List.prefix_rfl
  | none =>
    rw [insert_eq_of_find?_eq_none h]
    exact List.prefix_append _ _

theorem get?_insert_self (pool : StringPool) (text : String) :
    (pool.insert text).2.get? (pool.insert text).1 = some text := by
  cases h : pool.find? text with
  | some symbol =>
    rw [insert_eq_of_find?_eq_some h]
    exact find?_eq_some_iff.1 h
  | none =>
    rw [insert_eq_of_find?_eq_none h]
    simp [get?, size]

/-- No symbol but the one handed out is new. -/
theorem lt_size_insert {pool : StringPool} {text : String} {symbol : Symbol}
    (h : symbol.index < (pool.insert text).2.size) :
    symbol.index < pool.size ∨ symbol = (pool.insert text).1 := by
  cases hfind : pool.find? text with
  | some found =>
    rw [insert_eq_of_find?_eq_some hfind] at h
    exact .inl h
  | none =>
    rw [insert_eq_of_find?_eq_none hfind] at h ⊢
    have hle : symbol.index < pool.size + 1 := by simpa [size] using h
    by_cases hold : symbol.index < pool.size
    · exact .inl hold
    · have hindex : symbol.index = pool.size := by omega
      cases symbol
      exact .inr (congrArg Symbol.mk hindex)

theorem get?_of_prefix {pool grown : StringPool} (h : pool.strings <+: grown.strings) {symbol : Symbol} {text : String}
    (hget : pool.get? symbol = some text) : grown.get? symbol = some text := by
  obtain ⟨more, hmore⟩ := h
  have hlt : symbol.index < pool.strings.length := (List.getElem?_eq_some_iff.1 hget).1
  rw [get?, ← hmore, List.getElem?_append_left hlt]
  exact hget

theorem symbol_unique {pool : StringPool} {symbol other : Symbol} {text : String} (h : pool.get? symbol = some text)
    (h' : pool.get? other = some text) : symbol = other := by
  rw [← find?_eq_some_iff] at h h'
  exact Option.some.inj (h.symm.trans h')

/-- No text has two places. -/
theorem nodup (pool : StringPool) : pool.strings.Nodup := by
  refine Outcome.nodup_of_getElem?_unique fun first second text hfirst hsecond => ?_
  have hsymbol : (⟨first⟩ : Symbol) = ⟨second⟩ := symbol_unique hfirst hsecond
  exact congrArg Symbol.index hsymbol

/-! ## Looking texts up -/

theorem fetch_eq_ok_iff {pool : StringPool} {symbol : Symbol} {text : String} :
    pool.fetch symbol = .ok text ↔ pool.get? symbol = some text := by
  unfold fetch
  split <;> simp_all

theorem find?_eq_none_iff {pool : StringPool} {text : String} : pool.find? text = none ↔ text ∉ pool.strings := by
  rw [List.mem_iff_getElem?, Option.eq_none_iff_forall_ne_some]
  constructor
  · rintro h ⟨place, hplace⟩
    exact h ⟨place⟩ (find?_eq_some_iff.2 hplace)
  · rintro h ⟨place⟩ hsymbol
    exact h ⟨place, find?_eq_some_iff.1 hsymbol⟩

/-! ## Pools from their strings -/

variable {texts : List String} {text : String}

theorem eraseDups_concat_of_mem (h : text ∈ texts) : (texts ++ [text]).eraseDups = texts.eraseDups := by
  have hnone : [text].removeAll texts = [] := by simpa [List.removeAll] using h
  rw [List.eraseDups_append, hnone, List.eraseDups_nil, List.append_nil]

theorem eraseDups_concat_of_not_mem (h : text ∉ texts) : (texts ++ [text]).eraseDups = texts.eraseDups ++ [text] := by
  have hall : [text].removeAll texts = [text] := by simpa [List.removeAll] using h
  rw [List.eraseDups_append, hall]
  rfl

theorem eraseDups_of_nodup (h : texts.Nodup) : texts.eraseDups = texts := by
  induction texts using List.reverseRecOn with
  | nil => rfl
  | append_singleton texts text ih =>
    obtain ⟨hnodup, -, hdisjoint⟩ := List.nodup_append.1 h
    rw [eraseDups_concat_of_not_mem fun hmem => hdisjoint text hmem text (List.mem_singleton_self text) rfl, ih hnodup]

/-- Repeats are left out as the texts come. -/
theorem strings_insert_of_eraseDups {pool : StringPool} (h : pool.strings = texts.eraseDups) (text : String) :
    (pool.insert text).2.strings = (texts ++ [text]).eraseDups := by
  cases hfind : pool.find? text with
  | some symbol =>
    have hmem : text ∈ pool.strings := List.mem_of_getElem? (find?_eq_some_iff.1 hfind)
    rw [insert_eq_of_find?_eq_some hfind, h, eraseDups_concat_of_mem (List.mem_eraseDups.1 (h ▸ hmem))]
  | none =>
    have hnew : text ∉ texts := fun hmem => find?_eq_none_iff.1 hfind (h ▸ List.mem_eraseDups.2 hmem)
    rw [insert_eq_of_find?_eq_none hfind, strings_add, h, eraseDups_concat_of_not_mem hnew]

theorem ofList_concat (texts : List String) (text : String) :
    ofList (texts ++ [text]) = ((ofList texts).insert text).2 := List.foldl_append

theorem strings_ofList (texts : List String) : (ofList texts).strings = texts.eraseDups := by
  induction texts using List.reverseRecOn with
  | nil => rfl
  | append_singleton texts text ih =>
    rw [ofList_concat]
    exact strings_insert_of_eraseDups ih text

theorem ofList_strings (pool : StringPool) : ofList pool.strings = pool :=
  ext_strings ((strings_ofList pool.strings).trans (eraseDups_of_nodup pool.nodup))

end FunctionTrees.StringPool
