import FunctionTrees.Proofs.Outcome
import FunctionTrees.Proofs.StringPool
import Mathlib.Data.Finset.Card

/-!
# Interning numbers the distinct texts

* `insertAll texts` : takes texts in one after the other, and gives their symbols;
* `getElem?_eraseDups` : without repeats, a text stands behind the distinct texts that came before it;
* `size_ofList`, `index_of_get?_ofList` : a pool has as many strings as there are distinct texts, and the symbol of a text
  is the number of those before it;
* `Interned texts symbols pool` : the strings are the texts without repeats, and each symbol stands for its text;
  `Interned.insert` for one more text, `interned_insertAll` for all of them;
* `numbers_insertAll` : symbols number the distinct texts in the order in which they come, for good.
-/

set_option autoImplicit false

namespace FunctionTrees.StringPool

variable {texts : List String} {text : String} {symbols : List Symbol} {symbol : Symbol} {pool : StringPool}

/-! ## Distinct texts -/

theorem card_toFinset_eq_length_eraseDups (texts : List String) :
    texts.toFinset.card = texts.eraseDups.length := by
  have hsame : texts.toFinset = (ofList texts).strings.toFinset := by
    ext text
    simp only [strings_ofList, List.mem_toFinset, List.mem_eraseDups]
  rw [hsame, List.toFinset_card_of_nodup (ofList texts).nodup, strings_ofList]

theorem size_ofList (texts : List String) : (ofList texts).size = texts.toFinset.card := by
  rw [card_toFinset_eq_length_eraseDups, size, strings_ofList]

/-- Without repeats, a text stands behind the distinct texts that came before it. -/
theorem getElem?_eraseDups (h : text ∈ texts) :
    texts.eraseDups[(texts.take (texts.idxOf text)).toFinset.card]? = some text := by
  obtain ⟨before, after, rfl, hbefore⟩ := List.eq_append_cons_of_mem h
  have hfirst : (before ++ text :: after).idxOf text = before.length := by
    rw [List.idxOf_append, if_neg hbefore, List.idxOf_cons_self, Nat.zero_add]
  have hnew : (text :: after).removeAll before = text :: after.removeAll before := by
    simp [List.removeAll, hbefore]
  rw [hfirst, List.take_left, card_toFinset_eq_length_eraseDups, List.eraseDups_append, hnew, List.eraseDups_cons,
    List.getElem?_append_right (Nat.le_refl _), Nat.sub_self]
  rfl

/-- The symbol of a text is the number of distinct texts that came before it. -/
theorem index_of_get?_ofList (h : (ofList texts).get? symbol = some text) :
    text ∈ texts ∧ symbol.index = (texts.take (texts.idxOf text)).toFinset.card := by
  have hmem : text ∈ (ofList texts).strings := List.mem_of_getElem? h
  rw [strings_ofList, List.mem_eraseDups] at hmem
  have hplace : (ofList texts).get? ⟨(texts.take (texts.idxOf text)).toFinset.card⟩ = some text := by
    rw [get?, strings_ofList]
    exact getElem?_eraseDups hmem
  exact ⟨hmem, congrArg Symbol.index (symbol_unique h hplace)⟩

/-! ## Runs -/

def insertAll (texts : List String) : StateM StringPool (List Symbol) := texts.mapM fun text pool => pool.insert text

/-- The strings are the texts without repeats, and each symbol stands for its text. -/
structure Interned (texts : List String) (symbols : List Symbol) (pool : StringPool) : Prop where
  strings : pool.strings = texts.eraseDups
  resolved : List.Forall₂ (fun text symbol => pool.get? symbol = some text) texts symbols

theorem Interned.insert (h : Interned texts symbols pool) (text : String) :
    let (symbol, next) := pool.insert text
    Interned (texts ++ [text]) (symbols ++ [symbol]) next := by
  refine ⟨strings_insert_of_eraseDups h.strings text, List.rel_append ?_ (.cons (pool.get?_insert_self text) .nil)⟩
  exact h.resolved.imp fun _ _ hget => get?_of_prefix (pool.strings_prefix_insert text) hget

theorem interned_insertAll (texts : List String) :
    Interned texts ((insertAll texts).run {}).1 ((insertAll texts).run {}).2 := by
  induction texts using List.reverseRecOn with
  | nil => exact ⟨rfl, .nil⟩
  | append_singleton texts text ih =>
    rw [insertAll, Outcome.run_mapM_append]
    exact ih.insert text

theorem Interned.eq_ofList (h : Interned texts symbols pool) : pool = ofList texts :=
  ext_strings (h.strings.trans (strings_ofList texts).symm)

theorem strings_prefix_insertAll (pool : StringPool) (texts : List String) :
    pool.strings <+: ((insertAll texts).run pool).2.strings := by
  induction texts using List.reverseRecOn with
  | nil => exact List.prefix_rfl
  | append_singleton texts text ih =>
    rw [insertAll, Outcome.run_mapM_append]
    exact ih.trans (strings_prefix_insert _ text)

/-- Only the symbol that was handed out for a text stands for it. -/
theorem Interned.getElem?_iff (h : Interned texts symbols pool) {place : Nat} (ht : texts[place]? = some text) :
    symbols[place]? = some symbol ↔ pool.get? symbol = some text := by
  obtain ⟨found, hfound, hget⟩ := Outcome.exists_of_forall₂ h.resolved ht
  rw [hfound, Option.some.injEq]
  constructor
  · rintro rfl
    exact hget
  · exact symbol_unique hget

theorem Interned.exists_text (h : Interned texts symbols pool) {place : Nat} (hs : symbols[place]? = some symbol) :
    ∃ text, texts[place]? = some text ∧ pool.get? symbol = some text :=
  Outcome.exists_of_forall₂ h.resolved.flip hs

theorem Interned.getElem?_eq_none_iff (h : Interned texts symbols pool) (place : Nat) :
    symbols[place]? = none ↔ texts[place]? = none := by
  rw [List.getElem?_eq_none_iff, List.getElem?_eq_none_iff, h.resolved.length_eq]

theorem Interned.mem_iff (h : Interned texts symbols pool) : symbol ∈ symbols ↔ ∃ text, pool.get? symbol = some text := by
  constructor
  · intro hmem
    obtain ⟨place, hplace⟩ := List.mem_iff_getElem?.1 hmem
    obtain ⟨text, -, hget⟩ := h.exists_text hplace
    exact ⟨text, hget⟩
  · rintro ⟨text, hget⟩
    obtain ⟨hmem, -⟩ := index_of_get?_ofList (h.eq_ofList ▸ hget)
    obtain ⟨place, hplace⟩ := List.mem_iff_getElem?.1 hmem
    exact List.mem_of_getElem? ((h.getElem?_iff hplace).2 hget)

/-! ## The numbering -/

/-- Symbols number the distinct texts in the order in which they come, for good. -/
structure Numbers (texts : List String) (symbols : List Symbol) (pool : StringPool) : Prop
    extends Interned texts symbols pool where
  /-- Each call has its symbol, and two calls have the same one exactly if their texts are equal. -/
  same_iff : ∀ first second : Nat, symbols[first]? = symbols[second]? ↔ texts[first]? = texts[second]?
  index_eq : ∀ (place : Nat) text symbol, texts[place]? = some text → symbols[place]? = some symbol →
    symbol.index = (texts.take (texts.idxOf text)).toFinset.card
  /-- Whatever is taken in later, a symbol stands for its text. -/
  keeps : ∀ (more : List String) (place : Nat) text symbol, texts[place]? = some text →
    symbols[place]? = some symbol →
      ((insertAll more).run pool).2.get? symbol = some text ∧ ((insertAll more).run pool).2.fetch symbol = .ok text
  get?_eq_none_iff : ∀ symbol, pool.get? symbol = none ↔ symbol ∉ symbols
  size_eq : pool.size = texts.toFinset.card
  /-- The texts under which symbols stand are those at their places, of which no two are equal. -/
  inverse : ∀ text symbol, pool.symbols text = some symbol ↔ pool.strings[symbol.index]? = some text
  nodup : pool.strings.Nodup

theorem Interned.same_iff (h : Interned texts symbols pool) (first second : Nat) :
    symbols[first]? = symbols[second]? ↔ texts[first]? = texts[second]? := by
  cases ht : texts[first]? with
  | none =>
    rw [(h.getElem?_eq_none_iff first).2 ht, eq_comm, h.getElem?_eq_none_iff, eq_comm]
  | some text =>
    obtain ⟨symbol, hs, hget⟩ := Outcome.exists_of_forall₂ h.resolved ht
    rw [hs]
    constructor
    · intro hsame
      obtain ⟨text', ht', hget'⟩ := h.exists_text hsame.symm
      rw [ht', ← hget, hget']
    · intro hsame
      exact ((h.getElem?_iff hsame.symm).2 hget).symm

/-- However a new pool is filled, its symbols number the distinct texts in the order in which they come. -/
theorem numbers_insertAll (texts : List String) :
    Numbers texts ((insertAll texts).run {}).1 ((insertAll texts).run {}).2 := by
  have h := interned_insertAll texts
  refine ⟨h, h.same_iff, fun place text symbol ht hs => ?_, fun more place text symbol ht hs => ?_, fun symbol => ?_,
    ?_, StringPool.numbering _, StringPool.nodup _⟩
  · exact (index_of_get?_ofList (h.eq_ofList ▸ (h.getElem?_iff ht).1 hs)).2
  · have hget := get?_of_prefix (strings_prefix_insertAll _ more) ((h.getElem?_iff ht).1 hs)
    exact ⟨hget, fetch_eq_ok_iff.2 hget⟩
  · rw [h.mem_iff, Option.eq_none_iff_forall_ne_some, not_exists]
  · rw [h.eq_ofList, size_ofList]

/-- Three texts that five calls take in, and a fourth one later. -/
theorem numbers_insertAll_repeated :
    let run := (insertAll ["self", "x", "self", "y", "x"]).run {}
    run.1 = [⟨0⟩, ⟨1⟩, ⟨0⟩, ⟨2⟩, ⟨1⟩] ∧ run.2.size = 3 ∧ run.2.get? ⟨3⟩ = none ∧
      ((insertAll ["self", "z"]).run run.2).2.get? ⟨1⟩ = some "x" := by
  intro run
  have hnumbers := numbers_insertAll ["self", "x", "self", "y", "x"]
  exact ⟨rfl, hnumbers.size_eq, (hnumbers.get?_eq_none_iff ⟨3⟩).2 (by decide),
    (hnumbers.keeps ["self", "z"] 4 "x" ⟨1⟩ rfl rfl).1⟩

end FunctionTrees.StringPool
