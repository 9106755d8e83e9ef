import FunctionTrees.Proofs.Formats.Ast
import FunctionTrees.Proofs.StringPool.Interning

/-!
# Lists that are read as string pools

* `repeats texts` : how many places of a list hold what an earlier place holds; `size_ofList_add_repeats`;
* `FirstRepeat texts place` : the first such place; `exists_firstRepeat` : some place is, unless all texts are distinct;
* `get?_ofList_of_lt`, `lt_idxOf_of_get?_ofList` : symbols before it stand for the texts at their places, and those behind
  it for texts that come later in the list;
* `get?_ofList_iff_nodup` : all symbols stand for the texts at their places exactly if nothing repeats;
* `decode_of_list` : however a list is written, it is read as the pool that its texts make;
* `reindexes_decode` : what becomes of the places of a list, and that a pool comes back as it was.
-/

set_option autoImplicit false

namespace FunctionTrees.StringPool

open Json (Format Reader)

variable {texts : List String} {text : String} {first place : Nat}

/-! ## Repeats -/

/-- How many places hold what an earlier place holds. -/
def repeats (texts : List String) : Nat := texts.zipIdx.countP fun (text, place) => text ∈ texts.take place

theorem repeats_concat (texts : List String) (text : String) :
    repeats (texts ++ [text]) = repeats texts + if text ∈ texts then 1 else 0 := by
  have hseen : ∀ texts : List String, repeats texts =
      (texts.zipIdx.map fun (text, place) => decide (text ∈ texts.take place)).countP id := by
    intro texts
    rw [List.countP_map]
    rfl
  rw [hseen, hseen, Outcome.map_zipIdx_concat fun before text => decide (text ∈ before), List.countP_append]
  simp [List.countP_cons]

/-- Each place holds a text for the first time, or holds it again. -/
theorem size_ofList_add_repeats (texts : List String) : (ofList texts).size + repeats texts = texts.length := by
  rw [size, strings_ofList]
  induction texts using List.reverseRecOn with
  | nil => rfl
  | append_singleton texts text ih =>
    rw [repeats_concat, List.length_append, List.length_singleton]
    by_cases hmem : text ∈ texts
    · rw [eraseDups_concat_of_mem hmem, if_pos hmem]
      omega
    · rw [eraseDups_concat_of_not_mem hmem, if_neg hmem, List.length_append, List.length_singleton]
      omega

theorem get?_ofList_eq_none_iff (texts : List String) (place : Nat) :
    (ofList texts).get? ⟨place⟩ = none ↔ texts.length ≤ place + repeats texts := by
  have hsize := size_ofList_add_repeats texts
  rw [size] at hsize
  rw [get?, List.getElem?_eq_none_iff]
  dsimp only
  omega

/-! ## The first repeat -/

/-- The place holds what an earlier place holds, and the places before it hold different texts. -/
structure FirstRepeat (texts : List String) (place : Nat) : Prop where
  repeated : ∃ text ∈ texts.take place, texts[place]? = some text
  before : (texts.take place).Nodup

/-- Where it is does not hang on what comes behind. -/
theorem FirstRepeat.append (h : FirstRepeat texts first) (more : List String) : FirstRepeat (texts ++ more) first := by
  obtain ⟨text, hmem, hfirst⟩ := h.repeated
  have hlt := (List.getElem?_eq_some_iff.1 hfirst).1
  have htake : (texts ++ more).take first = texts.take first := List.take_append_of_le_length (Nat.le_of_lt hlt)
  refine ⟨⟨text, htake ▸ hmem, ?_⟩, htake ▸ h.before⟩
  rw [List.getElem?_append_left hlt, hfirst]

theorem exists_firstRepeat (h : ¬ texts.Nodup) : ∃ first, FirstRepeat texts first := by
  induction texts using List.reverseRecOn with
  | nil => exact absurd List.nodup_nil h
  | append_singleton texts text ih =>
    by_cases hnodup : texts.Nodup
    · have hmem : text ∈ texts := by
        rw [← List.concat_eq_append, List.nodup_concat] at h
        exact by_contra fun hnew => h ⟨hnew, hnodup⟩
      refine ⟨texts.length, ⟨text, ?_, List.getElem?_concat_length⟩, ?_⟩
      · rwa [List.take_left]
      · rwa [List.take_left]
    · obtain ⟨first, hfirst⟩ := ih hnodup
      exact ⟨first, hfirst.append [text]⟩

theorem take_succ_of_getElem? (h : texts[place]? = some text) : texts.take (place + 1) = texts.take place ++ [text] := by
  rw [List.take_add_one, h, Option.toList_some]

theorem FirstRepeat.not_nodup (h : FirstRepeat texts first) : ¬ (texts.take (first + 1)).Nodup := by
  obtain ⟨text, hmem, hfirst⟩ := h.repeated
  rw [take_succ_of_getElem? hfirst, ← List.concat_eq_append, List.nodup_concat]
  exact fun hnodup => hnodup.1 hmem

/-- Texts are numbered by their places as long as they do not repeat. -/
theorem get?_ofList_of_lt (h : (texts.take first).Nodup) (hlt : place < first) (htext : texts[place]? = some text) :
    (ofList texts).get? ⟨place⟩ = some text := by
  have hget : (ofList (texts.take first)).get? ⟨place⟩ = some text := by
    rw [get?, strings_ofList, eraseDups_of_nodup h, List.getElem?_take_of_lt hlt]
    exact htext
  refine get?_of_prefix ?_ hget
  rw [strings_ofList, strings_ofList]
  conv_rhs => rw [← List.take_append_drop first texts, List.eraseDups_append]
  exact List.prefix_append _ _

/-- If the texts before the first place of a text are all distinct, so they are with this one. -/
theorem nodup_take_succ_idxOf (hmem : text ∈ texts)
    (h : (texts.take (texts.idxOf text)).toFinset.card = texts.idxOf text) :
    (texts.take (texts.idxOf text + 1)).Nodup := by
  have hlength : (texts.take (texts.idxOf text)).length = texts.idxOf text :=
    List.length_take_of_le List.idxOf_le_length
  have hbefore : (texts.take (texts.idxOf text)).Nodup :=
    Multiset.coe_nodup.1 (Multiset.toFinset_card_eq_card_iff_nodup.1 (h.trans hlength.symm))
  have hnew : text ∉ texts.take (texts.idxOf text) := by
    rw [List.mem_take_iff_idxOf_lt hmem]
    exact Nat.lt_irrefl _
  rw [take_succ_of_getElem? (List.getElem?_idxOf hmem), ← List.concat_eq_append, List.nodup_concat]
  exact ⟨hnew, hbefore⟩

/-- A symbol that is not before the first repeat stands for a text that comes later. -/
theorem lt_idxOf_of_get?_ofList (h : FirstRepeat texts first) (hle : first ≤ place)
    (hget : (ofList texts).get? ⟨place⟩ = some text) : text ∈ texts ∧ place < texts.idxOf text := by
  obtain ⟨hmem, hcard⟩ := index_of_get?_ofList hget
  have hplace : place = (texts.take (texts.idxOf text)).toFinset.card := hcard
  have hlength := (List.toFinset_card_le _).trans (List.length_take_le (texts.idxOf text) texts)
  refine ⟨hmem, Nat.lt_of_not_le fun hnot => ?_⟩
  -- otherwise no text up to this one would repeat
  have hnodup := nodup_take_succ_idxOf hmem (by omega)
  exact h.not_nodup (hnodup.sublist (List.take_sublist_take_left (by omega)))

theorem getElem?_ne_of_lt_idxOf (hmem : text ∈ texts) (hlt : place < texts.idxOf text) :
    texts[place]? ≠ some text := by
  intro hplace
  have hearlier : text ∈ texts.take (place + 1) := by
    rw [take_succ_of_getElem? hplace]
    exact List.mem_append_right _ (List.mem_singleton_self text)
  rw [List.mem_take_iff_idxOf_lt hmem] at hearlier
  omega

/-! ## No repeats -/

/-- All symbols stand for the texts at their places exactly if nothing repeats. -/
theorem get?_ofList_iff_nodup (texts : List String) :
    (∀ place < texts.length, (ofList texts).get? ⟨place⟩ = texts[place]?) ↔ texts.Nodup := by
  constructor
  · intro h
    have hget : ∀ (place : Nat) text, texts[place]? = some text → (ofList texts).get? ⟨place⟩ = some text :=
      fun place text htext => (h place (List.getElem?_eq_some_iff.1 htext).1).trans htext
    refine Outcome.nodup_of_getElem?_unique fun first second text hfirst hsecond => ?_
    exact congrArg Symbol.index (symbol_unique (hget first text hfirst) (hget second text hsecond))
  · intro h place _
    rw [get?, strings_ofList, eraseDups_of_nodup h]

/-! ## Reading -/

/-- However a list is written, it is read as the pool that its texts make. -/
theorem decode_of_list {source : String} (h : Format.text.list.decode source = .ok texts) :
    StringPool.format.decode source = .ok (ofList texts) := by
  obtain ⟨left, hrun, hleft⟩ := Format.decode_eq_ok_iff.1 h
  have hlist : (Format.listAs "a sequence of `str` values" Format.text).decode source = .ok texts :=
    Format.decode_eq_ok_iff.2 ⟨left, Reader.run_whole_of_run hrun _, hleft⟩
  exact Format.decode_equiv_eq_ok _ _ hlist

/-- What becomes of the places of a list in the pool as which it is read. -/
structure Reindexes (texts : List String) (pool : StringPool) : Prop where
  strings : pool.strings = texts.eraseDups
  faithful_iff : (∀ place < texts.length, pool.get? ⟨place⟩ = texts[place]?) ↔ texts.Nodup
  exists_first : ¬ texts.Nodup → ∃ first, FirstRepeat texts first
  before : ∀ first, FirstRepeat texts first → ∀ place < first, pool.get? ⟨place⟩ = texts[place]?
  /-- Behind the first repeat, symbols stand for texts that come later in the list, if for any. -/
  behind : ∀ first, FirstRepeat texts first → ∀ place text, first ≤ place → pool.get? ⟨place⟩ = some text →
    text ∈ texts ∧ place < texts.idxOf text ∧ texts[place]? ≠ some text
  /-- As many of the last places have no text as there are repeats. -/
  get?_eq_none_iff : ∀ place, pool.get? ⟨place⟩ = none ↔ texts.length ≤ place + repeats texts

theorem reindexes_ofList (texts : List String) : Reindexes texts (ofList texts) := by
  refine ⟨strings_ofList texts, get?_ofList_iff_nodup texts, exists_firstRepeat, fun first hfirst place hlt => ?_,
    fun first hfirst place text hle hget => ?_, get?_ofList_eq_none_iff texts⟩
  · obtain ⟨_, -, hrepeat⟩ := hfirst.repeated
    have hlength := hlt.trans (List.getElem?_eq_some_iff.1 hrepeat).1
    rw [List.getElem?_eq_getElem hlength]
    exact get?_ofList_of_lt hfirst.before hlt (List.getElem?_eq_getElem hlength)
  · obtain ⟨hmem, hlt⟩ := lt_idxOf_of_get?_ofList hfirst hle hget
    exact ⟨hmem, hlt, getElem?_ne_of_lt_idxOf hmem hlt⟩

/-- A list is read as a pool in which its symbols are kept up to the first repeat; a pool that was filled text by text is
written without repeats, and numbers all texts as before once it is read. -/
theorem reindexes_decode (texts : List String) :
    (∃ pool, StringPool.format.decode (Format.text.list.encode texts) = .ok pool ∧
      (∀ source, Format.text.list.decode source = .ok texts → StringPool.format.decode source = .ok pool) ∧
      Reindexes texts pool) ∧
    let built := ((insertAll texts).run {}).2
    let written := StringPool.format.encode built
    written = Format.text.list.encode built.strings ∧ built.strings.Nodup ∧
      ∃ back, StringPool.format.decode written = .ok back ∧ back.symbols = built.symbols ∧
        (∀ symbol, back.get? symbol = built.get? symbol) ∧
        ∀ text, (back.insert text).1 = (built.insert text).1 := by
  refine ⟨⟨ofList texts, decode_of_list ?_, fun source => decode_of_list, reindexes_ofList texts⟩, rfl, nodup _, _,
    Format.decode_of_reads (reads_stringPool _), rfl, fun _ => rfl, fun _ => rfl⟩
  exact Format.decode_of_reads (Format.reads_listAs _ fun text _ => Format.reads_text text)

/-- The second text repeats, so that the symbols behind it move down. -/
theorem reindexes_decode_repeated :
    let texts := ["a", "b", "a", "c", "d"]
    ∃ pool, StringPool.format.decode (Format.text.list.encode texts) = .ok pool ∧
      pool.strings = ["a", "b", "c", "d"] ∧ pool.get? ⟨1⟩ = some "b" ∧ pool.get? ⟨2⟩ = some "c" ∧
      texts[2]? ≠ some "c" ∧ pool.get? ⟨4⟩ = none := by
  intro texts
  obtain ⟨⟨pool, hdecode, -, hreindexes⟩, -⟩ := reindexes_decode ["a", "b", "a", "c", "d"]
  have hfirst : FirstRepeat texts 2 := ⟨⟨"a", by decide, rfl⟩, by decide⟩
  have hstrings : pool.strings = ["a", "b", "c", "d"] := hreindexes.strings.trans (by decide)
  have hget : pool.get? ⟨2⟩ = some "c" := by
    rw [get?, hstrings]
    rfl
  exact ⟨pool, hdecode, hstrings, hreindexes.before 2 hfirst 1 (by decide), hget,
    (hreindexes.behind 2 hfirst 2 "c" (Nat.le_refl _) hget).2.2, (hreindexes.get?_eq_none_iff 4).2 (by decide)⟩

end FunctionTrees.StringPool
