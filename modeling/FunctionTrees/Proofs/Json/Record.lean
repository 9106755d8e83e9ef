import FunctionTrees.Proofs.Json.Entries

/-!
# Records and choices are read back

* `Layout.ReadsFrom layout fields row` : each field has a text that is read as its value;
* `reads_entries` : a record is read from an object of its fields in any order, with others among them;
* `reads_object`, `reads_record` : so it is read from its fields in their order, and read back from its own;
* `ReadsFrom.run_ofItems`, `takes_tuple` : and so are the fields from a list;
* `reads_bareCase`, `reads_contentCase` : so are the cases of a choice.
-/

set_option autoImplicit false

namespace FunctionTrees.Json

namespace Layout

/-! ## Fields -/

/-- The fields, in order and by their names, each with a text that is read as its value. -/
inductive ReadsFrom : {ρ δ : Type} → Layout ρ δ → List (String × List Char) → ρ → Prop
  | done : ReadsFrom done [] ()
  | field {α ρ δ : Type} {name : String} {format : Format α} {absence : Absence α} {rest : Layout ρ δ}
    {text : List Char} {value : α} {fields : List (String × List Char)} {values : ρ}
    (hvalue : format.reader.Reads text value) (hrest : ReadsFrom rest fields values) :
    ReadsFrom (field name format absence rest) ((name, text) :: fields) (value, values)

section Fields

variable {ρ δ : Type} {layout : Layout ρ δ} {fields : List (String × List Char)} {row : ρ}

theorem ReadsFrom.map_fst (h : layout.ReadsFrom fields row) : fields.map Prod.fst = layout.names := by
  induction h with
  | done => rfl
  | field _ _ ih => rw [List.map_cons, ih, names]

theorem ReadsFrom.readsEntry (h : layout.ReadsFrom fields row) : ∀ entry ∈ fields, layout.ReadsEntry row entry := by
  induction h with
  | done => exact List.forall_mem_nil _
  | field hvalue _ ih =>
    exact List.forall_mem_cons.2 ⟨⟨_, _, _, .here, hvalue⟩, fun entry hmem => (ih entry hmem).there⟩

theorem apart_of_nodup (h : (fields.map Prod.fst).Nodup) : layout.Apart fields := by
  have hpairs : fields.Pairwise fun entry later => entry.1 ≠ later.1 := List.pairwise_map.1 h
  apply hpairs.imp
  intro entry later hne _
  exact hne

theorem supplied_of_names {seen : List String} (row : ρ) (h : ∀ name ∈ layout.names, name ∈ seen) :
    layout.Supplied row seen := by
  induction layout with
  | done => trivial
  | field name format absence rest ih =>
    obtain ⟨value, values⟩ := row
    rw [names, List.forall_mem_cons] at h
    exact ⟨.inl h.1, ih values h.2⟩

end Fields

/-! ## Lists of fields -/

section Lists

variable {ρ δ : Type} {layout : Layout ρ δ} {fields : List (String × List Char)} {row : ρ}

/-- The fields of a record behind the first element of a list. -/
theorem ReadsFrom.run_ofItems_trailed (h : layout.ReadsFrom fields row) (expected : String) {index : Nat}
    (hindex : index ≠ 0) (rest : List Char) :
    (layout.ofItems expected index).run (Reader.trailed (fields.map Prod.snd) ++ ']' :: rest) =
      .done row (']' :: rest) := by
  induction h generalizing index with
  | done => rfl
  | @field α ρ δ name format absence more text value fields values hvalue _ ih =>
    have hbounded := Reader.bounded_trailed (fields.map Prod.snd) (c := ']') (by decide) rest
    unfold ofItems
    rw [if_neg hindex, List.map_cons, Reader.trailed_cons, List.append_assoc,
      Reader.run_bind_done (Reader.run_nextItem_true hvalue.starts _), if_pos rfl,
      Reader.run_bind_done (hvalue.takes _ hbounded), Reader.run_bind_done (ih (Nat.succ_ne_zero index))]
    rfl

theorem ReadsFrom.run_ofItems (h : layout.ReadsFrom fields row) (expected : String) (rest : List Char) :
    (layout.ofItems expected 0).run (Format.commas (fields.map Prod.snd) ++ ']' :: rest) = .done row (']' :: rest) := by
  cases h with
  | done => rfl
  | @field α ρ δ name format absence more text value fields values hvalue hmore =>
    have hbounded := Reader.bounded_trailed (fields.map Prod.snd) (c := ']') (by decide) rest
    unfold ofItems
    rw [if_pos rfl, List.map_cons, Reader.commas_cons, List.append_assoc,
      Reader.run_bind_done (Reader.run_firstItem_true hvalue.starts _), if_pos rfl,
      Reader.run_bind_done (hvalue.takes _ hbounded),
      Reader.run_bind_done (hmore.run_ofItems_trailed expected (Nat.succ_ne_zero 0) rest)]
    rfl

end Lists

end Layout

/-! ## Records -/

namespace Format

variable {α ρ δ : Type} {layout : Layout ρ δ} {fields : List (String × List Char)} {row : ρ}

/-- A record is read from an object of entries in any order, if its other fields have their values by default. -/
theorem reads_entries {name : String} {toRow : α → ρ} {ofRow : ρ → α} (hnames : layout.names.Nodup)
    (hfit : ∀ entry ∈ fields, layout.Fitting row entry) (hapart : layout.Apart fields)
    (hsupplied : layout.Supplied row (fields.map Prod.fst)) :
    (record name layout toRow ofRow).reader.Reads
      ('\x7b' :: commas (fields.map Layout.entryText) ++ ['\x7d']) (ofRow row) := by
  have hstarts : StartsValue '\x7b' := .inl (by decide)
  refine ⟨⟨_, _, rfl, hstarts⟩, Reader.Takes.map (Reader.takes_whole hstarts rfl ?_) ofRow⟩
  have henters := Layout.enters_entries hnames hfit hapart [] fun _ _ _ => List.not_mem_nil
  rw [List.append_nil, ← Layout.blank_eq] at henters
  refine Reader.takes_object henters fun rest => ?_
  rw [Layout.draftOf_congr fun _ _ => List.mem_reverse, Layout.complete_of_supplied hsupplied]
  rfl

/-- A record is read from an object of its fields, each with a text that is read as its value. -/
theorem reads_object {name : String} {toRow : α → ρ} {ofRow : ρ → α} {value : α} (hnames : layout.names.Nodup)
    (h : layout.ReadsFrom fields row) (hback : ofRow row = value) :
    (record name layout toRow ofRow).reader.Reads
      ('\x7b' :: commas (fields.map Layout.entryText) ++ ['\x7d']) value := by
  subst hback
  have hnames' := h.map_fst
  have hfit : ∀ entry ∈ fields, layout.Fitting row entry := fun entry hmem => (h.readsEntry entry hmem).fitting
  refine reads_entries hnames hfit (Layout.apart_of_nodup (hnames' ▸ hnames)) ?_
  exact Layout.supplied_of_names row fun name hmem => hnames' ▸ hmem

theorem write_record (name : String) (layout : Layout ρ δ) (toRow : α → ρ) (ofRow : ρ → α) (value : α) :
    (record name layout toRow ofRow).write value =
      '\x7b' :: commas ((layout.fields (toRow value)).map Layout.entryText) ++ ['\x7d'] := rfl

theorem head_write_record (name : String) (layout : Layout ρ δ) (toRow : α → ρ) (ofRow : ρ → α) (value : α) :
    ((record name layout toRow ofRow).write value).head? ≠ some 'n' := by
  rw [write_record]
  simp

/-- A record is read back from the object of its fields. -/
theorem reads_record {name : String} {toRow : α → ρ} {ofRow : ρ → α} {value : α} (hnames : layout.names.Nodup)
    (h : layout.ReadsFrom (layout.fields (toRow value)) (toRow value)) (hback : ofRow (toRow value) = value) :
    (record name layout toRow ofRow).Reads value := by
  rw [Reads, write_record]
  exact reads_object hnames h hback

/-- Several values are read from the list of them. -/
theorem takes_tuple (h : layout.ReadsFrom fields row) (expected : String) :
    (tuple expected layout).Takes ('[' :: commas (fields.map Prod.snd) ++ [']']) row := by
  have hstarts : StartsValue '[' := .inl (by decide)
  have hitems := h.run_ofItems (lengthText expected layout.size)
  exact Reader.takes_whole hstarts (if_pos rfl) (Reader.takes_enclosed hitems Reader.run_closeList)

end Format

/-! ## Choices -/

namespace Case

variable {α : Type} {cases : List (String × Case α)} {name : String} {found : Case α}

theorem run_named (h : cases.lookup name = some found) (rest : List Char) :
    (named cases).run (writeText name ++ rest) = .done found rest := by
  apply Reader.run_placed
  rw [Reader.run_quoted]
  simp only [h]
  rfl

/-- A case without content is read back from its name. -/
theorem reads_bareCase {value : α} (h : cases.lookup name = some (.bare value)) :
    (reader cases).Reads (writeBare name) value := by
  have hstarts : StartsValue '"' := .inl (by decide)
  refine ⟨⟨_, _, rfl, hstarts⟩, fun rest _ => ?_⟩
  have hnamed := run_named h rest
  rw [Reader.writeText_append] at hnamed
  rw [reader, writeBare, Reader.writeText_append, Reader.run_bind_next hstarts.not_blank]
  exact Reader.run_bind_done hnamed _

/-- Behind its name and the colon, a case is read as its content. -/
theorem run_writeContent (h : cases.lookup name = some found) (content rest : List Char) :
    (reader cases).run (writeContent name content ++ rest) =
      (do
        let value ← found.withContent
        match ← Reader.next with
        | none => Reader.ended .object
        | some d =>
          if d = '\x7d' then do
            Reader.pass
            return value
          else Reader.malformedBefore .noValue : Reader α).run (content ++ '\x7d' :: rest) := by
  have hstarts : StartsValue '\x7b' := .inl (by decide)
  have hnamed := run_named h (':' :: (content ++ '\x7d' :: rest))
  have htext : writeContent name content ++ rest =
      '\x7b' :: (writeText name ++ ':' :: (content ++ '\x7d' :: rest)) := by simp [writeContent]
  have hkey : (ofKey cases).run (writeText name ++ ':' :: (content ++ '\x7d' :: rest)) =
      .done found (':' :: (content ++ '\x7d' :: rest)) := by
    rw [Reader.writeText_append] at hnamed ⊢
    exact hnamed
  rw [htext, reader, Reader.run_bind_next hstarts.not_blank]
  show (Reader.pass >>= _).run _ = _
  rw [Reader.run_bind_pass, List.tail_cons, Reader.run_bind_done hkey]
  exact Reader.run_bind_done (Reader.run_colon _) _

/-- A case is read back from its name and its content. -/
theorem reads_contentCase {content : List Char} {value : α} (h : cases.lookup name = some found)
    (hcontent : found.withContent.Takes content value) : (reader cases).Reads (writeContent name content) value := by
  have hstarts : StartsValue '\x7b' := .inl (by decide)
  refine ⟨⟨_, _, rfl, hstarts⟩, fun rest _ => ?_⟩
  have hvalue := hcontent ('\x7d' :: rest) (bounded_cons (by decide) rest)
  rw [run_writeContent h, Reader.run_bind_done hvalue]
  rfl

end Case

end FunctionTrees.Json
