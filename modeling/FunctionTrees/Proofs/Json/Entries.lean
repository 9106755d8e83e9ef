import FunctionTrees.Json.Record
import FunctionTrees.Proofs.Json.Format

/-!
# The entries of a record

* `Layout.Field layout row name format value` : the field of that name has this format, and this value in the row;
* `Layout.ReadsEntry layout row entry` : the entry is that of a field, with a text that is read as its value;
* `Layout.draftOf layout row seen` : what has been read of a row when the fields of these names have been;
* `run_assign` : the next field adds its value to that; `Layout.Fitting layout row entry`, `takes_entry` : so an entry
  leads from one draft to the next, be it that of a field or of none;
* `enters_entries` : so do entries in any order, in which no field comes twice;
* `Layout.Supplied layout row seen`, `complete_of_supplied` : fields that have not been seen have their values by default;
* `Layout.Lacks layout row name seen`, `complete_of_lacks` : or the first of them has none.
-/

set_option autoImplicit false

namespace FunctionTrees.Json

def Absence.default? {α : Type} : Absence α → Option α
  | refused => none
  | optional value => some value
  | defaulted value => some value

namespace Layout

variable {ρ δ : Type} {layout : Layout ρ δ} {row : ρ} {name : String} {seen : List String}

/-! ## Fields -/

def names : {ρ δ : Type} → Layout ρ δ → List String
  | _, _, done => []
  | _, _, field name _ _ rest => name :: rest.names

/-- The field of that name has this format, and this value in the row. -/
inductive Field : {ρ δ : Type} → Layout ρ δ → ρ → String → {α : Type} → Format α → α → Prop
  | here {α ρ δ : Type} {name : String} {format : Format α} {absence : Absence α} {rest : Layout ρ δ} {value : α}
    {values : ρ} : Field (field name format absence rest) (value, values) name format value
  | there {α β ρ δ : Type} {name other : String} {format : Format α} {format' : Format β} {absence : Absence β}
    {rest : Layout ρ δ} {value : α} {value' : β} {values : ρ} (h : Field rest values name format value) :
    Field (field other format' absence rest) (value', values) name format value

theorem Field.name_mem {α : Type} {format : Format α} {value : α} (h : layout.Field row name format value) :
    name ∈ layout.names := by
  induction h with
  | here => exact List.mem_cons_self
  | there _ ih => exact List.mem_cons_of_mem _ ih

/-! ## Drafts -/

/-- What has been read of a row when the fields of the given names have been. -/
def draftOf : {ρ δ : Type} → Layout ρ δ → ρ → List String → δ
  | _, _, done, (), _ => ()
  | _, _, field name _ _ rest, (value, values), seen => (if name ∈ seen then some value else none, rest.draftOf values seen)

theorem blank_eq (layout : Layout ρ δ) (row : ρ) : layout.blank = layout.draftOf row [] := by
  induction layout with
  | done => rfl
  | field name format absence rest ih =>
    obtain ⟨value, values⟩ := row
    rw [blank, draftOf, ih values, if_neg List.not_mem_nil]

/-- Only names of fields matter. -/
theorem draftOf_congr {seen' : List String} (h : ∀ name ∈ layout.names, name ∈ seen ↔ name ∈ seen') :
    layout.draftOf row seen = layout.draftOf row seen' := by
  induction layout with
  | done => rfl
  | field name format absence rest ih =>
    obtain ⟨value, values⟩ := row
    rw [names, List.forall_mem_cons] at h
    rw [draftOf, draftOf, ih h.2, if_congr h.1 rfl rfl]

theorem draftOf_cons_of_not_mem (h : name ∉ layout.names) : layout.draftOf row (name :: seen) = layout.draftOf row seen :=
  draftOf_congr fun other hother => by
    rw [List.mem_cons, or_iff_right]
    rintro rfl
    exact h hother

/-! ## Single entries -/

theorem assign?_eq_none (h : name ∉ layout.names) (draft : δ) : layout.assign? name draft = none := by
  induction layout with
  | done => rfl
  | field other format absence rest ih =>
    obtain ⟨value, values⟩ := draft
    rw [names, List.mem_cons, not_or] at h
    simp only [assign?, if_neg h.1, ih h.2, Option.map_none]

/-- A field that has not been seen is read by its format, and its value is added to the draft. -/
theorem run_assign {α : Type} {format : Format α} {value : α} (hnames : layout.names.Nodup)
    (h : layout.Field row name format value) (hseen : name ∉ seen) :
    ∃ reader, ∃ put : α → δ, layout.assign? name (layout.draftOf row seen) = some reader ∧
      put value = layout.draftOf row (name :: seen) ∧
      ∀ chars, reader.run (':' :: chars) = (put <$> format.reader).run chars := by
  induction h with
  | @here α ρ δ name format absence rest value values =>
    rw [names, List.nodup_cons] at hnames
    let values' := rest.draftOf values seen
    refine ⟨do Reader.colon; return (some (← format.reader), values'), fun value => (some value, values'), ?_, ?_,
      fun chars => ?_⟩
    · simp only [draftOf, assign?, if_true, if_neg hseen, values']
    · simp only [draftOf, if_pos List.mem_cons_self, draftOf_cons_of_not_mem hnames.1, values']
    · exact Reader.run_bind_done (Reader.run_colon chars) _
  | @there α β ρ δ name other format format' absence rest value value' values hfield ih =>
    rw [names, List.nodup_cons] at hnames
    obtain ⟨reader, put, hassign, hput, hrun⟩ := ih hnames.2 hseen
    have hname : name ≠ other := fun heq => hnames.1 (heq ▸ hfield.name_mem)
    have hother : other ∈ name :: seen ↔ other ∈ seen := by rw [List.mem_cons, or_iff_right (Ne.symm hname)]
    let first := if other ∈ seen then some value' else none
    refine ⟨do return (first, ← reader), fun value => (first, put value), ?_, ?_, fun chars => ?_⟩
    · simp only [draftOf, assign?, if_neg hname, hassign, Option.map_some, first]
    · simp only [draftOf, hput, hother, first]
    · show ((fun found => (first, found)) <$> reader).run _ = _
      rw [Reader.run_map, hrun, Reader.run_map, Reader.run_map]
      cases format.reader.run chars <;> rfl

/-- The entry is that of a field, with a text that is read as the value of the field, or of no field at all. -/
inductive Fitting (layout : Layout ρ δ) (row : ρ) : String × List Char → Prop
  | field {α : Type} {name : String} {format : Format α} {value : α} {text : List Char}
    (hfield : layout.Field row name format value) (hreads : format.reader.Reads text value) : Fitting layout row (name, text)
  | other {name : String} {text : List Char} (hname : name ∉ layout.names) (htext : Reader.skipValue.Takes text ()) :
    Fitting layout row (name, text)

/-- The entry is that of a field, with a text that is read as its value. -/
def ReadsEntry (layout : Layout ρ δ) (row : ρ) (entry : String × List Char) : Prop :=
  ∃ α, ∃ format : Format α, ∃ value, layout.Field row entry.1 format value ∧ format.reader.Reads entry.2 value

theorem ReadsEntry.fitting {entry : String × List Char} (h : layout.ReadsEntry row entry) : layout.Fitting row entry := by
  obtain ⟨α, format, value, hfield, hreads⟩ := h
  exact .field hfield hreads

theorem ReadsEntry.there {α : Type} {format : Format α} {absence : Absence α} {value : α} {entry : String × List Char}
    (h : layout.ReadsEntry row entry) : (field name format absence layout).ReadsEntry (value, row) entry := by
  obtain ⟨β, other, found, hfield, hreads⟩ := h
  exact ⟨β, other, found, .there hfield, hreads⟩

theorem run_entry (draft : δ) (name : String) (text rest : List Char) :
    (layout.entry draft).run (entryText (name, text) ++ rest) =
      (match layout.assign? name draft with
        | some reader => reader
        | none => do
          Reader.colon
          Reader.skipValue
          return draft : Reader δ).run (':' :: (text ++ rest)) := by
  have htext : entryText (name, text) ++ rest = writeText name ++ ':' :: (text ++ rest) := by simp [entryText]
  rw [htext, entry]
  exact Reader.run_quoted name _ _

/-- An entry leads from one draft to the next; one of a field must not come twice. -/
theorem Fitting.takes_entry {entry : String × List Char} (h : layout.Fitting row entry) (hnames : layout.names.Nodup)
    (hseen : entry.1 ∈ layout.names → entry.1 ∉ seen) :
    (layout.entry (layout.draftOf row seen)).Takes (entryText entry) (layout.draftOf row (entry.1 :: seen)) := by
  intro rest hrest
  cases h with
  | field hfield hreads =>
    obtain ⟨reader, put, hassign, hput, hrun⟩ := run_assign hnames hfield (hseen hfield.name_mem)
    rw [run_entry, hassign, ← hput]
    exact (hrun _).trans (Reader.run_map_done (hreads.takes rest hrest) put)
  | other hname htext =>
    rw [run_entry, assign?_eq_none hname, draftOf_cons_of_not_mem hname]
    show (Reader.colon >>= _).run _ = _
    rw [Reader.run_bind_done (Reader.run_colon _), Reader.run_bind_done (htext rest hrest)]
    rfl

/-! ## All entries -/

/-- No field comes twice. -/
def Apart (layout : Layout ρ δ) (entries : List (String × List Char)) : Prop :=
  entries.Pairwise fun entry later => entry.1 ∈ layout.names → entry.1 ≠ later.1

theorem enters_entries {entries : List (String × List Char)} (hnames : layout.names.Nodup)
    (hfit : ∀ entry ∈ entries, layout.Fitting row entry) (hapart : layout.Apart entries) (seen : List String)
    (hseen : ∀ entry ∈ entries, entry.1 ∈ layout.names → entry.1 ∉ seen) :
    Reader.Enters layout.entry (layout.draftOf row seen) (entries.map entryText)
      (layout.draftOf row ((entries.map Prod.fst).reverse ++ seen)) := by
  induction entries generalizing seen with
  | nil => exact .nil _
  | cons entry entries ih =>
    rw [List.forall_mem_cons] at hfit hseen
    obtain ⟨hhead, htail⟩ := List.pairwise_cons.1 hapart
    have hmore := ih hfit.2 htail (entry.1 :: seen) fun later hlater hname hmem => ?_
    · have hentry := hfit.1.takes_entry hnames hseen.1
      rw [List.map_cons, List.map_cons, List.reverse_cons, List.append_assoc]
      exact .cons hentry hmore
    · rcases List.mem_cons.1 hmem with heq | hmem
      · exact hhead later hlater (heq ▸ hname) heq.symm
      · exact hseen.2 later hlater hname hmem

/-! ## Fields that are left out -/

/-- The fields that have not been seen have their values by default. -/
def Supplied : {ρ δ : Type} → Layout ρ δ → ρ → List String → Prop
  | _, _, done, (), _ => True
  | _, _, field name _ absence rest, (value, values), seen =>
    (name ∈ seen ∨ absence.default? = some value) ∧ rest.Supplied values seen

/-- The first field without a value is one that has none by default. -/
def Lacks (lacking : String) : {ρ δ : Type} → Layout ρ δ → ρ → List String → Prop
  | _, _, done, (), _ => False
  | _, _, field name _ absence rest, (value, values), seen =>
    name = lacking ∧ name ∉ seen ∧ absence.default? = none ∨
      (name ∈ seen ∨ absence.default? = some value) ∧ rest.Lacks lacking values seen

theorem complete_cons {α : Type} {format : Format α} {absence : Absence α} {rest : Layout ρ δ} {value : α} {values : ρ}
    (h : name ∈ seen ∨ absence.default? = some value) :
    (field name format absence rest).complete ((field name format absence rest).draftOf (value, values) seen) =
      (rest.complete (rest.draftOf values seen)).map fun row => (value, row) := by
  simp only [draftOf]
  split_ifs with hseen
  · rfl
  · have hdefault := h.resolve_left hseen
    cases absence with
    | refused => cases hdefault
    | optional other =>
      cases hdefault
      rfl
    | defaulted other =>
      cases hdefault
      rfl

theorem complete_of_supplied (h : layout.Supplied row seen) : layout.complete (layout.draftOf row seen) = .ok row := by
  induction layout with
  | done => rfl
  | field name format absence rest ih =>
    obtain ⟨value, values⟩ := row
    rw [complete_cons h.1, ih h.2]
    rfl

theorem complete_of_lacks {lacking : String} (h : layout.Lacks lacking row seen) :
    layout.complete (layout.draftOf row seen) = .error lacking := by
  induction layout with
  | done => exact h.elim
  | field name format absence rest ih =>
    obtain ⟨value, values⟩ := row
    rcases h with ⟨rfl, hseen, hnone⟩ | ⟨hhead, hrest⟩
    · simp only [draftOf, if_neg hseen]
      cases absence with
      | refused => rfl
      | optional other => cases hnone
      | defaulted other => cases hnone
    · rw [complete_cons hhead, ih hrest]
      rfl

end Layout

end FunctionTrees.Json
