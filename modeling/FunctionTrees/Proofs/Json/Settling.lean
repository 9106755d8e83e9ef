import FunctionTrees.Proofs.Json.Refusing

/-!
# Values that are read back or refused

* `Format.Settles format misfit good value` : a value that is good is read back, and any other is refused for `misfit`;
* `settles_listAs`, `settles_record` : a list or a record is good if all is good that it is made of;
* `Settles.readsBack_iff` : so exactly the good values are read back.
-/

set_option autoImplicit false

namespace FunctionTrees.Json

namespace Format

variable {α : Type} {format : Format α} {misfit : Misfit} {good : Prop} {value : α}

/-- A text that is nothing but the value is decoded as the value. -/
def ReadsBack (format : Format α) (value : α) : Prop := format.decode (format.encode value) = .ok value

instance [DecidableEq α] (format : Format α) (value : α) : Decidable (format.ReadsBack value) :=
  inferInstanceAs (Decidable (_ = _))

/-- A value that is good is read back, and any other is refused. -/
structure Settles (format : Format α) (misfit : Misfit) (good : Prop) (value : α) : Prop where
  reads : good → format.Reads value
  refuses : ¬ good → format.reader.Refuses (format.write value) misfit

theorem Reads.settles (h : format.Reads value) (misfit : Misfit) : format.Settles misfit True value :=
  ⟨fun _ => h, fun hnone => absurd trivial hnone⟩

theorem Settles.congr {good' : Prop} (h : format.Settles misfit good value) (hgood : good ↔ good') :
    format.Settles misfit good' value :=
  ⟨fun hyes => h.reads (hgood.2 hyes), fun hno => h.refuses (mt hgood.1 hno)⟩

/-- Exactly a good value is read back. -/
theorem Settles.readsBack_iff (h : format.Settles misfit good value) : format.ReadsBack value ↔ good := by
  constructor
  · intro hback
    by_contra hno
    obtain ⟨spot, hdecode⟩ := decode_of_refuses (h.refuses hno)
    rw [ReadsBack, encode, hdecode] at hback
    cases hback
  · exact fun hyes => decode_of_reads (h.reads hyes)

/-! ## Lists -/

/-- Elements are all good, or there is a first one that is not. -/
theorem exists_first_refused {values : List α} {good : α → Prop}
    (h : ∀ value ∈ values, format.Settles misfit (good value) value) (hno : ¬ ∀ value ∈ values, good value) :
    ∃ before value after, values = before ++ value :: after ∧ (∀ value ∈ before, format.Reads value) ∧
      format.reader.Refuses (format.write value) misfit := by
  induction values with
  | nil => exact absurd (fun _ hmem => by cases hmem) hno
  | cons value values ih =>
    rw [List.forall_mem_cons] at h hno
    by_cases hyes : good value
    · obtain ⟨before, first, after, rfl, hbefore, hrefuses⟩ := ih h.2 fun hrest => hno ⟨hyes, hrest⟩
      exact ⟨value :: before, first, after, rfl, List.forall_mem_cons.2 ⟨h.1.reads hyes, hbefore⟩, hrefuses⟩
    · exact ⟨[], value, values, rfl, List.forall_mem_nil _, h.1.refuses hyes⟩

theorem settles_listAs (expected : String) {values : List α} {good : α → Prop}
    (h : ∀ value ∈ values, format.Settles misfit (good value) value) :
    (listAs expected format).Settles misfit (∀ value ∈ values, good value) values := by
  refine ⟨fun hyes => reads_listAs expected fun value hmem => (h value hmem).reads (hyes value hmem), fun hno => ?_⟩
  obtain ⟨before, value, after, rfl, hbefore, hrefuses⟩ := exists_first_refused h hno
  have hreads : List.Forall₂ format.reader.Reads (before.map format.write) before := by
    rw [List.forall₂_map_left_iff, List.forall₂_same]
    exact hbefore
  have hlist := refuses_listAs expected hreads hrefuses (after.map format.write)
  rw [← List.map_cons, ← List.map_append] at hlist
  exact hlist

end Format

/-! ## Records -/

namespace Layout

variable {misfit : Misfit}

/-- The fields of a row, each of them read back or refused; the row is good if they all are. -/
inductive SettlesFrom (misfit : Misfit) : {ρ δ : Type} → Layout ρ δ → Prop → ρ → Prop
  | done : SettlesFrom misfit done True ()
  | field {α ρ δ : Type} {name : String} {format : Format α} {absence : Absence α} {rest : Layout ρ δ}
    {good goods : Prop} {value : α} {values : ρ} (hvalue : format.Settles misfit good value)
    (hrest : SettlesFrom misfit rest goods values) :
    SettlesFrom misfit (field name format absence rest) (good ∧ goods) (value, values)

variable {ρ δ : Type} {layout : Layout ρ δ} {good : Prop} {row : ρ}

theorem SettlesFrom.readsFrom (h : layout.SettlesFrom misfit good row) (hgood : good) :
    layout.ReadsFrom (layout.fields row) row := by
  induction h with
  | done => exact .done
  | field hvalue _ ih => exact .field (hvalue.reads hgood.1) (ih hgood.2)

/-- If the row is not good, there is a first field that is refused. -/
theorem SettlesFrom.exists_first_refused (h : layout.SettlesFrom misfit good row) (hno : ¬ good) :
    ∃ before entry after, layout.fields row = before ++ entry :: after ∧
      (∀ other ∈ before, layout.ReadsEntry row other) ∧ layout.RefusesEntry row misfit entry := by
  induction h with
  | done => exact absurd trivial hno
  | @field α ρ δ name format absence rest good goods value values hvalue hrest ih =>
    by_cases hyes : good
    · obtain ⟨before, entry, after, hfields, hbefore, hrefuses⟩ := ih fun hgoods => hno ⟨hyes, hgoods⟩
      refine ⟨(name, format.write value) :: before, entry, after, ?_, ?_, hrefuses.there⟩
      · rw [fields, hfields]
        rfl
      · exact List.forall_mem_cons.2 ⟨⟨α, format, value, .here, hvalue.reads hyes⟩,
          fun other hmem => (hbefore other hmem).there⟩
    · exact ⟨[], (name, format.write value), rest.fields values, rfl, List.forall_mem_nil _, α, format, value, .here,
        hvalue.refuses hyes⟩

theorem map_fst_fields (layout : Layout ρ δ) (row : ρ) : (layout.fields row).map Prod.fst = layout.names := by
  induction layout with
  | done => rfl
  | field name format absence rest ih =>
    obtain ⟨value, values⟩ := row
    rw [fields, List.map_cons, ih, names]

end Layout

namespace Format

theorem settles_record {α ρ δ : Type} {layout : Layout ρ δ} {misfit : Misfit} {good : Prop} {name : String}
    {toRow : α → ρ} {ofRow : ρ → α} {value : α} (hnames : layout.names.Nodup)
    (h : layout.SettlesFrom misfit good (toRow value)) (hback : ofRow (toRow value) = value) :
    (record name layout toRow ofRow).Settles misfit good value := by
  refine ⟨fun hyes => reads_record hnames (h.readsFrom hyes) hback, fun hno => ?_⟩
  obtain ⟨before, entry, after, hfields, hbefore, hrefuses⟩ := h.exists_first_refused hno
  have hmap := layout.map_fst_fields (toRow value)
  rw [hfields, List.map_append, List.map_cons] at hmap
  rw [← hmap] at hnames
  obtain ⟨hbefore', -, hdisjoint⟩ := List.nodup_append.1 hnames
  rw [write_record, hfields]
  refine refuses_field (hmap ▸ hnames) (fun other hmem => (hbefore other hmem).fitting) (Layout.apart_of_nodup hbefore')
    hrefuses ?_ after
  exact fun hmem => hdisjoint _ hmem _ List.mem_cons_self rfl

end Format

end FunctionTrees.Json
