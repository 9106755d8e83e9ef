import FunctionTrees.Proofs.Json.Grammar
import FunctionTrees.Proofs.Json.Refusing

/-!
# Values that are spelled in other ways

* `Spelling` : the texts of a value, and those in which one object lacks a field; `exactly`, `optional`, `list`, `object` :
  a list is spelled element by element, an object entry by entry in any order, with others among them;
* `Spelling.Meets spelling format value` : what the format writes for the value is one of the texts; it reads all of them
  as the value, and refuses those that lack a field;
* `meets_exactly`, `meets_optional`, `meets_list`, `meets_object` : so it is with each of them if it is with its parts.
-/

set_option autoImplicit false

namespace FunctionTrees.Json

/-! ## Texts of a value -/

/-- The texts of a value (`none`), and the texts that are as they should be but for one object that lacks the field of the
given name. -/
def Spelling : Type := Option String → List Char → Prop

namespace Spelling

def exactly (text : List Char) : Spelling := fun lacking other => lacking = none ∧ other = text

def optional {α : Type} (spell : α → Spelling) : Option α → Spelling
  | none => exactly ['n', 'u', 'l', 'l']
  | some value => spell value

/-- The texts of several values, in at most one of which an object lacks a field. -/
inductive Elements : List Spelling → Option String → List (List Char) → Prop
  | nil : Elements [] none []
  | whole {spelling : Spelling} {spellings : List Spelling} {lacking : Option String} {text : List Char}
    {texts : List (List Char)} (h : spelling none text) (hmore : Elements spellings lacking texts) :
    Elements (spelling :: spellings) lacking (text :: texts)
  | lacking {spelling : Spelling} {spellings : List Spelling} {name : String} {text : List Char}
    {texts : List (List Char)} (h : spelling (some name) text) (hmore : Elements spellings none texts) :
    Elements (spelling :: spellings) (some name) (text :: texts)

def list (spellings : List Spelling) : Spelling := fun lacking text =>
  ∃ texts, Elements spellings lacking texts ∧ text = '[' :: (Format.commas texts ++ [']'])

inductive Need where
  /-- The object then lacks it. -/
  | required
  /-- Its value is the one that it then has. -/
  | omissible
  /-- Its value is another one. -/
  | written

/-- A field of an object, with the texts of its value. -/
structure Slot where
  name : String
  spelling : Spelling
  need : Need

def Slot.required (name : String) (spelling : Spelling) : Slot := ⟨name, spelling, .required⟩

/-- A field that can be left out if its value is the default. -/
def Slot.defaulted (name : String) (isDefault : Bool) (spelling : Spelling) : Slot :=
  ⟨name, spelling, if isDefault then .omissible else .written⟩

/-- The entries of an object, one for each of the fields that are not left out. At most one required field is left out, in
the object or in one of its values. -/
inductive Filled : List Slot → Option String → List (String × List Char) → Prop
  | nil : Filled [] none []
  | whole {slot : Slot} {slots : List Slot} {lacking : Option String} {text : List Char}
    {entries : List (String × List Char)} (h : slot.spelling none text) (hmore : Filled slots lacking entries) :
    Filled (slot :: slots) lacking ((slot.name, text) :: entries)
  | lacking {slot : Slot} {slots : List Slot} {name : String} {text : List Char} {entries : List (String × List Char)}
    (h : slot.spelling (some name) text) (hmore : Filled slots none entries) :
    Filled (slot :: slots) (some name) ((slot.name, text) :: entries)
  | omitted {slot : Slot} {slots : List Slot} {lacking : Option String} {entries : List (String × List Char)}
    (h : slot.need = .omissible) (hmore : Filled slots lacking entries) : Filled (slot :: slots) lacking entries
  | missing {slot : Slot} {slots : List Slot} {entries : List (String × List Char)}
    (h : slot.need = .required) (hmore : Filled slots none entries) : Filled (slot :: slots) (some slot.name) entries

/-- Entries of other names, with values of any shape. -/
def Noise (slots : List Slot) (entries : List (String × List Char)) : Prop :=
  ∀ entry ∈ entries, entry.1 ∉ slots.map Slot.name ∧ WellFormed entry.2

/-- An object with the given fields, in any order, and with others among them. -/
def object (slots : List Slot) : Spelling := fun lacking text =>
  ∃ known noise entries : List (String × List Char), Filled slots lacking known ∧ Noise slots noise ∧
    entries.Perm (known ++ noise) ∧ text = '\x7b' :: (Format.commas (entries.map Layout.entryText) ++ ['\x7d'])

/-- A list of one value lacks what the value lacks. -/
theorem list_single {spelling : Spelling} {lacking : Option String} {text : List Char} (h : spelling lacking text) :
    list [spelling] lacking ('[' :: (text ++ [']'])) := by
  refine ⟨[text], ?_, by rw [Reader.commas_cons, Reader.trailed, List.flatMap_nil, List.append_nil]⟩
  cases lacking with
  | none => exact .whole h .nil
  | some name => exact .lacking h .nil

theorem Filled.single {slot : Slot} {lacking : Option String} {text : List Char} (h : slot.spelling lacking text) :
    Filled [slot] lacking [(slot.name, text)] := by
  cases lacking with
  | none => exact .whole h .nil
  | some name => exact .lacking h .nil

/-! ## Reading them -/

/-- What the format writes for the value is one of the texts. It reads all of them as the value, and refuses those in which
an object lacks a field. -/
structure Meets {α : Type} (spelling : Spelling) (format : Format α) (value : α) : Prop where
  writes : spelling none (format.write value)
  reads : ∀ text, spelling none text → format.reader.Reads text value
  refuses : ∀ name text, spelling (some name) text → format.reader.Refuses text (.missingField name)

section Parts

variable {α : Type} {format : Format α}

theorem meets_exactly {value : α} (h : format.Reads value) : (exactly (format.write value)).Meets format value := by
  refine ⟨⟨rfl, rfl⟩, ?_, ?_⟩
  · rintro text ⟨-, rfl⟩
    exact h
  · rintro name text ⟨hlacking, -⟩
    cases hlacking

theorem meets_optional {spell : α → Spelling} {value : Option α} (h : ∀ found ∈ value, (spell found).Meets format found)
    (hnull : ∀ found lacking text, spell found lacking text → text.head? ≠ some 'n') :
    (optional spell value).Meets format.optional value := by
  cases value with
  | none => exact meets_exactly (Format.reads_none format)
  | some found =>
    have hfound := h found rfl
    refine ⟨hfound.writes, fun text htext => ?_, fun name text htext => ?_⟩
    · exact Format.reads_optional (hfound.reads text htext) (hnull found none text htext)
    · exact Format.Refuses.optional (hfound.refuses name text htext) (hnull found (some name) text htext)

variable {spell : α → Spelling} {values : List α} {texts : List (List Char)}

theorem elements_write (h : ∀ value ∈ values, (spell value).Meets format value) :
    Elements (values.map spell) none (values.map format.write) := by
  induction values with
  | nil => exact .nil
  | cons value values ih =>
    rw [List.forall_mem_cons] at h
    exact .whole h.1.writes (ih h.2)

theorem reads_of_elements (h : ∀ value ∈ values, (spell value).Meets format value)
    (htexts : Elements (values.map spell) none texts) : List.Forall₂ format.reader.Reads texts values := by
  induction values generalizing texts with
  | nil =>
    cases htexts
    exact .nil
  | cons value values ih =>
    rw [List.forall_mem_cons] at h
    cases htexts with
    | whole htext hmore => exact .cons (h.1.reads _ htext) (ih h.2 hmore)

/-- If an element lacks a field, the elements before it are read. -/
theorem refuses_of_elements (h : ∀ value ∈ values, (spell value).Meets format value) {name : String}
    (htexts : Elements (values.map spell) (some name) texts) :
    ∃ before found text more, texts = before ++ text :: more ∧ List.Forall₂ format.reader.Reads before found ∧
      format.reader.Refuses text (.missingField name) := by
  induction values generalizing texts with
  | nil => cases htexts
  | cons value values ih =>
    rw [List.forall_mem_cons] at h
    cases htexts with
    | @whole _ _ _ text texts htext hmore =>
      obtain ⟨before, found, other, more, rfl, hbefore, hrefuses⟩ := ih h.2 hmore
      exact ⟨text :: before, value :: found, other, more, rfl, .cons (h.1.reads text htext) hbefore, hrefuses⟩
    | @lacking _ _ _ text texts htext hmore => exact ⟨[], [], text, texts, rfl, .nil, h.1.refuses name text htext⟩

theorem meets_list (expected : String) (h : ∀ value ∈ values, (spell value).Meets format value) :
    (list (values.map spell)).Meets (Format.listAs expected format) values := by
  refine ⟨⟨_, elements_write h, rfl⟩, ?_, ?_⟩
  · rintro text ⟨texts, htexts, rfl⟩
    exact Format.reads_elements expected (reads_of_elements h htexts)
  · rintro name text ⟨texts, htexts, rfl⟩
    obtain ⟨before, found, text, more, rfl, hbefore, hrefuses⟩ := refuses_of_elements h htexts
    exact Format.refuses_listAs expected hbefore hrefuses more

end Parts

/-! ## Objects -/

section Objects

variable {α ρ δ : Type} {layout : Layout ρ δ} {row : ρ} {slots : List Slot} {lacking : Option String} {name : String}
  {known noise entries : List (String × List Char)}

/-- How the need of a field and what it is by default go together. -/
def Need.Suits : Need → Option α → α → Prop
  | required, default?, _ => default? = none
  | omissible, default?, value => default? = some value
  | written, _, _ => True

/-- A value that can be left out is the default. -/
theorem suits_default {spelling : Spelling} {isDefault : Bool} {default : α} {value : α}
    (h : isDefault = true → default = value) :
    (Slot.defaulted name isDefault spelling).need.Suits (some default) value := by
  cases isDefault with
  | false => trivial
  | true => exact congrArg some (h rfl)

theorem suits_none {β : Type} {spelling : Spelling} (value : Option β) :
    (Slot.defaulted name value.isNone spelling).need.Suits (some none) value :=
  suits_default fun hnone => (Option.isNone_iff_eq_none.1 hnone).symm

theorem suits_nil {β : Type} {spelling : Spelling} (values : List β) :
    (Slot.defaulted name values.isEmpty spelling).need.Suits (some []) values :=
  suits_default fun hnil => (List.isEmpty_iff.1 hnil).symm

/-- Field by field, the texts are met by the format of the field, and it has to be there if it is nothing by default. -/
inductive MeetsFrom : {ρ δ : Type} → List Slot → Layout ρ δ → ρ → Prop
  | done : MeetsFrom [] .done ()
  | field {α ρ δ : Type} {slot : Slot} {slots : List Slot} {format : Format α} {absence : Absence α} {rest : Layout ρ δ}
    {value : α} {values : ρ} (hvalue : slot.spelling.Meets format value)
    (hneed : slot.need.Suits absence.default? value) (hrest : MeetsFrom slots rest values) :
    MeetsFrom (slot :: slots) (.field slot.name format absence rest) (value, values)

theorem MeetsFrom.map_name (h : MeetsFrom slots layout row) : slots.map Slot.name = layout.names := by
  induction h with
  | done => rfl
  | field _ _ _ ih => rw [List.map_cons, ih, Layout.names]

theorem Filled.sublist (h : Filled slots lacking known) : (known.map Prod.fst).Sublist (slots.map Slot.name) := by
  induction h with
  | nil => exact .slnil
  | whole _ _ ih => exact ih.cons_cons _
  | lacking _ _ ih => exact ih.cons_cons _
  | omitted _ _ ih => exact ih.cons _
  | missing _ _ ih => exact ih.cons _

theorem MeetsFrom.filled (h : MeetsFrom slots layout row) : Filled slots none (layout.fields row) := by
  induction h with
  | done => exact .nil
  | field hvalue _ _ ih => exact .whole hvalue.writes ih

theorem MeetsFrom.readsEntry (h : MeetsFrom slots layout row) (hfilled : Filled slots none known) :
    ∀ entry ∈ known, layout.ReadsEntry row entry := by
  induction h generalizing known with
  | done =>
    cases hfilled
    exact List.forall_mem_nil _
  | field hvalue _ _ ih =>
    cases hfilled with
    | whole htext hmore =>
      exact List.forall_mem_cons.2 ⟨⟨_, _, _, .here, hvalue.reads _ htext⟩, fun entry hmem => (ih hmore entry hmem).there⟩
    | omitted _ hmore => exact fun entry hmem => (ih hmore entry hmem).there

theorem MeetsFrom.supplied (h : MeetsFrom slots layout row) (hfilled : Filled slots none known) {seen : List String}
    (hseen : ∀ name ∈ known.map Prod.fst, name ∈ seen) : layout.Supplied row seen := by
  induction h generalizing known with
  | done => trivial
  | field _ hneed _ ih =>
    cases hfilled with
    | whole _ hmore =>
      rw [List.map_cons, List.forall_mem_cons] at hseen
      exact ⟨.inl hseen.1, ih hmore hseen.2⟩
    | omitted homitted hmore =>
      rw [homitted] at hneed
      exact ⟨.inr hneed, ih hmore hseen⟩

/-- A required field is left out: it is the first one without a value, or one of the values lacks a field. -/
theorem MeetsFrom.lacks (h : MeetsFrom slots layout row) (hnames : layout.names.Nodup)
    (hfilled : Filled slots (some name) known) :
    (∃ entry ∈ known, layout.RefusesEntry row (.missingField name) entry ∧
      ∀ other ∈ known, other.1 ≠ entry.1 → layout.ReadsEntry row other) ∨
    (∀ entry ∈ known, layout.ReadsEntry row entry) ∧
      ∀ seen, (∀ field ∈ layout.names, field ∈ seen ↔ field ∈ known.map Prod.fst) → layout.Lacks name row seen := by
  induction h generalizing known with
  | done => cases hfilled
  | @field α ρ δ slot slots format absence rest value values hvalue hneed hrest ih =>
    rw [Layout.names, List.nodup_cons] at hnames
    cases hfilled with
    | @whole _ _ _ text known htext hmore =>
      have hhead : (Layout.field slot.name format absence rest).ReadsEntry (value, values) (slot.name, text) :=
        ⟨_, _, _, .here, hvalue.reads text htext⟩
      rcases ih hnames.2 hmore with ⟨entry, hmem, hrefuses, hothers⟩ | ⟨hreads, hlacks⟩
      · refine .inl ⟨entry, List.mem_cons_of_mem _ hmem, hrefuses.there, List.forall_mem_cons.2 ⟨fun _ => hhead, ?_⟩⟩
        exact fun other hother hne => (hothers other hother hne).there
      · refine .inr ⟨List.forall_mem_cons.2 ⟨hhead, fun entry hmem => (hreads entry hmem).there⟩, fun seen hseen => ?_⟩
        rw [Layout.names, List.map_cons, List.forall_mem_cons] at hseen
        refine .inr ⟨.inl (hseen.1.2 List.mem_cons_self), hlacks seen fun field hfield => ?_⟩
        rw [hseen.2 field hfield, List.mem_cons, or_iff_right]
        rintro rfl
        exact hnames.1 hfield
    | @lacking _ _ _ text known htext hmore =>
      refine .inl ⟨(slot.name, text), List.mem_cons_self, ⟨_, _, _, .here, hvalue.refuses _ text htext⟩, ?_⟩
      refine List.forall_mem_cons.2 ⟨fun hne => absurd rfl hne, fun other hother _ => ?_⟩
      exact (hrest.readsEntry hmore other hother).there
    | omitted homitted hmore =>
      rw [homitted] at hneed
      rcases ih hnames.2 hmore with ⟨entry, hmem, hrefuses, hothers⟩ | ⟨hreads, hlacks⟩
      · exact .inl ⟨entry, hmem, hrefuses.there, fun other hother hne => (hothers other hother hne).there⟩
      · refine .inr ⟨fun entry hmem => (hreads entry hmem).there, fun seen hseen => ?_⟩
        rw [Layout.names, List.forall_mem_cons] at hseen
        exact .inr ⟨.inr hneed, hlacks seen hseen.2⟩
    | missing hmissing hmore =>
      rw [hmissing] at hneed
      refine .inr ⟨fun entry hmem => (hrest.readsEntry hmore entry hmem).there, fun seen hseen => .inl ⟨rfl, ?_, hneed⟩⟩
      rw [Layout.names, List.forall_mem_cons] at hseen
      intro hmem
      have hslot := hmore.sublist.subset (hseen.1.1 hmem)
      rw [hrest.map_name] at hslot
      exact hnames.1 hslot

/-! ## Whole objects -/

/-- No field comes twice, whatever the order. -/
theorem apart_of_perm (hslots : slots.map Slot.name = layout.names) (hnames : layout.names.Nodup)
    (hfilled : Filled slots lacking known) (hnoise : Noise slots noise) (hperm : entries.Perm (known ++ noise)) :
    layout.Apart entries := by
  have hother : ∀ entry ∈ noise, entry.1 ∉ layout.names := fun entry hmem => hslots ▸ (hnoise entry hmem).1
  have hknown : (known.map Prod.fst).Nodup := (hslots ▸ hfilled.sublist).nodup hnames
  have happend : layout.Apart (known ++ noise) := by
    refine List.pairwise_append.2 ⟨Layout.apart_of_nodup hknown, ?_, fun entry _ later hlater hname heq => ?_⟩
    · exact List.pairwise_of_forall_mem_list fun entry hmem _ _ hname => absurd hname (hother entry hmem)
    · exact hother later hlater (heq ▸ hname)
  refine (hperm.pairwise_iff ?_).2 happend
  exact fun h hname heq => h (heq ▸ hname) heq.symm

theorem fitting_of_perm (hslots : slots.map Slot.name = layout.names) (hnoise : Noise slots noise)
    (hperm : entries.Perm (known ++ noise)) {entry : String × List Char} (hmem : entry ∈ entries)
    (hknown : entry ∈ known → layout.ReadsEntry row entry) : layout.Fitting row entry := by
  rcases List.mem_append.1 (hperm.mem_iff.1 hmem) with hfield | hother
  · exact (hknown hfield).fitting
  · obtain ⟨hname, htext⟩ := hnoise entry hother
    exact .other (hslots ▸ hname) (Reader.takes_skipValue htext)

/-- Of the names of fields, those are there that are known. -/
theorem mem_names_of_perm (hslots : slots.map Slot.name = layout.names) (hnoise : Noise slots noise)
    (hperm : entries.Perm (known ++ noise)) :
    ∀ field ∈ layout.names, field ∈ entries.map Prod.fst ↔ field ∈ known.map Prod.fst := by
  intro field hfield
  rw [(hperm.map Prod.fst).mem_iff, List.map_append, List.mem_append, or_iff_left]
  intro hmem
  obtain ⟨entry, hentry, rfl⟩ := List.mem_map.1 hmem
  exact (hnoise entry hentry).1 (hslots ▸ hfield)

variable {shape : String} {toRow : α → ρ} {ofRow : ρ → α}

/-- A record is read from an object that lacks nothing. -/
theorem reads_of_object (hnames : layout.names.Nodup) (h : MeetsFrom slots layout row) {text : List Char}
    (htext : object slots none text) : (Format.record shape layout toRow ofRow).reader.Reads text (ofRow row) := by
  obtain ⟨known, noise, entries, hfilled, hnoise, hperm, rfl⟩ := htext
  have hfit : ∀ entry ∈ entries, layout.Fitting row entry := fun entry hmem =>
    fitting_of_perm h.map_name hnoise hperm hmem (h.readsEntry hfilled entry)
  refine Format.reads_entries hnames hfit (apart_of_perm h.map_name hnames hfilled hnoise hperm) ?_
  refine h.supplied hfilled fun name hname => (hperm.map Prod.fst).mem_iff.2 ?_
  rw [List.map_append]
  exact List.mem_append_left _ hname

/-- A record is refused from an object that lacks a field, or has a value that does. -/
theorem refuses_of_object (hnames : layout.names.Nodup) (h : MeetsFrom slots layout row) {text : List Char}
    (htext : object slots (some name) text) :
    (Format.record shape layout toRow ofRow).reader.Refuses text (.missingField name) := by
  obtain ⟨known, noise, entries, hfilled, hnoise, hperm, rfl⟩ := htext
  have hapart := apart_of_perm h.map_name hnames hfilled hnoise hperm
  rcases h.lacks hnames hfilled with ⟨entry, hmem, hrefuses, hothers⟩ | ⟨hreads, hlacks⟩
  · -- of the entries before the one that is refused, those of fields are read
    obtain ⟨before, more, rfl⟩ := List.append_of_mem (hperm.mem_iff.2 (List.mem_append_left noise hmem))
    obtain ⟨hbefore, -, hcross⟩ := List.pairwise_append.1 hapart
    have hne : ∀ other ∈ before, other.1 ≠ entry.1 := fun other hother heq =>
      hcross other hother entry List.mem_cons_self (heq ▸ hrefuses.name_mem) heq
    refine Format.refuses_field hnames (fun other hother => ?_) hbefore hrefuses (fun hname => ?_) more
    · exact fitting_of_perm h.map_name hnoise hperm (List.mem_append_left _ hother) fun hknown =>
        hothers other hknown (hne other hother)
    · obtain ⟨other, hother, heq⟩ := List.mem_map.1 hname
      exact hne other hother heq
  · refine Format.refuses_lacking hnames (fun entry hmem => ?_) hapart
      (hlacks _ (mem_names_of_perm h.map_name hnoise hperm))
    exact fitting_of_perm h.map_name hnoise hperm hmem (hreads entry)

/-- A record is written as an object, is read from any such object, and is refused if it or a value in it lacks a field. -/
theorem meets_object {value : α} (hnames : layout.names.Nodup) (h : MeetsFrom slots layout (toRow value))
    (hback : ofRow (toRow value) = value) : (object slots).Meets (Format.record shape layout toRow ofRow) value := by
  refine ⟨?_, fun text htext => ?_, fun name text htext => refuses_of_object hnames h htext⟩
  · refine ⟨_, [], _, h.filled, List.forall_mem_nil _, ?_, Format.write_record _ _ _ _ value⟩
    rw [List.append_nil]
  · have hreads : (Format.record shape layout toRow ofRow).reader.Reads text (ofRow (toRow value)) :=
      reads_of_object hnames h htext
    rwa [hback] at hreads

end Objects

end Spelling

end FunctionTrees.Json
