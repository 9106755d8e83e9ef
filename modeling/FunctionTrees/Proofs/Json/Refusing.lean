import FunctionTrees.Proofs.Json.Record

/-!
# What readers stop over

* `Reader.StopsOver reader text misfit` : wherever `text` stands, `reader` stops in it over `misfit`; `StopsOver.map`,
  `stopsOver_whole`;
* `Reader.Refuses reader text misfit` : moreover it is known for a value by its first character;
* `run_items_stop`, `run_entries_stop` : the first element that is refused is what counts, whatever comes behind it;
* `Layout.RefusesEntry layout row misfit entry` : the entry is that of a field, with a text that is refused;
* `refuses_listAs`, `Refuses.optional`, `refuses_field`, `Case.refuses_contentCase` : so it is with lists, records and
  choices; `refuses_lacking` : a record is also refused for a field that is lacking;
* `decode_of_refuses` : a text that is refused is not decoded.
-/

set_option autoImplicit false

namespace FunctionTrees.Json

/-! ## Readers -/

namespace Reader

variable {α β σ : Type} {reader : Reader α} {text : List Char} {misfit : Misfit}

/-- Wherever the text stands, the reader stops in it over a value of another shape. -/
def StopsOver (reader : Reader α) (text : List Char) (misfit : Misfit) : Prop :=
  ∀ rest, Bounded rest → ∃ spot left, reader.run (text ++ rest) = .stop ⟨.unfit misfit, spot⟩ left

/-- The text is that of a value, and the reader stops in it wherever it stands. -/
structure Refuses (reader : Reader α) (text : List Char) (misfit : Misfit) : Prop where
  starts : ∃ c rest, text = c :: rest ∧ StartsValue c
  stops : reader.StopsOver text misfit

theorem StopsOver.map (h : reader.StopsOver text misfit) (f : α → β) : (f <$> reader).StopsOver text misfit := by
  intro rest hrest
  obtain ⟨spot, left, hrun⟩ := h rest hrest
  exact ⟨spot, left, run_bind_stop hrun _⟩

theorem run_placed_stop {cause : Cause} {spot : Option Spot} {chars left : List Char}
    (h : reader.run chars = .stop ⟨cause, spot⟩ left) :
    ∃ spot', (placed reader).run chars = .stop ⟨cause, spot'⟩ left := by
  cases spot with
  | none => exact ⟨some ⟨left, 0⟩, by simp only [placed, h]⟩
  | some spot => exact ⟨some spot, by simp only [placed, h]⟩

theorem stopsOver_whole {expected : String} {choose : Char → Option (Reader α)} {c : Char} (hstarts : StartsValue c)
    (hchoose : choose c = some reader) (h : reader.StopsOver (c :: text) misfit) :
    (whole expected choose).StopsOver (c :: text) misfit := by
  intro rest hrest
  obtain ⟨spot, left, hrun⟩ := h rest hrest
  obtain ⟨spot', hplaced⟩ := run_placed_stop hrun
  refine ⟨spot', left, ?_⟩
  rw [List.cons_append, run_whole expected choose hstarts.not_blank]
  simp only [hchoose]
  exact hplaced

theorem stopsOver_enclosed {close : Reader Unit} {bracket : Char}
    (h : ∀ rest, ∃ spot left, reader.run (text ++ bracket :: rest) = .stop ⟨.unfit misfit, spot⟩ left) :
    (enclosed reader close).StopsOver (text ++ [bracket]) misfit := by
  intro rest _
  obtain ⟨spot, left, hrun⟩ := h rest
  refine ⟨spot, (close.run left).rest, ?_⟩
  rw [List.append_assoc]
  simp only [enclosed, List.singleton_append, hrun]

/-! ## Lists -/

section Lists

variable {before more : List (List Char)} {values : List α}

theorem itemsFrom_of_stop {found : List α} {chars rest rest' : List Char} {fault : Fault}
    (h : nextItem.run chars = .done true rest) (hitem : reader.run rest = .stop fault rest') :
    itemsFrom reader found chars = .stop fault rest' := by
  rw [itemsFrom]
  split
  next hmore =>
    cases h.symm.trans hmore
    split
    next hdone => cases hitem.symm.trans hdone
    next hstop => cases hitem.symm.trans hstop; rfl
  next hend => cases h.symm.trans hend
  next hstop => cases h.symm.trans hstop

theorem itemsFrom_stop (hbefore : List.Forall₂ reader.Reads before values) (h : reader.Refuses text misfit)
    (more : List (List Char)) (found : List α) (rest : List Char) : ∃ spot left,
      itemsFrom reader found (trailed (before ++ text :: more) ++ ']' :: rest) = .stop ⟨.unfit misfit, spot⟩ left := by
  induction hbefore generalizing found with
  | nil =>
    have hmore := run_nextItem_true h.starts (trailed more ++ ']' :: rest)
    obtain ⟨spot, left, hrun⟩ := h.stops _ (bounded_trailed more (c := ']') (by decide) rest)
    rw [List.nil_append, trailed_cons, List.append_assoc]
    exact ⟨spot, left, itemsFrom_of_stop hmore hrun⟩
  | @cons first value before values hread _ ih =>
    have hmore := run_nextItem_true hread.starts (trailed (before ++ text :: more) ++ ']' :: rest)
    rw [List.cons_append, trailed_cons, List.append_assoc]
    rw [itemsFrom_more hmore (hread.takes _ (bounded_trailed _ (by decide) rest))]
    exact ih (value :: found)

/-- The first element that is refused is what a list is refused for. -/
theorem run_items_stop (hbefore : List.Forall₂ reader.Reads before values) (h : reader.Refuses text misfit)
    (more : List (List Char)) (rest : List Char) : ∃ spot left,
      (items reader).run (Format.commas (before ++ text :: more) ++ ']' :: rest) = .stop ⟨.unfit misfit, spot⟩ left := by
  cases hbefore with
  | nil =>
    obtain ⟨spot, left, hrun⟩ := h.stops _ (bounded_trailed more (c := ']') (by decide) rest)
    refine ⟨spot, left, ?_⟩
    rw [List.nil_append, commas_cons, List.append_assoc, items, run_bind_done (run_firstItem_true h.starts _), if_pos rfl]
    exact run_bind_stop hrun _
  | @cons first value before values hread hbefore =>
    obtain ⟨spot, left, hrun⟩ := itemsFrom_stop hbefore h more [value] rest
    refine ⟨spot, left, ?_⟩
    rw [List.cons_append, commas_cons, List.append_assoc, items, run_bind_done (run_firstItem_true hread.starts _),
      if_pos rfl, run_bind_done (hread.takes _ (bounded_trailed _ (by decide) rest))]
    exact hrun

end Lists

/-! ## Objects -/

section Objects

variable {entry : σ → Reader σ} {state state' : σ} {before more : List (List Char)}

theorem entriesFrom_of_stop {chars rest rest' : List Char} {fault : Fault} (h : nextKey.run chars = .done true rest)
    (hentry : (entry state).run rest = .stop fault rest') : entriesFrom entry state chars = .stop fault rest' := by
  rw [entriesFrom]
  split
  next hmore =>
    cases h.symm.trans hmore
    split
    next hdone => cases hentry.symm.trans hdone
    next hstop => cases hentry.symm.trans hstop; rfl
  next hend => cases h.symm.trans hend
  next hstop => cases h.symm.trans hstop

theorem entriesFrom_stop (hbefore : Enters entry state before state')
    (h : (entry state').StopsOver ('"' :: text) misfit) (more : List (List Char)) (rest : List Char) : ∃ spot left,
      entriesFrom entry state (trailed (before ++ ('"' :: text) :: more) ++ '\x7d' :: rest) =
        .stop ⟨.unfit misfit, spot⟩ left := by
  induction hbefore with
  | nil state =>
    have hmore := run_nextKey_true text (trailed more ++ '\x7d' :: rest)
    obtain ⟨spot, left, hrun⟩ := h _ (bounded_trailed more (c := '\x7d') (by decide) rest)
    rw [List.nil_append, trailed_cons, List.append_assoc]
    exact ⟨spot, left, entriesFrom_of_stop hmore hrun⟩
  | @cons state middle state' first before htakes _ ih =>
    rw [List.cons_append, trailed_cons, List.append_assoc]
    rw [entriesFrom_more (run_nextKey_true first _) (htakes _ (bounded_trailed _ (by decide) rest))]
    exact ih h

/-- The first entry that is refused is what an object is refused for. -/
theorem run_entries_stop (hbefore : Enters entry state before state')
    (h : (entry state').StopsOver ('"' :: text) misfit) (more : List (List Char)) (rest : List Char) : ∃ spot left,
      (entries entry state).run (Format.commas (before ++ ('"' :: text) :: more) ++ '\x7d' :: rest) =
        .stop ⟨.unfit misfit, spot⟩ left := by
  cases hbefore with
  | nil =>
    obtain ⟨spot, left, hrun⟩ := h _ (bounded_trailed more (c := '\x7d') (by decide) rest)
    refine ⟨spot, left, ?_⟩
    rw [List.nil_append, commas_cons, List.append_assoc, entries, run_bind_done (run_firstKey_true text _), if_pos rfl]
    exact run_bind_stop hrun _
  | @cons state middle state' first before htakes hbefore =>
    obtain ⟨spot, left, hrun⟩ := entriesFrom_stop hbefore h more rest
    refine ⟨spot, left, ?_⟩
    rw [List.cons_append, commas_cons, List.append_assoc, entries, run_bind_done (run_firstKey_true first _), if_pos rfl,
      run_bind_done (htakes _ (bounded_trailed _ (by decide) rest))]
    exact hrun

theorem stopsOver_object {texts : List (List Char)} {complete : σ → Reader α}
    (h : ∀ rest, ∃ spot left, (entries entry state >>= complete).run (Format.commas texts ++ '\x7d' :: rest) =
      .stop ⟨.unfit misfit, spot⟩ left) :
    (enclosed (do pass; let found ← entries entry state; complete found) closeObject).StopsOver
      ('\x7b' :: (Format.commas texts ++ ['\x7d'])) misfit :=
  stopsOver_enclosed h

end Objects

end Reader

/-! ## Formats -/

namespace Format

open Reader (stopsOver_whole stopsOver_enclosed)

variable {α : Type} {format : Format α} {text : List Char} {misfit : Misfit}

/-- A text that is refused is not decoded. -/
theorem decode_of_refuses (h : format.reader.Refuses text misfit) :
    ∃ spot, format.decode (String.ofList text) = .error ⟨.unfit misfit, spot⟩ := by
  obtain ⟨spot, left, hrun⟩ := h.stops [] bounded_nil
  rw [List.append_nil] at hrun
  refine ⟨spot, ?_⟩
  rw [decode, Reader.ofText, String.toList_ofList, Reader.run_bind_stop hrun]

theorem refuses_listAs (expected : String) {before : List (List Char)} {values : List α}
    (hbefore : List.Forall₂ format.reader.Reads before values) (h : format.reader.Refuses text misfit)
    (more : List (List Char)) : (listAs expected format).reader.Refuses
      ('[' :: commas (before ++ text :: more) ++ [']']) misfit := by
  have hstarts : StartsValue '[' := .inl (by decide)
  refine ⟨⟨_, _, rfl, hstarts⟩, stopsOver_whole hstarts (if_pos rfl) ?_⟩
  exact stopsOver_enclosed (Reader.run_items_stop hbefore h more)

theorem Refuses.optional (h : format.reader.Refuses text misfit) (hnull : text.head? ≠ some 'n') :
    format.optional.reader.Refuses text misfit := by
  obtain ⟨c, more, rfl, hstarts⟩ := h.starts
  refine ⟨h.starts, fun rest hrest => ?_⟩
  obtain ⟨spot, left, hrun⟩ := h.stops rest hrest
  have hc : c ≠ 'n' := by
    rintro rfl
    exact hnull rfl
  refine ⟨spot, left, ?_⟩
  show (Reader.next >>= _).run (c :: (more ++ rest)) = _
  rw [Reader.run_bind_next hstarts.not_blank]
  simp only [if_neg hc]
  exact Reader.run_bind_stop hrun _

end Format

/-! ## Records -/

namespace Layout

variable {ρ δ : Type} {layout : Layout ρ δ} {row : ρ} {misfit : Misfit} {entry : String × List Char}

/-- The entry is that of a field, with a text that is refused. -/
def RefusesEntry (layout : Layout ρ δ) (row : ρ) (misfit : Misfit) (entry : String × List Char) : Prop :=
  ∃ α, ∃ format : Format α, ∃ value, layout.Field row entry.1 format value ∧ format.reader.Refuses entry.2 misfit

theorem RefusesEntry.name_mem (h : layout.RefusesEntry row misfit entry) : entry.1 ∈ layout.names := by
  obtain ⟨α, format, value, hfield, -⟩ := h
  exact hfield.name_mem

theorem RefusesEntry.there {α : Type} {name : String} {format : Format α} {absence : Absence α} {value : α}
    (h : layout.RefusesEntry row misfit entry) :
    (field name format absence layout).RefusesEntry (value, row) misfit entry := by
  obtain ⟨β, other, found, hfield, hrefuses⟩ := h
  exact ⟨β, other, found, .there hfield, hrefuses⟩

theorem stopsOver_entry (hnames : layout.names.Nodup) (h : layout.RefusesEntry row misfit entry) {seen : List String}
    (hseen : entry.1 ∉ seen) : (layout.entry (layout.draftOf row seen)).StopsOver (entryText entry) misfit := by
  intro rest hrest
  obtain ⟨α, format, value, hfield, hrefuses⟩ := h
  obtain ⟨reader, put, hassign, -, hrun⟩ := run_assign hnames hfield hseen
  obtain ⟨spot, left, hstop⟩ := hrefuses.stops.map put rest hrest
  refine ⟨spot, left, ?_⟩
  rw [run_entry, hassign]
  exact (hrun _).trans hstop

end Layout

namespace Format

open Reader (stopsOver_whole)

variable {α ρ δ : Type} {layout : Layout ρ δ} {row : ρ} {toRow : α → ρ} {ofRow : ρ → α} {shape : String}

/-- The first field that is refused is what a record is refused for. -/
theorem refuses_field {misfit : Misfit} {before : List (String × List Char)} {entry : String × List Char}
    (hnames : layout.names.Nodup) (hfit : ∀ other ∈ before, layout.Fitting row other) (hapart : layout.Apart before)
    (hrefuses : layout.RefusesEntry row misfit entry) (hbefore : entry.1 ∉ before.map Prod.fst)
    (more : List (String × List Char)) :
    (record shape layout toRow ofRow).reader.Refuses
      ('\x7b' :: commas ((before ++ entry :: more).map Layout.entryText) ++ ['\x7d']) misfit := by
  have hstarts : StartsValue '\x7b' := .inl (by decide)
  refine ⟨⟨_, _, rfl, hstarts⟩, Reader.StopsOver.map (stopsOver_whole hstarts rfl ?_) ofRow⟩
  have henters := Layout.enters_entries hnames hfit hapart [] fun _ _ _ => List.not_mem_nil
  rw [List.append_nil, ← Layout.blank_eq] at henters
  have hentry := Layout.stopsOver_entry hnames hrefuses (mt List.mem_reverse.1 hbefore)
  rw [List.map_append, List.map_cons]
  refine Reader.stopsOver_object fun rest => ?_
  obtain ⟨spot, left, hrun⟩ := Reader.run_entries_stop henters hentry (more.map Layout.entryText) rest
  exact ⟨spot, left, Reader.run_bind_stop hrun _⟩

/-- A record is refused for a field that is lacking. -/
theorem refuses_lacking {lacking : String} {entries : List (String × List Char)} (hnames : layout.names.Nodup)
    (hfit : ∀ entry ∈ entries, layout.Fitting row entry) (hapart : layout.Apart entries)
    (hlacks : layout.Lacks lacking row (entries.map Prod.fst)) :
    (record shape layout toRow ofRow).reader.Refuses
      ('\x7b' :: commas (entries.map Layout.entryText) ++ ['\x7d']) (.missingField lacking) := by
  have hstarts : StartsValue '\x7b' := .inl (by decide)
  refine ⟨⟨_, _, rfl, hstarts⟩, Reader.StopsOver.map (stopsOver_whole hstarts rfl ?_) ofRow⟩
  have henters := Layout.enters_entries hnames hfit hapart [] fun _ _ _ => List.not_mem_nil
  rw [List.append_nil, ← Layout.blank_eq] at henters
  refine Reader.stopsOver_object fun rest => ⟨none, '\x7d' :: rest, ?_⟩
  rw [Reader.run_bind_done (Reader.run_entries henters rest),
    Layout.draftOf_congr fun _ _ => List.mem_reverse, Layout.complete_of_lacks hlacks]
  rfl

end Format

/-! ## Choices -/

namespace Case

variable {α : Type} {cases : List (String × Case α)} {name : String} {found : Case α} {misfit : Misfit}

/-- A case is refused for its content. -/
theorem refuses_contentCase {content : List Char} (h : cases.lookup name = some found)
    (hcontent : found.withContent.StopsOver content misfit) :
    (reader cases).Refuses (writeContent name content) misfit := by
  have hstarts : StartsValue '\x7b' := .inl (by decide)
  refine ⟨⟨_, _, rfl, hstarts⟩, fun rest _ => ?_⟩
  obtain ⟨spot, left, hrun⟩ := hcontent ('\x7d' :: rest) (bounded_cons (by decide) rest)
  refine ⟨spot, left, ?_⟩
  rw [run_writeContent h]
  exact Reader.run_bind_stop hrun _

end Case

end FunctionTrees.Json
