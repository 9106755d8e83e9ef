import FunctionTrees.Json.Format
import Mathlib.Data.List.Forall2

/-!
# What readers take off the front of a text

* `Reader.run_bind_done`, `Reader.run_map_done` : a reader goes on where the one before it has stopped;
* `StartsValue c`, `Bounded rest` : a value can start with `c`; no number goes on in `rest`;
* `Reader.Takes reader text value` : wherever `text` stands, `reader` takes it for `value`; `Takes.map`;
* `Reader.Reads reader text value` : moreover it is known for a value by its first character;
* `run_items` : the elements of a list are read one by one;
* `Reader.Enters entry state texts state'`, `run_entries` : and so are the entries of an object.
-/

set_option autoImplicit false

namespace FunctionTrees.Json

/-! ## Running readers -/

namespace Reader

section Running

variable {α β : Type} {reader : Reader α} {chars rest : List Char} {value : α}

@[simp] theorem run_pure (value : α) (chars : List Char) : (pure value : Reader α).run chars = .done value chars := rfl

theorem run_bind_done (h : reader.run chars = .done value rest) (next : α → Reader β) :
    (reader >>= next).run chars = (next value).run rest := by
  show (Reader.bind reader next).run chars = _
  simp only [Reader.bind, h]

theorem run_bind_stop {fault : Fault} (h : reader.run chars = .stop fault rest) (next : α → Reader β) :
    (reader >>= next).run chars = .stop fault rest := by
  show (Reader.bind reader next).run chars = _
  simp only [Reader.bind, h]

/-- What a reader comes to with its value replaced. -/
theorem run_map (f : α → β) (reader : Reader α) (chars : List Char) : (f <$> reader).run chars =
    match reader.run chars with
    | .done value rest => .done (f value) rest
    | .stop fault rest => .stop fault rest := rfl

theorem run_map_done (h : reader.run chars = .done value rest) (f : α → β) :
    (f <$> reader).run chars = .done (f value) rest :=
  run_bind_done h (pure ∘ f)

@[simp] theorem run_bind_peek (next : Option Char → Reader β) (chars : List Char) :
    (peek >>= next).run chars = (next chars.head?).run chars := rfl

@[simp] theorem run_bind_pass (next : Unit → Reader β) (chars : List Char) :
    (pass >>= next).run chars = (next ()).run chars.tail := rfl

theorem run_next {c : Char} (h : isBlank c = false) (rest : List Char) :
    next.run (c :: rest) = .done (some c) (c :: rest) := by
  simp [next, h]

/-- The next character is not passed over unless it is a blank. -/
theorem run_bind_next {c : Char} (h : isBlank c = false) (rest : List Char) (more : Option Char → Reader β) :
    (next >>= more).run (c :: rest) = (more (some c)).run (c :: rest) :=
  run_bind_done (run_next h rest) more

theorem run_placed (h : reader.run chars = .done value rest) : (placed reader).run chars = .done value rest := by
  simp only [placed, h]

theorem run_of_placed (h : (placed reader).run chars = .done value rest) : reader.run chars = .done value rest := by
  unfold placed at h
  dsimp only at h
  split at h
  · cases h
  · exact h

theorem run_enclosed {close : Reader Unit} {rest' : List Char} (h : reader.run chars = .done value rest)
    (hclose : close.run rest = .done () rest') : (enclosed reader close).run chars = .done value rest' := by
  simp only [enclosed, h, hclose]

theorem run_closeList (rest : List Char) : closeList.run (']' :: rest) = .done () rest := rfl

theorem run_closeObject (rest : List Char) : closeObject.run ('\x7d' :: rest) = .done () rest := rfl

theorem run_colon (rest : List Char) : colon.run (':' :: rest) = .done () rest := rfl

end Running

end Reader

/-! ## Values in a text -/

def StartsValue (c : Char) : Prop :=
  c ∈ ['"', '[', '\x7b', '-', 'n', 't', 'f'] ∨ Reader.isDigit c = true

/-- Whether a number that ends in front of this character could go on with it. -/
def continuesNumber (c : Char) : Bool := Reader.isDigit c || c == '.' || c == 'e' || c == 'E'

/-- No number goes on in what follows. -/
def Bounded (rest : List Char) : Prop := ∀ c ∈ rest.head?, continuesNumber c = false

theorem bounded_nil : Bounded [] := fun _ h => nomatch h

theorem bounded_cons {c : Char} (h : continuesNumber c = false) (rest : List Char) : Bounded (c :: rest) := by
  intro d hd
  rw [List.head?_cons, Option.mem_some_iff] at hd
  exact hd ▸ h

theorem Bounded.not_part {rest : List Char} (h : Bounded rest) {c : Char} (hc : c ∈ rest.head?) :
    Reader.isDigit c = false ∧ c ≠ '.' ∧ c ≠ 'e' ∧ c ≠ 'E' := by
  have hnone := h c hc
  simp only [continuesNumber, Bool.or_eq_false_iff, beq_eq_false_iff_ne] at hnone
  obtain ⟨⟨⟨hdigit, hpoint⟩, hsmall⟩, hlarge⟩ := hnone
  exact ⟨hdigit, hpoint, hsmall, hlarge⟩

theorem StartsValue.not_blank {c : Char} (h : StartsValue c) : Reader.isBlank c = false := by
  simp only [Reader.isBlank, decide_eq_false_iff_not]
  rintro (rfl | rfl | rfl | rfl) <;> rcases h with h | h <;> exact absurd h (by decide)

theorem StartsValue.ne_close {c : Char} (h : StartsValue c) : c ≠ ']' := by
  rintro rfl
  rcases h with h | h
  · exact absurd h (by decide)
  · exact absurd h (by decide)

namespace Reader

section Values

variable {α β : Type} {reader : Reader α} {text : List Char} {value : α}

/-- Wherever the text stands, the reader takes it for the value. -/
def Takes (reader : Reader α) (text : List Char) (value : α) : Prop :=
  ∀ rest, Bounded rest → reader.run (text ++ rest) = .done value rest

theorem Takes.map (h : reader.Takes text value) (f : α → β) : (f <$> reader).Takes text (f value) :=
  fun rest hrest => run_map_done (h rest hrest) f

/-- The text is that of a value, and the reader takes it for `value` wherever it stands. -/
structure Reads (reader : Reader α) (text : List Char) (value : α) : Prop where
  starts : ∃ c rest, text = c :: rest ∧ StartsValue c
  takes : reader.Takes text value

theorem Reads.map (h : reader.Reads text value) (f : α → β) : (f <$> reader).Reads text (f value) :=
  ⟨h.starts, h.takes.map f⟩

end Values

/-! ## Lists -/

section Lists

variable {α : Type} {item : Reader α}

/-- Elements, each behind a comma. -/
def trailed (texts : List (List Char)) : List Char := texts.flatMap fun text => ',' :: text

theorem trailed_cons (text : List Char) (texts : List (List Char)) :
    trailed (text :: texts) = ',' :: text ++ trailed texts :=
  List.flatMap_cons

theorem commas_cons (text : List Char) (texts : List (List Char)) :
    Format.commas (text :: texts) = text ++ trailed texts := by
  induction texts generalizing text with
  | nil => simp [Format.commas, trailed]
  | cons next texts ih =>
    rw [Format.commas, List.intercalate_cons_cons, ← Format.commas, ih, trailed_cons, List.append_assoc]
    rfl

theorem run_nextItem_true {text : List Char} (h : ∃ c rest, text = c :: rest ∧ StartsValue c) (rest : List Char) :
    nextItem.run (',' :: text ++ rest) = .done true (text ++ rest) := by
  obtain ⟨c, more, rfl, hstarts⟩ := h
  have hcomma : isBlank ',' = false := by decide
  simp [nextItem, hcomma, hstarts.not_blank, hstarts.ne_close]

theorem run_firstItem_true {text : List Char} (h : ∃ c rest, text = c :: rest ∧ StartsValue c) (rest : List Char) :
    firstItem.run (text ++ rest) = .done true (text ++ rest) := by
  obtain ⟨c, more, rfl, hstarts⟩ := h
  rw [List.cons_append, firstItem, run_bind_next hstarts.not_blank]
  simp [hstarts.ne_close]

theorem run_nextItem_false (rest : List Char) : nextItem.run (']' :: rest) = .done false (']' :: rest) := rfl

theorem bounded_trailed (texts : List (List Char)) {c : Char} (h : continuesNumber c = false) (rest : List Char) :
    Bounded (trailed texts ++ c :: rest) := by
  cases texts with
  | nil => exact bounded_cons h rest
  | cons text texts => exact bounded_cons (by decide) _

theorem itemsFrom_more {before : List α} {chars rest rest' : List Char} {value : α}
    (h : nextItem.run chars = .done true rest) (hitem : item.run rest = .done value rest') :
    itemsFrom item before chars = itemsFrom item (value :: before) rest' := by
  rw [itemsFrom]
  split
  next hmore =>
    cases h.symm.trans hmore
    split
    next hvalue => cases hitem.symm.trans hvalue; rfl
    next hstop => cases hitem.symm.trans hstop
  next hend => cases h.symm.trans hend
  next hstop => cases h.symm.trans hstop

theorem itemsFrom_end {before : List α} {chars rest : List Char} (h : nextItem.run chars = .done false rest) :
    itemsFrom item before chars = .done before.reverse rest := by
  rw [itemsFrom]
  split
  next hmore => cases h.symm.trans hmore
  next hend => cases h.symm.trans hend; rfl
  next hstop => cases h.symm.trans hstop

theorem itemsFrom_trailed {texts : List (List Char)} {values : List α}
    (h : List.Forall₂ item.Reads texts values) (before : List α) (rest : List Char) :
    itemsFrom item before (trailed texts ++ ']' :: rest) = .done (before.reverse ++ values) (']' :: rest) := by
  induction h generalizing before with
  | nil =>
    rw [List.append_nil]
    exact itemsFrom_end (run_nextItem_false rest)
  | @cons text value texts values hread _ ih =>
    have hmore := run_nextItem_true hread.starts (trailed texts ++ ']' :: rest)
    rw [trailed_cons, List.append_assoc]
    rw [itemsFrom_more hmore (hread.takes _ (bounded_trailed texts (by decide) rest)), ih, List.reverse_cons,
      List.append_assoc]
    rfl

/-- The elements of a list with commas between them. -/
theorem run_items {texts : List (List Char)} {values : List α} (h : List.Forall₂ item.Reads texts values)
    (rest : List Char) : (items item).run (Format.commas texts ++ ']' :: rest) = .done values (']' :: rest) := by
  cases h with
  | nil => rfl
  | @cons text value texts values hread hreads =>
    rw [commas_cons, List.append_assoc, items, run_bind_done (run_firstItem_true hread.starts _), if_pos rfl]
    rw [run_bind_done (hread.takes _ (bounded_trailed texts (by decide) rest))]
    exact itemsFrom_trailed hreads [value] rest

end Lists

/-! ## Objects -/

section Objects

variable {σ : Type} {entry : σ → Reader σ} {state state' state'' : σ}

/-- Entry by entry, the texts lead from one state to another. -/
inductive Enters (entry : σ → Reader σ) : σ → List (List Char) → σ → Prop
  | nil (state : σ) : Enters entry state [] state
  | cons {state state' state'' : σ} {text : List Char} {texts : List (List Char)}
    (htakes : (entry state).Takes ('"' :: text) state') (hmore : Enters entry state' texts state'') :
    Enters entry state (('"' :: text) :: texts) state''

theorem run_firstKey_true (text rest : List Char) :
    firstKey.run ('"' :: text ++ rest) = .done true ('"' :: text ++ rest) := rfl

theorem run_nextKey_true (text rest : List Char) :
    nextKey.run (',' :: ('"' :: text) ++ rest) = .done true ('"' :: text ++ rest) := rfl

theorem run_nextKey_false (rest : List Char) : nextKey.run ('\x7d' :: rest) = .done false ('\x7d' :: rest) := rfl

theorem entriesFrom_more {chars rest rest' : List Char} (h : nextKey.run chars = .done true rest)
    (hentry : (entry state).run rest = .done state' rest') :
    entriesFrom entry state chars = entriesFrom entry state' rest' := by
  rw [entriesFrom]
  split
  next hmore =>
    cases h.symm.trans hmore
    split
    next hstate => cases hentry.symm.trans hstate; rfl
    next hstop => cases hentry.symm.trans hstop
  next hend => cases h.symm.trans hend
  next hstop => cases h.symm.trans hstop

theorem entriesFrom_end {chars rest : List Char} (h : nextKey.run chars = .done false rest) :
    entriesFrom entry state chars = .done state rest := by
  rw [entriesFrom]
  split
  next hmore => cases h.symm.trans hmore
  next hend => cases h.symm.trans hend; rfl
  next hstop => cases h.symm.trans hstop

theorem entriesFrom_trailed {texts : List (List Char)} (h : Enters entry state texts state') (rest : List Char) :
    entriesFrom entry state (trailed texts ++ '\x7d' :: rest) = .done state' ('\x7d' :: rest) := by
  induction h with
  | nil => exact entriesFrom_end (run_nextKey_false rest)
  | @cons state state' state'' text texts htakes _ ih =>
    rw [trailed_cons, List.append_assoc]
    rw [entriesFrom_more (run_nextKey_true text _) (htakes _ (bounded_trailed texts (by decide) rest)), ih]

/-- The entries of an object with commas between them. -/
theorem run_entries {texts : List (List Char)} (h : Enters entry state texts state') (rest : List Char) :
    (entries entry state).run (Format.commas texts ++ '\x7d' :: rest) = .done state' ('\x7d' :: rest) := by
  cases h with
  | nil => rfl
  | @cons state state' state'' text texts htakes hmore =>
    rw [commas_cons, List.append_assoc, entries, run_bind_done (run_firstKey_true text _), if_pos rfl]
    rw [run_bind_done (htakes _ (bounded_trailed texts (by decide) rest))]
    exact entriesFrom_trailed hmore rest

end Objects

end Reader

end FunctionTrees.Json
