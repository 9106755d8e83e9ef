import FunctionTrees.Proofs.Decimal
import FunctionTrees.Proofs.Operator
import FunctionTrees.Proofs.Text.Delimited
import FunctionTrees.Tree.Printer

/-!
# The text of a tree determines the tree

* `separates`, `isWordChar` : the characters that come after a tree, and those that words are made of;
* `Tree.word?` : the text of a tree that is written as one word; `word?_inj` : no two trees are the same word;
* `Tree.form` : whether a tree is a word, a quoted text or in parentheses, which the first character tells;
* `Tree.Plain tree` : the tree holds neither floats nor spans;
* `Tree.Delimited depth tree` : the text of the tree determines the tree and where it ends;
* `textsAt_append_inj` : so does the text of several trees; `Plain.delimited` : that is so of all plain trees;
* `Plain.text_inj` : no two plain trees have the same text.
-/

set_option autoImplicit false

namespace FunctionTrees

open Text (word_append_inj quote_append_inj toList_quote)

/-! ## Characters -/

/-- The characters that come after a tree or after the name of a kind. -/
def separates (c : Char) : Bool := c == ' ' || c == '\n' || c == ')'

def Separated (rest : List Char) : Prop := ∀ c ∈ rest.head?, separates c = true

theorem separated_cons {c : Char} {rest : List Char} (h : separates c = true) : Separated (c :: rest) := by
  rintro d ⟨⟩
  exact h

def isWordChar (c : Char) : Bool := c.isAlphanum || c == '-' || c == ':' || c == '_'

theorem ne_of_isWordChar {c d : Char} (h : isWordChar c = true) (hd : isWordChar d = false) : c ≠ d := by
  rintro rfl
  rw [hd] at h
  cases h

theorem not_separates_of_isWordChar {c : Char} (h : isWordChar c = true) : ¬ separates c = true := by
  simp only [separates, Bool.or_eq_true, beq_iff_eq, not_or]
  exact ⟨⟨ne_of_isWordChar h (by decide), ne_of_isWordChar h (by decide)⟩, ne_of_isWordChar h (by decide)⟩

theorem separated_append_inj {word word' rest rest' : List Char} (h : ∀ c ∈ word, isWordChar c = true)
    (h' : ∀ c ∈ word', isWordChar c = true) (hrest : Separated rest) (hrest' : Separated rest')
    (heq : word ++ rest = word' ++ rest') : word = word' ∧ rest = rest' :=
  word_append_inj (separates · = true) (fun c hc => not_separates_of_isWordChar (h c hc))
    (fun c hc => not_separates_of_isWordChar (h' c hc)) hrest hrest' heq

/-! ## Kinds -/

namespace NodeKind

def all : List NodeKind :=
  [operator, constant, empty, var, binaryExpr, unaryExpr, primitive, call, assign, ret, goto, ifGoto, label, block]

theorem mem_all (kind : NodeKind) : kind ∈ all := by
  cases kind <;> simp [all]

theorem nodup_names : (all.map name).Nodup := by decide

theorem name_injective {kind other : NodeKind} (h : kind.name = other.name) : kind = other :=
  List.inj_on_of_nodup_map nodup_names (mem_all kind) (mem_all other) h

theorem isWordChar_name (kind : NodeKind) : ∀ c ∈ kind.name.toList, isWordChar c = true := by
  have hall : ∀ kind ∈ all, kind.name.toList.all isWordChar = true := by decide
  exact List.all_eq_true.1 (hall kind (mem_all kind))

end NodeKind

namespace Tree

variable {tree other : Tree} {text : String}

/-! ## Words -/

/-- The text of a tree that is written as one word. -/
def word? : Tree → Option String
  | operator op => some op.text
  | literal (.int value) => some (toString value.toInt)
  | literal (.bool value) => some (if value then "true" else "false")
  | literal .null => some "null"
  | empty => some "EMPTY"
  | _ => none

theorem textAt_of_word? (h : tree.word? = some text) (depth : Nat) : tree.textAt depth = text := by
  unfold word? at h
  split at h <;> cases h <;> rfl

/-- The words that are no numbers, with their trees. -/
def lexicon : List (Tree × String) :=
  [(empty, "EMPTY"), (literal .null, "null"), (literal (.bool true), "true"), (literal (.bool false), "false")] ++
    Operator.all.map fun op => (operator op, op.text)

theorem mem_lexicon (h : tree.word? = some text) :
    (tree, text) ∈ lexicon ∨ ∃ value : Int64, tree = literal (.int value) ∧ text = toString value.toInt := by
  unfold word? at h
  split at h <;> cases h
  next op => exact .inl (List.mem_append_right _ (List.mem_map.2 ⟨op, Operator.mem_all op, rfl⟩))
  next value => exact .inr ⟨value, rfl, rfl⟩
  next value => cases value <;> simp [lexicon]
  next => simp [lexicon]
  next => simp [lexicon]

theorem nodup_lexicon : (lexicon.map Prod.snd).Nodup := by decide

theorem integer_ne_nil (value : Int) : (toString value).toList ≠ [] := by
  rw [Int.toString_eq_repr, Int.repr_eq_if]
  split
  · rw [Nat.toList_repr]
    exact Nat.toDigits_ne_nil
  · rw [String.toList_append]
    exact List.cons_ne_nil _ _

theorem isWordChar_of_word? (h : tree.word? = some text) : ∀ c ∈ text.toList, isWordChar c = true := by
  rcases mem_lexicon h with hmem | ⟨value, rfl, rfl⟩
  · have hall : ∀ entry ∈ lexicon.map Prod.snd, entry.toList.all isWordChar = true := by decide
    exact List.all_eq_true.1 (hall text (List.mem_map_of_mem hmem))
  · intro c hc
    rcases Decimal.mem_integer hc with rfl | hdigit
    · decide
    · rw [isWordChar, Char.isAlphanum, hdigit, Bool.or_true, Bool.true_or, Bool.true_or, Bool.true_or]

theorem ne_nil_of_word? (h : tree.word? = some text) : text.toList ≠ [] := by
  rcases mem_lexicon h with hmem | ⟨value, rfl, rfl⟩
  · have hall : ∀ entry ∈ lexicon.map Prod.snd, entry.toList ≠ [] := by decide
    exact hall text (List.mem_map_of_mem hmem)
  · exact integer_ne_nil _

/-- No word of the lexicon is a number. -/
theorem integer_not_mem_lexicon (value : Int) : (tree, toString value) ∉ lexicon := by
  intro hmem
  have hall : ∀ entry ∈ lexicon.map Prod.snd, (entry.toList.all fun c => c = '-' ∨ c.isDigit = true) = false := by
    decide
  have hdigits : (toString value).toList.all (fun c => c = '-' ∨ c.isDigit = true) = true :=
    List.all_eq_true.2 fun c hc => decide_eq_true (Decimal.mem_integer hc)
  rw [hall _ (List.mem_map_of_mem hmem)] at hdigits
  cases hdigits

/-- No two trees are written as the same word. -/
theorem word?_inj (h : tree.word? = some text) (h' : other.word? = some text) : tree = other := by
  rcases mem_lexicon h with hmem | ⟨value, rfl, rfl⟩
  · rcases mem_lexicon h' with hmem' | ⟨value, rfl, rfl⟩
    · exact congrArg Prod.fst (List.inj_on_of_nodup_map nodup_lexicon hmem hmem' rfl)
    · exact absurd hmem (integer_not_mem_lexicon _)
  · rcases mem_lexicon h' with hmem' | ⟨value', rfl, hsame⟩
    · exact absurd hmem' (integer_not_mem_lexicon _)
    · rw [Int.toString_eq_repr, Int.toString_eq_repr, Int.repr_inj, Int64.toInt_inj] at hsame
      rw [hsame]

/-! ## Plain trees -/

/-- A tree that holds neither floats nor spans. -/
inductive Plain : Tree → Prop
  | word {tree : Tree} {text : String} (h : tree.word? = some text) : Plain tree
  | quoted (text : String) : Plain (literal (.str text))
  | node {kind : NodeKind} {children : List Tree} (h : ∀ child ∈ children, Plain child) : Plain (node kind children)

/-- The text of the tree determines the tree and where it ends. -/
def Delimited (depth : Nat) (tree : Tree) : Prop :=
  ∀ other, Plain other → ∀ rest rest', Separated rest → Separated rest' →
    (tree.textAt depth).toList ++ rest = (other.textAt depth).toList ++ rest' → tree = other ∧ rest = rest'

/-! ## The form of a tree -/

inductive Form where
  | word
  | quoted
  | nested

def Form.ofHead (c : Char) : Form :=
  if c = '(' then .nested else if c = '"' then .quoted else .word

def form : Tree → Form
  | node .. => .nested
  | literal (.str _) => .quoted
  | _ => .word

theorem form_of_word? (h : tree.word? = some text) : tree.form = .word := by
  unfold word? at h
  split at h <;> cases h <;> rfl

theorem form_of_isWordChar {c : Char} (h : isWordChar c = true) : Form.ofHead c = .word := by
  rw [Form.ofHead, if_neg (ne_of_isWordChar h (by decide)), if_neg (ne_of_isWordChar h (by decide))]

def childLead (depth : Nat) (kind : NodeKind) : String := if kind = .block then statementLead (depth + 1) else " "

def childDepth (depth : Nat) (kind : NodeKind) : Nat := if kind = .block then depth + 1 else depth

theorem toList_textAt_node (depth : Nat) (kind : NodeKind) (children : List Tree) :
    ((node kind children).textAt depth).toList = '(' :: (kind.name.toList ++
      ((textsAt (childLead depth kind) (childDepth depth kind) children).toList ++ [')'])) := by
  have htext : (node kind children).textAt depth =
      "(" ++ kind.name ++ textsAt (childLead depth kind) (childDepth depth kind) children ++ ")" := by
    cases kind <;> rfl
  rw [htext]
  simp

theorem Plain.exists_head (h : tree.Plain) (depth : Nat) :
    ∃ c more, (tree.textAt depth).toList = c :: more ∧ Form.ofHead c = tree.form := by
  cases h with
  | @word _ word hword =>
    rw [textAt_of_word? hword, form_of_word? hword]
    have hchars := isWordChar_of_word? hword
    obtain ⟨c, more, hword⟩ := List.exists_cons_of_ne_nil (ne_nil_of_word? hword)
    rw [hword] at hchars ⊢
    exact ⟨c, more, rfl, form_of_isWordChar (hchars c List.mem_cons_self)⟩
  | quoted text => exact ⟨'"', _, toList_quote text, rfl⟩
  | node => exact ⟨'(', _, toList_textAt_node .., rfl⟩

theorem Plain.form_eq (h : tree.Plain) (h' : other.Plain) {depth : Nat} {rest rest' : List Char}
    (heq : (tree.textAt depth).toList ++ rest = (other.textAt depth).toList ++ rest') : tree.form = other.form := by
  obtain ⟨c, more, htext, hform⟩ := h.exists_head depth
  obtain ⟨c', more', htext', hform'⟩ := h'.exists_head depth
  rw [htext, htext'] at heq
  rw [← hform, ← hform', (List.cons.inj heq).1]

/-! ## Several trees -/

/-- What can stand before each of several trees: it parts them, but does not close the list. -/
def Leads (lead : String) : Prop := ∃ c more, lead.toList = c :: more ∧ separates c = true ∧ c ≠ ')'

theorem leads_childLead (depth : Nat) (kind : NodeKind) : Leads (childLead depth kind) := by
  unfold childLead statementLead
  split
  · exact ⟨'\n', _, String.toList_append .., by decide, by decide⟩
  · exact ⟨' ', [], rfl, by decide, by decide⟩

/-- After each tree comes the next lead or the parenthesis. -/
theorem separated_textsAt {lead : String} (hlead : Leads lead) (depth : Nat) (trees : List Tree) (rest : List Char) :
    Separated ((textsAt lead depth trees).toList ++ ')' :: rest) := by
  obtain ⟨c, more, hlead, hseparates, -⟩ := hlead
  cases trees with
  | nil => exact separated_cons (by decide)
  | cons =>
    rw [textsAt, String.toList_append, String.toList_append, hlead]
    exact separated_cons hseparates

theorem textsAt_cons_ne {lead : String} (hlead : Leads lead) {depth : Nat} {tree : Tree} {trees : List Tree}
    {rest rest' : List Char} : ')' :: rest ≠ (textsAt lead depth (tree :: trees)).toList ++ rest' := by
  obtain ⟨c, more, hlead, -, hclose⟩ := hlead
  rw [textsAt, String.toList_append, String.toList_append, hlead]
  exact fun h => hclose (List.cons.inj h).1.symm

/-- The text of several trees determines the trees and where it ends, if that is so of each tree. -/
theorem textsAt_append_inj {lead : String} (hlead : Leads lead) {depth : Nat} {trees others : List Tree}
    (h : ∀ tree ∈ trees, Delimited depth tree) (hothers : ∀ other ∈ others, Plain other) {rest rest' : List Char}
    (heq : (textsAt lead depth trees).toList ++ ')' :: rest = (textsAt lead depth others).toList ++ ')' :: rest') :
    trees = others ∧ rest = rest' := by
  induction trees generalizing others with
  | nil =>
    cases others with
    | nil => exact ⟨rfl, (List.cons.inj heq).2⟩
    | cons => exact absurd heq (textsAt_cons_ne hlead)
  | cons tree trees ih =>
    cases others with
    | nil => exact absurd heq.symm (textsAt_cons_ne hlead)
    | cons other others =>
      rw [List.forall_mem_cons] at h hothers
      simp only [textsAt, String.toList_append, List.append_assoc] at heq
      obtain ⟨rfl, hrest⟩ := h.1 other hothers.1 _ _ (separated_textsAt hlead depth trees rest)
        (separated_textsAt hlead depth others rest') (List.append_cancel_left heq)
      obtain ⟨rfl, hsame⟩ := ih h.2 hothers.2 hrest
      exact ⟨rfl, hsame⟩

/-! ## One tree -/

theorem delimited_word (h : tree.word? = some text) (depth : Nat) : Delimited depth tree := by
  intro other hother rest rest' hrest hrest' heq
  have hform := form_of_word? h ▸ (Plain.word h).form_eq hother heq
  cases hother with
  | word h' =>
    rw [textAt_of_word? h, textAt_of_word? h'] at heq
    obtain ⟨hsame, hrest⟩ := separated_append_inj (isWordChar_of_word? h) (isWordChar_of_word? h') hrest hrest' heq
    obtain rfl := String.toList_inj.1 hsame
    exact ⟨word?_inj h h', hrest⟩
  | quoted => cases hform
  | node => cases hform

theorem delimited_quoted (text : String) (depth : Nat) : Delimited depth (literal (.str text)) := by
  intro other hother rest rest' hrest hrest' heq
  have hform := (Plain.quoted text).form_eq hother heq
  cases hother with
  | word h' => cases hform.trans (form_of_word? h')
  | quoted text' =>
    obtain ⟨rfl, hrest⟩ := quote_append_inj heq
    exact ⟨rfl, hrest⟩
  | node => cases hform

theorem delimited_node {kind : NodeKind} {children : List Tree} (hplain : ∀ child ∈ children, Plain child) {depth : Nat}
    (h : ∀ child ∈ children, Delimited (childDepth depth kind) child) : Delimited depth (node kind children) := by
  intro other hother rest rest' hrest hrest' heq
  have hform := (Plain.node hplain).form_eq hother heq
  cases hother with
  | word h' => cases hform.trans (form_of_word? h')
  | quoted => cases hform
  | @node kind' children' hplain' =>
    simp only [toList_textAt_node, List.cons_append, List.append_assoc, List.nil_append, List.cons.injEq,
      true_and] at heq
    obtain ⟨hname, htexts⟩ := separated_append_inj kind.isWordChar_name kind'.isWordChar_name
      (separated_textsAt (leads_childLead depth kind) _ _ _) (separated_textsAt (leads_childLead depth kind') _ _ _) heq
    -- the same name is the same kind, so that the children are laid out alike
    obtain rfl := NodeKind.name_injective (String.toList_inj.1 hname)
    obtain ⟨rfl, hsame⟩ := textsAt_append_inj (leads_childLead depth kind) h hplain' htexts
    exact ⟨rfl, hsame⟩

/-- The text of a plain tree determines the tree and where it ends. -/
theorem Plain.delimited (h : tree.Plain) (depth : Nat) : Delimited depth tree := by
  induction h generalizing depth with
  | word h => exact delimited_word h depth
  | quoted text => exact delimited_quoted text depth
  | node h ih => exact delimited_node h fun child hmem => ih child hmem _

/-- No two plain trees have the same text. -/
theorem Plain.text_inj (h : tree.Plain) (h' : other.Plain) (htext : tree.text = other.text) : tree = other := by
  have heq : (tree.textAt 0).toList ++ [] = (other.textAt 0).toList ++ [] := congrArg (·.toList ++ []) htext
  exact (h.delimited 0 other h' [] [] nofun nofun heq).1

end Tree

end FunctionTrees
