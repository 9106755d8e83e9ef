import FunctionTrees.Proofs.Json.Number
import FunctionTrees.Proofs.Json.Text
import Mathlib.Data.List.DropRight

/-!
# Well-formed values are passed over

* `Numeral`, `Quoted`, `WellFormed` : the grammar of numbers, texts and values of any shape;
* `run_skipNumber`, `run_skipText` : numbers and texts of any form are passed over;
* `skipFrom_before`, `skipFrom_opened`, `skipFrom_behind` : the stages of passing over a value, by the next character;
* `Skips text`, `Element bracket text`, `skipFrom_commas` : elements between brackets are passed over, if each of them is;
* `skips_wellFormed`, `takes_skipValue` : so is any value, however deep its brackets are.
-/

set_option autoImplicit false

namespace FunctionTrees.Json

/-! ## Numbers -/

def Digits (text : List Char) : Prop := text ≠ [] ∧ ∀ c ∈ text, Reader.isDigit c = true

/-- The digits before the point, which begin with a zero only if there is no other. -/
def WholeDigits (text : List Char) : Prop := text = ['0'] ∨ Digits text ∧ text.head? ≠ some '0'

/-- What can stand behind them: a point and digits. -/
def Fraction (text : List Char) : Prop := text = [] ∨ ∃ digits, Digits digits ∧ text = '.' :: digits

/-- And what can stand behind that: an exponent, with a sign or without. -/
def Exponent (text : List Char) : Prop :=
  text = [] ∨ ∃ letter ∈ ['e', 'E'], ∃ sign : Option Char, (∀ c ∈ sign, c ∈ ['+', '-']) ∧
    ∃ digits, Digits digits ∧ text = letter :: (sign.toList ++ digits)

inductive Numeral : List Char → Prop
  | mk {sign : Option Char} {whole fraction exponent : List Char} (hsign : ∀ c ∈ sign, c ∈ ['-'])
    (hwhole : WholeDigits whole) (hfraction : Fraction fraction) (hexponent : Exponent exponent) :
    Numeral (sign.toList ++ (whole ++ (fraction ++ exponent)))

/-! ## Texts -/

def HexDigit (c : Char) : Prop := '0' ≤ c ∧ c ≤ '9' ∨ 'a' ≤ c ∧ c ≤ 'f' ∨ 'A' ≤ c ∧ c ≤ 'F'

/-- A character between quotes: as it is, or escaped by a letter or by a number. -/
inductive Quotable : List Char → Prop
  | plain {c : Char} (hquote : c ≠ '"') (hslash : c ≠ '\\') (hcontrol : ¬ c.toNat < 0x20) : Quotable [c]
  | letter {c : Char} (h : c ∈ ['"', '\\', '/', 'b', 'f', 'n', 'r', 't']) : Quotable ['\\', c]
  | number {quad : List Char} (hlength : quad.length = 4) (h : ∀ c ∈ quad, HexDigit c) : Quotable ('\\' :: 'u' :: quad)

def Quoted (text : List Char) : Prop :=
  ∃ pieces : List (List Char), (∀ piece ∈ pieces, Quotable piece) ∧ text = '"' :: (pieces.flatten ++ ['"'])

/-! ## Values -/

def Blanks (text : List Char) : Prop := ∀ c ∈ text, Reader.isBlank c = true

structure Padded where
  before : List Char
  part : List Char
  after : List Char
  blank_before : Blanks before
  blank_after : Blanks after

def Padded.text (padded : Padded) : List Char := padded.before ++ (padded.part ++ padded.after)

inductive WellFormed : List Char → Prop
  | null : WellFormed ['n', 'u', 'l', 'l']
  | yes : WellFormed ['t', 'r', 'u', 'e']
  | no : WellFormed ['f', 'a', 'l', 's', 'e']
  | number {text : List Char} (h : Numeral text) : WellFormed text
  | text {text : List Char} (h : Quoted text) : WellFormed text
  | emptyList {blanks : List Char} (h : Blanks blanks) : WellFormed ('[' :: (blanks ++ [']']))
  | list {elements : List Padded} (hsome : elements ≠ []) (h : ∀ element ∈ elements, WellFormed element.part) :
    WellFormed ('[' :: (Format.commas (elements.map Padded.text) ++ [']']))
  | emptyObject {blanks : List Char} (h : Blanks blanks) : WellFormed ('\x7b' :: (blanks ++ ['\x7d']))
  | object {members : List (Padded × Padded)} (hsome : members ≠ []) (hkey : ∀ member ∈ members, Quoted member.1.part)
    (h : ∀ member ∈ members, WellFormed member.2.part) :
    WellFormed ('\x7b' :: (Format.commas (members.map fun member => member.1.text ++ ':' :: member.2.text) ++ ['\x7d']))

namespace Reader

variable {text rest : List Char}

/-! ## Passing over numbers -/

theorem run_skipDigits (h : Digits text) (hrest : ∀ c ∈ rest.head?, isDigit c = false) :
    skipDigits.run (text ++ rest) = .done () rest := by
  rw [skipDigits, run_bind_done (run_digits h.2 hrest)]
  cases text with
  | nil => exact absurd rfl h.1
  | cons c text => rfl

theorem run_pass?_some {choices : List Char} {c : Char} (h : c ∈ choices) (rest : List Char) :
    (pass? choices).run (c :: rest) = .done (some c) rest := by
  rw [pass?, run_bind_peek]
  simp only [List.head?_cons, if_pos h]
  rfl

theorem run_skipWholeDigits (h : WholeDigits text) (hrest : ∀ c ∈ rest.head?, isDigit c = false) :
    skipWholeDigits.run (text ++ rest) = .done () rest := by
  rcases h with rfl | ⟨hdigits, hhead⟩
  · rw [skipWholeDigits, List.singleton_append, run_bind_done (run_pass?_some List.mem_cons_self rest)]
    show (peek >>= _).run rest = _
    rw [run_bind_peek]
    cases rest with
    | nil => rfl
    | cons c rest =>
      simp only [List.head?_cons, hrest c rfl]
      rfl
  · have hnone : (pass? ['0']).run (text ++ rest) = .done none (text ++ rest) := by
      refine run_pass?_none fun c hc hmem => hhead ?_
      obtain ⟨d, more, rfl⟩ := List.exists_cons_of_ne_nil hdigits.1
      cases hc
      rw [List.mem_singleton.1 hmem, List.head?_cons]
    rw [skipWholeDigits, run_bind_done hnone]
    exact run_skipDigits hdigits hrest

theorem head_digits (h : Digits text) (rest : List Char) : ∀ c ∈ (text ++ rest).head?, isDigit c = true := by
  obtain ⟨c, more, rfl⟩ := List.exists_cons_of_ne_nil h.1
  rintro d ⟨⟩
  exact h.2 _ List.mem_cons_self

/-- A sign that is there or not. -/
theorem run_sign {choices : List Char} {sign : Option Char} (hsign : ∀ c ∈ sign, c ∈ choices)
    (hrest : ∀ c ∈ rest.head?, c ∉ choices) : (pass? choices).run (sign.toList ++ rest) = .done sign rest := by
  cases sign with
  | none => exact run_pass?_none hrest
  | some c => exact run_pass?_some (hsign c rfl) rest

theorem run_skipFraction (more : Unit → Reader Unit) (h : Fraction text)
    (hrest : ∀ c ∈ rest.head?, isDigit c = false ∧ c ≠ '.') :
    (pass? ['.'] >>= fun point => if point.isSome then skipDigits >>= more else more ()).run (text ++ rest) =
      (more ()).run rest := by
  rcases h with rfl | ⟨digits, hdigits, rfl⟩
  · have hnone : (pass? ['.']).run rest = .done none rest :=
      run_pass?_none fun c hc hmem => (hrest c hc).2 (List.mem_singleton.1 hmem)
    rw [List.nil_append, run_bind_done hnone]
    rfl
  · have hrun := run_skipDigits hdigits fun c hc => (hrest c hc).1
    rw [List.cons_append, run_bind_done (run_pass?_some List.mem_cons_self _)]
    show (skipDigits >>= more).run _ = _
    rw [run_bind_done hrun]

theorem run_skipExponent (h : Exponent text) (hrest : Bounded rest) :
    (pass? ['e', 'E'] >>= fun letter => if letter.isSome then pass? ['+', '-'] >>= fun _ => skipDigits else pure ()).run
      (text ++ rest) = .done () rest := by
  rcases h with rfl | ⟨letter, hletter, sign, hsign, digits, hdigits, rfl⟩
  · have hnone : (pass? ['e', 'E']).run rest = .done none rest :=
      run_pass?_none fun c hc => by simp [(hrest.not_part hc).2]
    rw [List.nil_append, run_bind_done hnone]
    rfl
  · have hrun := run_skipDigits hdigits fun c hc => (hrest.not_part hc).1
    have hplain : ∀ c ∈ (digits ++ rest).head?, c ∉ ['+', '-'] := by
      intro c hc hmem
      have hdigit := head_digits hdigits rest c hc
      rcases List.mem_pair.1 hmem with rfl | rfl <;> exact absurd hdigit (by decide)
    rw [List.cons_append, List.append_assoc, run_bind_done (run_pass?_some hletter _)]
    show (pass? ['+', '-'] >>= fun _ => skipDigits).run _ = _
    rw [run_bind_done (run_sign hsign hplain), hrun]

theorem head_exponent (h : Exponent text) (hrest : Bounded rest) :
    ∀ c ∈ (text ++ rest).head?, isDigit c = false ∧ c ≠ '.' := by
  rcases h with rfl | ⟨letter, hletter, sign, -, digits, -, rfl⟩
  · exact fun c hc => ⟨(hrest.not_part hc).1, (hrest.not_part hc).2.1⟩
  · rintro c ⟨⟩
    rcases List.mem_pair.1 hletter with rfl | rfl <;> decide

/-- A number of any form is passed over. -/
theorem run_skipNumber (h : Numeral text) (hrest : Bounded rest) : skipNumber.run (text ++ rest) = .done () rest := by
  obtain @⟨sign, whole, fraction, exponent, hsign, hwhole, hfraction, hexponent⟩ := h
  have hletter := head_exponent hexponent hrest
  -- what comes behind the whole digits begins with no digit
  have hpoint : ∀ c ∈ (fraction ++ (exponent ++ rest)).head?, isDigit c = false := by
    rcases hfraction with rfl | ⟨digits, -, rfl⟩
    · exact fun c hc => (hletter c hc).1
    · rintro c ⟨⟩
      decide
  have hdigits : ∀ c ∈ (whole ++ (fraction ++ (exponent ++ rest))).head?, isDigit c = true := by
    rcases hwhole with rfl | ⟨hwhole, -⟩
    · rintro c ⟨⟩
      decide
    · exact head_digits hwhole _
  have hplain : ∀ c ∈ (whole ++ (fraction ++ (exponent ++ rest))).head?, c ∉ ['-'] := by
    intro c hc hmem
    rw [List.mem_singleton.1 hmem] at hc
    exact absurd (hdigits _ hc) (by decide)
  simp only [List.append_assoc]
  rw [skipNumber, run_bind_done (run_sign hsign hplain), run_bind_done (run_skipWholeDigits hwhole hpoint)]
  exact (run_skipFraction _ hfraction hletter).trans (run_skipExponent hexponent hrest)

/-! ## Passing over texts -/

theorem isSome_hexDigit? {c : Char} (h : HexDigit c) : (hexDigit? c).isSome := by
  unfold hexDigit?
  split_ifs
  · rfl
  · rfl
  · rfl
  · rcases h with h | h | h <;> contradiction

theorem exists_hexValue? {quad : List Char} (hlength : quad.length = 4) (h : ∀ c ∈ quad, HexDigit c) :
    ∃ value, hexValue? quad = some value := by
  match quad with
  | [a, b, c, d] =>
    simp only [List.forall_mem_cons, List.not_mem_nil, false_implies, implies_true, and_true] at h
    obtain ⟨ha, hb, hc, hd⟩ := h
    obtain ⟨a', ha⟩ := Option.isSome_iff_exists.1 (isSome_hexDigit? ha)
    obtain ⟨b', hb⟩ := Option.isSome_iff_exists.1 (isSome_hexDigit? hb)
    obtain ⟨c', hc⟩ := Option.isSome_iff_exists.1 (isSome_hexDigit? hc)
    obtain ⟨d', hd⟩ := Option.isSome_iff_exists.1 (isSome_hexDigit? hd)
    exact ⟨_, by rw [hexValue?, ha, hb, hc, hd]; rfl⟩

theorem skipTextFrom_escaped {chars : List Char} (h : skipEscaped.run chars = .done () rest) :
    skipTextFrom ('\\' :: chars) = skipTextFrom rest := by
  have hquote : ¬ '\\' = '"' := by decide
  conv_lhs => rw [skipTextFrom]
  simp only [if_neg hquote, if_true]
  split
  next hdone => cases h.symm.trans hdone; rfl
  next hstop => cases h.symm.trans hstop

theorem skipTextFrom_quotable (h : Quotable text) (rest : List Char) : skipTextFrom (text ++ rest) = skipTextFrom rest := by
  cases h with
  | @plain c hquote hslash hcontrol =>
    conv_lhs => rw [List.singleton_append, skipTextFrom]
    simp only [if_neg hquote, if_neg hslash, if_neg hcontrol]
  | @letter c hletter =>
    have hall : ['"', '\\', '/', 'b', 'f', 'n', 'r', 't'].all (fun c => c ≠ 'u' ∧ (lettered? c).isSome) := by decide
    obtain ⟨hnumber, hsome⟩ := of_decide_eq_true (List.all_eq_true.1 hall c hletter)
    refine skipTextFrom_escaped ?_
    show (peek >>= _).run (c :: rest) = _
    rw [run_bind_peek, List.head?_cons]
    simp only [if_neg hnumber, if_pos hsome]
    rfl
  | @number quad hlength hdigits =>
    obtain ⟨value, hvalue⟩ := exists_hexValue? hlength hdigits
    refine skipTextFrom_escaped ?_
    show (hexQuad >>= fun _ => pure ()).run (quad ++ rest) = _
    rw [run_bind_done (run_hexQuad hlength hvalue rest)]
    rfl

theorem skipTextFrom_pieces {pieces : List (List Char)} (h : ∀ piece ∈ pieces, Quotable piece) (rest : List Char) :
    skipTextFrom (pieces.flatten ++ '"' :: rest) = .done () rest := by
  induction pieces with
  | nil =>
    rw [List.flatten_nil, List.nil_append, skipTextFrom]
    rfl
  | cons piece pieces ih =>
    rw [List.forall_mem_cons] at h
    rw [List.flatten_cons, List.append_assoc, skipTextFrom_quotable h.1, ih h.2]

/-- A text of any form is passed over. -/
theorem run_skipText (h : Quoted text) (rest : List Char) :
    (do pass; skipTextBody).run (text ++ rest) = .done () rest := by
  obtain ⟨pieces, hpieces, rfl⟩ := h
  rw [List.cons_append, List.append_assoc, run_bind_pass, List.tail_cons]
  exact skipTextFrom_pieces hpieces rest

/-! ## Stages of passing over a value -/

section Stages

variable {chars : List Char} {bracket : Bracket} {outer : List Bracket} {c : Char}

theorem skipFrom_before (h : chars.dropWhile isBlank = c :: rest) : skipFrom .before outer chars =
    if c = '[' then skipFrom .opened (.list :: outer) rest
    else if c = '\x7b' then skipFrom .opened (.object :: outer) rest
    else
      match skipScalar.run (c :: rest) with
      | .done _ rest' => skipFrom .behind outer rest'
      | .stop fault rest' => .stop fault rest' := by
  conv_lhs => rw [skipFrom]
  split
  next hnone => cases h.symm.trans hnone
  next hmore =>
    cases h.symm.trans hmore
    split_ifs
    · rfl
    · rfl
    · dsimp only
      split
      next hdone => rw [hdone]
      next hstop => rw [hstop]

theorem skipFrom_opened (h : chars.dropWhile isBlank = c :: rest) : skipFrom .opened (bracket :: outer) chars =
    if c = bracket.closing then skipFrom .behind outer rest
    else
      match (skipLead bracket).run (c :: rest) with
      | .done _ rest' => skipFrom .before (bracket :: outer) rest'
      | .stop fault rest' => .stop fault rest' := by
  conv_lhs => rw [skipFrom]
  split
  next hnone => cases h.symm.trans hnone
  next hmore =>
    cases h.symm.trans hmore
    split_ifs
    · rfl
    · dsimp only
      split
      next hdone => rw [hdone]
      next hstop => rw [hstop]

theorem skipFrom_behind (h : chars.dropWhile isBlank = c :: rest) : skipFrom .behind (bracket :: outer) chars =
    if c = bracket.closing then skipFrom .behind outer rest
    else if c = ',' then
      match (skipLead bracket).run rest with
      | .done _ rest' => skipFrom .before (bracket :: outer) rest'
      | .stop fault rest' => .stop fault rest'
    else stopAt (.malformed bracket.slip) 1 (c :: rest) := by
  conv_lhs => rw [skipFrom]
  split
  next hnone => cases h.symm.trans hnone
  next hmore =>
    cases h.symm.trans hmore
    split_ifs
    · rfl
    · dsimp only
      split
      next hdone => rw [hdone]
      next hstop => rw [hstop]
    · rfl

def Bracket.opening : Bracket → Char
  | list => '['
  | object => '\x7b'

theorem skipFrom_before_opening (h : chars.dropWhile isBlank = bracket.opening :: rest) :
    skipFrom .before outer chars = skipFrom .opened (bracket :: outer) rest := by
  rw [skipFrom_before h]
  cases bracket <;> rfl

end Stages

/-! ## Elements between brackets -/

theorem dropWhile_blanks {blanks : List Char} (h : Blanks blanks) {c : Char} (hc : isBlank c = false) (rest : List Char) :
    (blanks ++ c :: rest).dropWhile isBlank = c :: rest := by
  rw [List.dropWhile_append_of_pos h, List.dropWhile_cons_of_neg (by simp [hc])]

theorem bounded_blanks {blanks : List Char} (h : Blanks blanks) (hrest : Bounded rest) : Bounded (blanks ++ rest) := by
  cases blanks with
  | nil => exact hrest
  | cons c blanks =>
    have hc : isBlank c = true := h c List.mem_cons_self
    have hends : continuesNumber c = false := by
      simp only [isBlank, decide_eq_true_eq] at hc
      rcases hc with rfl | rfl | rfl | rfl <;> decide
    exact bounded_cons hends _

/-- The value is passed over wherever it stands, with the blanks before it. -/
def Skips (text : List Char) : Prop :=
  ∀ outer chars rest, Bounded rest → chars.dropWhile isBlank = text ++ rest →
    skipFrom .before outer chars = skipFrom .behind outer rest

/-- What stands between brackets: behind what leads to it comes a value that is passed over, and blanks behind that. -/
def Element (bracket : Bracket) (text : List Char) : Prop :=
  ∀ rest, ∃ c more, (text ++ rest).dropWhile isBlank = c :: more ∧ c ≠ bracket.closing ∧
    ∀ chars, chars.dropWhile isBlank = c :: more → ∃ left part after, (skipLead bracket).run chars = .done () left ∧
      Skips part ∧ Blanks after ∧ left.dropWhile isBlank = part ++ (after ++ rest)

theorem closing_not_blank (bracket : Bracket) : isBlank bracket.closing = false := by cases bracket <;> decide

theorem closing_bounded (bracket : Bracket) : continuesNumber bracket.closing = false := by cases bracket <;> decide

section Elements

variable {bracket : Bracket} {outer : List Bracket} {texts : List (List Char)}

/-- All elements that follow, and the closing bracket. -/
theorem skipFrom_elements (h : ∀ text ∈ texts, Element bracket text) {blanks : List Char} (hblanks : Blanks blanks)
    (rest : List Char) :
    skipFrom .behind (bracket :: outer) (blanks ++ (trailed texts ++ bracket.closing :: rest)) =
      skipFrom .behind outer rest := by
  induction texts generalizing blanks with
  | nil =>
    have hclose := dropWhile_blanks hblanks (closing_not_blank bracket) rest
    exact (skipFrom_behind hclose).trans (if_pos rfl)
  | cons text texts ih =>
    rw [List.forall_mem_cons] at h
    have hbounded := bounded_trailed texts (closing_bounded bracket) rest
    obtain ⟨c, more, hdrop, -, hpasses⟩ := h.1 (trailed texts ++ bracket.closing :: rest)
    obtain ⟨left, part, after, hlead, hskips, hafter, hleft⟩ := hpasses _ hdrop
    have hcomma := dropWhile_blanks hblanks (c := ',') (by decide) (text ++ (trailed texts ++ bracket.closing :: rest))
    have hother : ',' ≠ bracket.closing := by cases bracket <;> decide
    rw [trailed_cons, List.append_assoc, List.cons_append, skipFrom_behind hcomma, if_neg hother, if_pos rfl, hlead]
    dsimp only
    rw [hskips _ _ _ (bounded_blanks hafter hbounded) hleft, ih h.2 hafter]

/-- All elements behind an opening bracket, and the closing one. -/
theorem skipFrom_commas (hsome : texts ≠ []) (h : ∀ text ∈ texts, Element bracket text) (rest : List Char) :
    skipFrom .opened (bracket :: outer) (Format.commas texts ++ bracket.closing :: rest) = skipFrom .behind outer rest := by
  obtain ⟨text, texts, rfl⟩ := List.exists_cons_of_ne_nil hsome
  rw [List.forall_mem_cons] at h
  have hbounded := bounded_trailed texts (closing_bounded bracket) rest
  obtain ⟨c, more, hdrop, hc, hpasses⟩ := h.1 (trailed texts ++ bracket.closing :: rest)
  have hself : (c :: more).dropWhile isBlank = c :: more := by
    rw [← hdrop, List.dropWhile_idempotent]
  obtain ⟨left, part, after, hlead, hskips, hafter, hleft⟩ := hpasses _ hself
  rw [commas_cons, List.append_assoc, skipFrom_opened hdrop, if_neg hc, hlead]
  dsimp only
  rw [hskips _ _ _ (bounded_blanks hafter hbounded) hleft, skipFrom_elements h.2 hafter]

end Elements

/-! ## Values -/

theorem starts_numeral (h : Numeral text) : ∃ c rest, text = c :: rest ∧ (c = '-' ∨ isDigit c = true) := by
  obtain @⟨sign, whole, fraction, exponent, hsign, hwhole, -, -⟩ := h
  cases sign with
  | some c => exact ⟨c, _, rfl, .inl (List.mem_singleton.1 (hsign c rfl))⟩
  | none =>
    rcases hwhole with rfl | ⟨⟨hsome, hdigits⟩, -⟩
    · exact ⟨'0', _, rfl, .inr rfl⟩
    · obtain ⟨c, more, rfl⟩ := List.exists_cons_of_ne_nil hsome
      exact ⟨c, _, rfl, .inr (hdigits c List.mem_cons_self)⟩

theorem starts_wellFormed (h : WellFormed text) : ∃ c rest, text = c :: rest ∧ StartsValue c := by
  cases h with
  | number h =>
    obtain ⟨c, rest, rfl, hc⟩ := starts_numeral h
    exact ⟨c, rest, rfl, hc.imp (fun hc => by simp [hc]) id⟩
  | text h =>
    obtain ⟨pieces, -, rfl⟩ := h
    exact ⟨_, _, rfl, .inl (by decide)⟩
  | _ => exact ⟨_, _, rfl, .inl (by decide)⟩

/-- A value that is neither a list nor an object. -/
theorem skips_scalar {c : Char} {more : List Char} (hlist : c ≠ '[') (hobject : c ≠ '\x7b')
    (h : skipScalar.Takes (c :: more) ()) : Skips (c :: more) := by
  intro outer chars rest hrest hchars
  have hrun := h rest hrest
  rw [List.cons_append] at hchars hrun
  rw [skipFrom_before hchars, if_neg hlist, if_neg hobject, hrun]

theorem skips_number (h : Numeral text) : Skips text := by
  obtain ⟨c, more, rfl, hc⟩ := starts_numeral h
  have hother : c ≠ '[' ∧ c ≠ '\x7b' ∧ c ≠ 'n' ∧ c ≠ 't' ∧ c ≠ 'f' ∧ c ≠ '"' := by
    refine ⟨?_, ?_, ?_, ?_, ?_, ?_⟩ <;> rintro rfl <;> exact absurd hc (by decide)
  obtain ⟨hlist, hobject, hnull, hyes, hno, hquote⟩ := hother
  refine skips_scalar hlist hobject fun rest hrest => ?_
  have hrun := run_skipNumber h hrest
  show (peek >>= _).run (c :: (more ++ rest)) = _
  rw [run_bind_peek, List.head?_cons]
  simp only [if_neg hnull, if_neg hyes, if_neg hno, if_neg hquote, if_pos hc]
  exact hrun

theorem skips_text (h : Quoted text) : Skips text := by
  have hrun := run_skipText h
  obtain ⟨pieces, -, rfl⟩ := h
  exact skips_scalar (by decide) (by decide) fun rest _ => hrun rest

theorem element_value {value : Padded} (hstarts : ∃ c rest, value.part = c :: rest ∧ StartsValue c)
    (h : Skips value.part) : Element .list value.text := by
  intro rest
  obtain ⟨c, more, hpart, hstarts⟩ := hstarts
  have hdrop := dropWhile_blanks value.blank_before hstarts.not_blank (more ++ (value.after ++ rest))
  refine ⟨c, more ++ (value.after ++ rest), ?_, hstarts.ne_close, fun chars hchars => ?_⟩
  · rw [Padded.text, hpart, List.append_assoc, List.append_assoc]
    exact hdrop
  · refine ⟨chars, value.part, value.after, rfl, h, value.blank_after, ?_⟩
    rw [hchars, hpart]
    rfl

/-- The key of an entry is passed over with the colon behind it. -/
theorem run_skipLead {key : Padded} (hkey : Quoted key.part) {chars : List Char} (left : List Char)
    (hchars : chars.dropWhile isBlank = key.part ++ (key.after ++ ':' :: left)) :
    (skipLead .object).run chars = .done () left := by
  have hrun := run_skipText hkey (key.after ++ ':' :: left)
  have hcolon : colon.run (key.after ++ ':' :: left) = .done () left := by
    have hnext : next.run (key.after ++ ':' :: left) = .done (some ':') (':' :: left) := by
      rw [next]
      simp only [dropWhile_blanks key.blank_after (c := ':') (by decide) left, List.head?_cons]
    rw [colon, run_bind_done hnext]
    rfl
  obtain ⟨pieces, -, hpart⟩ := hkey
  have hnext : next.run chars = .done (some '"') (key.part ++ (key.after ++ ':' :: left)) := by
    rw [next]
    simp only [hchars, hpart, List.cons_append, List.head?_cons]
  rw [run_bind_pass] at hrun
  rw [skipLead, run_bind_done hnext]
  show (pass >>= fun _ => skipTextBody >>= fun _ => colon).run _ = _
  rw [run_bind_pass, run_bind_done hrun, hcolon]

theorem element_member {key value : Padded} (hkey : Quoted key.part)
    (hstarts : ∃ c rest, value.part = c :: rest ∧ StartsValue c) (h : Skips value.part) :
    Element .object (key.text ++ ':' :: value.text) := by
  intro rest
  obtain ⟨c, more, hpart, hstarts⟩ := hstarts
  have hlead := @run_skipLead key hkey
  have hvalue := dropWhile_blanks value.blank_before hstarts.not_blank (more ++ (value.after ++ rest))
  obtain ⟨pieces, -, hquoted⟩ := hkey
  have hdrop := dropWhile_blanks key.blank_before (c := '"') (by decide)
    (pieces.flatten ++ '"' :: (key.after ++ ':' :: (value.text ++ rest)))
  refine ⟨'"', pieces.flatten ++ '"' :: (key.after ++ ':' :: (value.text ++ rest)), ?_, by decide, fun chars hchars => ?_⟩
  · rw [← hdrop]
    simp [Padded.text, hquoted]
  · refine ⟨value.text ++ rest, value.part, value.after, hlead _ ?_, h, value.blank_after, ?_⟩
    · rw [hchars, hquoted]
      simp
    · rw [Padded.text, hpart, List.append_assoc, List.append_assoc]
      exact hvalue

theorem skips_empty (bracket : Bracket) {blanks : List Char} (h : Blanks blanks) :
    Skips (bracket.opening :: (blanks ++ [bracket.closing])) := by
  intro outer chars rest _ hchars
  rw [List.cons_append, List.append_assoc] at hchars
  have hclose := dropWhile_blanks h (closing_not_blank bracket) rest
  exact (skipFrom_before_opening hchars).trans ((skipFrom_opened hclose).trans (if_pos rfl))

theorem skips_elements (bracket : Bracket) {texts : List (List Char)} (hsome : texts ≠ [])
    (h : ∀ text ∈ texts, Element bracket text) : Skips (bracket.opening :: (Format.commas texts ++ [bracket.closing])) := by
  intro outer chars rest _ hchars
  rw [List.cons_append, List.append_assoc] at hchars
  exact (skipFrom_before_opening hchars).trans (skipFrom_commas hsome h rest)

/-- A value of any shape is passed over wherever it stands. -/
theorem skips_wellFormed (h : WellFormed text) : Skips text := by
  induction h with
  | null => exact skips_scalar (by decide) (by decide) fun rest _ => rfl
  | yes => exact skips_scalar (by decide) (by decide) fun rest _ => rfl
  | no => exact skips_scalar (by decide) (by decide) fun rest _ => rfl
  | number h => exact skips_number h
  | text h => exact skips_text h
  | emptyList h => exact skips_empty .list h
  | list hsome h ih =>
    refine skips_elements .list (mt List.map_eq_nil_iff.1 hsome) (List.forall_mem_map.2 fun element hmem => ?_)
    exact element_value (starts_wellFormed (h element hmem)) (ih element hmem)
  | emptyObject h => exact skips_empty .object h
  | object hsome hkey h ih =>
    refine skips_elements .object (mt List.map_eq_nil_iff.1 hsome) (List.forall_mem_map.2 fun member hmem => ?_)
    exact element_member (hkey member hmem) (starts_wellFormed (h member hmem)) (ih member hmem)

/-- A value of any shape is passed over as a whole. -/
theorem takes_skipValue (h : WellFormed text) : skipValue.Takes text () := by
  intro rest hrest
  have hskips := skips_wellFormed h
  obtain ⟨c, more, rfl, hstarts⟩ := starts_wellFormed h
  have hself : (c :: (more ++ rest)).dropWhile isBlank = c :: (more ++ rest) :=
    List.dropWhile_cons_of_neg (by simp [hstarts.not_blank])
  exact (hskips [] _ rest hrest hself).trans (by rw [skipFrom]; intro h; cases h)

end Reader

end FunctionTrees.Json
