import FunctionTrees.Text.Quoted
import Mathlib.Tactic.SplitIfs

/-!
# Texts that are told from what follows them

* `word_append_inj` : a word ends before the first character that can follow one;
* `Hexadecimal.toDigits_inj`, `Hexadecimal.ne_of_mem_toDigits` : the digits of a number determine it, and hold no brace;
* `Escaped c chars` : the ways to write a character; `escaped_escape` : it is written in one of them;
* `escape_append_inj` : a written character determines the character and where its text ends;
* `quote_append_inj` : a quoted text determines the text and where the quotation ends.
-/

set_option autoImplicit false

namespace FunctionTrees.Text

/-! ## Words -/

/-- A word that holds no character that can follow it determines where it ends. -/
theorem word_append_inj (Stops : Char → Prop) {word word' rest rest' : List Char} (h : ∀ c ∈ word, ¬ Stops c)
    (h' : ∀ c ∈ word', ¬ Stops c) (hrest : ∀ c ∈ rest.head?, Stops c) (hrest' : ∀ c ∈ rest'.head?, Stops c)
    (heq : word ++ rest = word' ++ rest') : word = word' ∧ rest = rest' := by
  induction word generalizing word' with
  | nil =>
    cases word' with
    | nil => exact ⟨rfl, heq⟩
    | cons c' word' =>
      obtain rfl : rest = c' :: (word' ++ rest') := heq
      exact absurd (hrest c' rfl) (h' c' List.mem_cons_self)
  | cons c word ih =>
    cases word' with
    | nil =>
      obtain rfl : c :: (word ++ rest) = rest' := heq
      exact absurd (hrest' c rfl) (h c List.mem_cons_self)
    | cons c' word' =>
      rw [List.forall_mem_cons] at h h'
      obtain ⟨rfl, htail⟩ := List.cons.inj heq
      obtain ⟨rfl, hsame⟩ := ih h.2 h'.2 htail
      exact ⟨rfl, hsame⟩

/-! ## Hexadecimal digits -/

namespace Hexadecimal

theorem digitChar_inj : ∀ m < 16, ∀ n < 16, Nat.digitChar m = Nat.digitChar n → m = n := by decide

/-- No character but the sixteen is a digit. -/
theorem ne_of_mem_toDigits {d : Char} (hd : ∀ n < 16, Nat.digitChar n ≠ d) {n : Nat} {c : Char}
    (h : c ∈ Nat.toDigits 16 n) : c ≠ d := by
  induction n using Nat.strongRecOn with
  | _ n ih =>
    rw [Nat.toDigits_eq_if (by decide)] at h
    split at h
    next hlt =>
      rw [List.mem_singleton.1 h]
      exact hd n hlt
    next hge =>
      rcases List.mem_append.1 h with hmem | hlast
      · exact ih (n / 16) (by omega) hmem
      · rw [List.mem_singleton.1 hlast]
        exact hd _ (Nat.mod_lt n (by decide))

theorem ne_brace {n : Nat} {c : Char} (h : c ∈ Nat.toDigits 16 n) : c ≠ '\x7d' := ne_of_mem_toDigits (by decide) h

/-- No number of one digit has the digits of one with more. -/
theorem ne_toDigits_concat {n : Nat} {c d : Char} : [c] ≠ Nat.toDigits 16 n ++ [d] := by
  intro h
  have hnil : [] = Nat.toDigits 16 n := (List.append_inj' (show [] ++ [c] = _ from h) rfl).1
  exact Nat.toDigits_ne_nil hnil.symm

theorem toDigits_inj {m n : Nat} (h : Nat.toDigits 16 m = Nat.toDigits 16 n) : m = n := by
  induction m using Nat.strongRecOn generalizing n with
  | _ m ih =>
    rw [Nat.toDigits_eq_if (by decide), Nat.toDigits_eq_if (n := n) (by decide)] at h
    split at h <;> split at h
    next hm hn => exact digitChar_inj m hm n hn (List.singleton_inj.1 h)
    next => exact absurd h ne_toDigits_concat
    next => exact absurd h.symm ne_toDigits_concat
    next hm hn =>
      obtain ⟨hdigits, hlast⟩ := List.append_inj' h rfl
      have hdiv : m / 16 = n / 16 := ih (m / 16) (by omega) hdigits
      have hmod : m % 16 = n % 16 := digitChar_inj _ (Nat.mod_lt m (by decide)) _ (Nat.mod_lt n (by decide))
        (List.singleton_inj.1 hlast)
      omega

end Hexadecimal

/-! ## Characters -/

/-- The characters that are written as a backslash and a letter of their own. -/
def shortEscapes : List (Char × Char) :=
  [('"', '"'), ('\\', '\\'), ('\n', 'n'), ('\r', 'r'), ('\t', 't'), ('\x00', '0')]

/-- The ways to write a character between quotes. -/
inductive Escaped (c : Char) : List Char → Prop
  | plain (hquote : c ≠ '"') (hslash : c ≠ '\\') : Escaped c [c]
  | short {letter : Char} (h : (c, letter) ∈ shortEscapes) : Escaped c ['\\', letter]
  | hex : Escaped c ('\\' :: 'u' :: '\x7b' :: Nat.toDigits 16 c.toNat ++ ['\x7d'])

theorem escaped_escape (c : Char) : Escaped c (escape c) := by
  unfold escape
  split_ifs with hquote hslash hnewline hreturn htab hzero hprintable
  · exact .short (by rw [hquote]; decide)
  · exact .short (by rw [hslash]; decide)
  · exact .short (by rw [hnewline]; decide)
  · exact .short (by rw [hreturn]; decide)
  · exact .short (by rw [htab]; decide)
  · exact .short (by rw [hzero]; decide)
  · exact .plain hquote hslash
  · exact .hex

namespace Escaped

variable {c c' : Char} {chars chars' rest rest' : List Char}

/-- No character is written as a quote and more. -/
theorem exists_head (h : Escaped c chars) : ∃ first more, chars = first :: more ∧ first ≠ '"' := by
  cases h with
  | plain hquote _ => exact ⟨c, [], rfl, hquote⟩
  | short _ => exact ⟨'\\', _, rfl, by decide⟩
  | hex => exact ⟨'\\', _, rfl, by decide⟩

theorem short_inj : ∀ entry ∈ shortEscapes, ∀ other ∈ shortEscapes, entry.2 = other.2 → entry.1 = other.1 := by decide

theorem short_ne : ∀ entry ∈ shortEscapes, entry.2 ≠ 'u' := by decide

/-- A written character determines the character and where its text ends. -/
theorem append_inj (h : Escaped c chars) (h' : Escaped c' chars') (heq : chars ++ rest = chars' ++ rest') :
    c = c' ∧ rest = rest' := by
  cases h with
  | plain _ hslash =>
    cases h' with
    | plain => exact List.cons.inj heq
    | short => exact absurd (List.cons.inj heq).1 hslash
    | hex => exact absurd (List.cons.inj heq).1 hslash
  | short hmem =>
    cases h' with
    | plain _ hslash => exact absurd (List.cons.inj heq).1.symm hslash
    | short hmem' =>
      obtain ⟨hletter, hrest⟩ := List.cons.inj (List.cons.inj heq).2
      exact ⟨short_inj _ hmem _ hmem' hletter, hrest⟩
    | hex => exact absurd (List.cons.inj (List.cons.inj heq).2).1 (short_ne _ hmem)
  | hex =>
    cases h' with
    | plain _ hslash => exact absurd (List.cons.inj heq).1.symm hslash
    | short hmem' => exact absurd (List.cons.inj (List.cons.inj heq).2).1.symm (short_ne _ hmem')
    | hex =>
      simp only [List.cons_append, List.append_assoc, List.cons.injEq, true_and] at heq
      obtain ⟨hsame, hrest⟩ := word_append_inj (· = '\x7d') (fun _ => Hexadecimal.ne_brace)
        (fun _ => Hexadecimal.ne_brace) (by simp) (by simp) heq
      exact ⟨Char.toNat_inj.1 (Hexadecimal.toDigits_inj hsame), (List.cons.inj hrest).2⟩

end Escaped

theorem escape_append_inj {c c' : Char} {rest rest' : List Char} (h : escape c ++ rest = escape c' ++ rest') :
    c = c' ∧ rest = rest' :=
  (escaped_escape c).append_inj (escaped_escape c') h

/-! ## Texts -/

/-- What is written up to the closing quote determines the text. -/
theorem escapes_append_inj {chars chars' rest rest' : List Char}
    (h : chars.flatMap escape ++ '"' :: rest = chars'.flatMap escape ++ '"' :: rest') :
    chars = chars' ∧ rest = rest' := by
  induction chars generalizing chars' with
  | nil =>
    cases chars' with
    | nil => exact ⟨rfl, (List.cons.inj h).2⟩
    | cons c' _ =>
      obtain ⟨first, more, hfirst, hquote⟩ := (escaped_escape c').exists_head
      rw [List.flatMap_cons, hfirst] at h
      exact absurd (List.cons.inj h).1.symm hquote
  | cons c chars ih =>
    cases chars' with
    | nil =>
      obtain ⟨first, more, hfirst, hquote⟩ := (escaped_escape c).exists_head
      rw [List.flatMap_cons, hfirst] at h
      exact absurd (List.cons.inj h).1 hquote
    | cons c' chars' =>
      rw [List.flatMap_cons, List.flatMap_cons, List.append_assoc, List.append_assoc] at h
      obtain ⟨rfl, hrest⟩ := escape_append_inj h
      obtain ⟨rfl, hsame⟩ := ih hrest
      exact ⟨rfl, hsame⟩

theorem toList_quote (text : String) : (quote text).toList = '"' :: text.toList.flatMap escape ++ ['"'] :=
  String.toList_ofList

/-- A quoted text determines the text and where the quotation ends. -/
theorem quote_append_inj {text text' : String} {rest rest' : List Char}
    (h : (quote text).toList ++ rest = (quote text').toList ++ rest') : text = text' ∧ rest = rest' := by
  rw [toList_quote, toList_quote, List.append_assoc, List.append_assoc] at h
  obtain ⟨hchars, hrest⟩ := escapes_append_inj (List.cons.inj h).2
  exact ⟨String.toList_inj.1 hchars, hrest⟩

end FunctionTrees.Text
