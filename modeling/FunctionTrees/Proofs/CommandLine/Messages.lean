import FunctionTrees.CommandLine.Options
import Mathlib.Data.List.Basic

/-!
# What is said of a command line that cannot be read

* `Edited edits word target` : at most so many edits turn one word into another; `isNear_iff` : this is decided letter by
  letter;
* `closest?_eq_some` : of the long options, one is suggested that the fewest edits lead to; `ofText?_eq_some` : what is
  suggested is an option of the tool, in another spelling;
* `visible letters` : the letters that show; `visible_inLines` : a message in lines shows what its phrases show.
-/

set_option autoImplicit false

namespace FunctionTrees

/-! ## Words that differ little -/

namespace CommandLine

/-- At most so many edits, each of letters that no other has touched, turn a word into another. -/
inductive Edited : Nat → List Char → List Char → Prop
  | done (edits : Nat) : Edited edits [] []
  | keep {edits : Nat} {word target : List Char} (c : Char) (h : Edited edits word target) :
    Edited edits (c :: word) (c :: target)
  | drop {edits : Nat} {word target : List Char} (c : Char) (h : Edited edits word target) :
    Edited (edits + 1) (c :: word) target
  | put {edits : Nat} {word target : List Char} (c : Char) (h : Edited edits word target) :
    Edited (edits + 1) word (c :: target)
  | change {edits : Nat} {word target : List Char} (c d : Char) (h : Edited edits word target) :
    Edited (edits + 1) (c :: word) (d :: target)
  | swap {edits : Nat} {word target : List Char} (c d : Char) (h : Edited edits word target) :
    Edited (edits + 1) (c :: d :: word) (d :: c :: target)

namespace Edited

variable {edits more : Nat} {word target : List Char} {c : Char}

theorem symm (h : Edited edits word target) : Edited edits target word := by
  induction h with
  | done edits => exact .done edits
  | keep c _ ih => exact .keep c ih
  | drop c _ ih => exact .put c ih
  | put c _ ih => exact .drop c ih
  | change c d _ ih => exact .change d c ih
  | swap c d _ ih => exact .swap d c ih

theorem succ (h : Edited edits word target) : Edited (edits + 1) word target := by
  induction h with
  | done edits => exact .done (edits + 1)
  | keep c _ ih => exact .keep c ih
  | drop c _ ih => exact .drop c ih
  | put c _ ih => exact .put c ih
  | change c d _ ih => exact .change c d ih
  | swap c d _ ih => exact .swap c d ih

theorem refl (word : List Char) : Edited edits word word := by
  induction word with
  | nil => exact .done edits
  | cons c word ih => exact .keep c ih

theorem length_le (h : Edited edits word target) : target.length ≤ word.length + edits := by
  induction h <;> simp only [List.length_cons, List.length_nil] at * <;> omega

theorem of_length_le (h : target.length ≤ edits) : Edited edits [] target := by
  induction target generalizing edits with
  | nil => exact .done edits
  | cons c target ih =>
    obtain _ | edits := edits
    · cases h
    · exact .put c (ih (Nat.le_of_succ_le_succ h))

theorem eq_of_zero (h : Edited 0 word target) : word = target := by
  generalize hzero : 0 = edits at h
  induction h with
  | done => rfl
  | keep c _ ih => rw [ih hzero]
  | _ => cases hzero

/-- A letter less in the target takes one edit more. -/
theorem tail_target (h : Edited edits word (c :: target)) : Edited (edits + 1) word target := by
  generalize hletters : c :: target = letters at h
  induction h generalizing c target with
  | done => cases hletters
  | keep d h _ =>
    cases hletters
    exact .drop d h
  | drop d _ ih => exact .drop d (ih hletters)
  | put d h _ =>
    cases hletters
    exact h.succ.succ
  | change d e h _ =>
    cases hletters
    exact .drop d h.succ
  | swap d e h _ =>
    cases hletters
    exact (Edited.keep d (.drop e h)).succ

/-- No edit of an equal first letter gains anything. -/
theorem tail (h : Edited edits (c :: word) (c :: target)) : Edited edits word target := by
  cases h with
  | keep _ h => exact h
  | drop _ h => exact h.tail_target
  | put _ h => exact h.symm.tail_target.symm
  | change _ _ h => exact h.succ
  | swap _ _ h => exact (Edited.keep c h).succ

/-- The first edit where the first letters differ. -/
theorem cons_iff {d : Char} (hne : c ≠ d) : Edited (edits + 1) (c :: word) (d :: target) ↔
    Edited edits word (d :: target) ∨ Edited edits (c :: word) target ∨ Edited edits word target ∨
      ∃ word' target', word = d :: word' ∧ target = c :: target' ∧ Edited edits word' target' := by
  constructor
  · intro h
    cases h with
    | keep => exact absurd rfl hne
    | drop _ h => exact .inl h
    | put _ h => exact .inr (.inl h)
    | change _ _ h => exact .inr (.inr (.inl h))
    | swap _ _ h => exact .inr (.inr (.inr ⟨_, _, rfl, rfl, h⟩))
  · rintro (h | h | h | ⟨_, _, rfl, rfl, h⟩)
    · exact .drop c h
    · exact .put d h
    · exact .change c d h
    · exact .swap c d h

end Edited

theorem isNear_iff (edits : Nat) (word target : List Char) :
    isNear edits word target = true ↔ Edited edits word target := by
  fun_induction isNear edits word target with
  | case1 edits target =>
    rw [decide_eq_true_iff]
    exact ⟨Edited.of_length_le, fun h => by simpa using h.length_le⟩
  | case2 edits word =>
    rw [decide_eq_true_iff]
    exact ⟨fun h => (Edited.of_length_le h).symm, fun h => by simpa using h.symm.length_le⟩
  | case3 word target =>
    rw [decide_eq_true_iff]
    exact ⟨fun h => h ▸ Edited.refl word, Edited.eq_of_zero⟩
  | case4 edits word c target ih =>
    rw [ih]
    exact ⟨.keep c, Edited.tail⟩
  | case5 edits c word d target hne hdrop hput hchange hswap =>
    rw [Edited.cons_iff hne, Bool.or_eq_true, Bool.or_eq_true, Bool.or_eq_true, hdrop, hput, hchange, or_assoc, or_assoc]
    refine or_congr_right (or_congr_right (or_congr_right ?_))
    cases word with
    | nil => simp
    | cons e word =>
      cases target with
      | nil => simp
      | cons f target =>
        change _ ↔ _ at hswap
        simp only [Bool.and_eq_true, decide_eq_true_iff, hswap, List.cons.injEq]
        constructor
        · rintro ⟨⟨rfl, rfl⟩, h⟩
          exact ⟨word, target, ⟨rfl, rfl⟩, ⟨rfl, rfl⟩, h⟩
        · rintro ⟨_, _, ⟨rfl, rfl⟩, ⟨rfl, rfl⟩, h⟩
          exact ⟨⟨rfl, rfl⟩, h⟩

/-! ## Suggestions -/

namespace Suggestion

variable {text : String} {suggestion : Suggestion}

theorem mem_before_of_range {count number fewer : Nat} {before after : List Nat}
    (h : List.range count = before ++ number :: after) (hless : fewer < number) : fewer ∈ before := by
  have hrising : (List.range count).Pairwise (· < ·) := List.pairwise_lt_range
  have hnumber : number ∈ List.range count := h ▸ List.mem_append_right _ List.mem_cons_self
  have hmem : fewer ∈ List.range count := List.mem_range.2 (Nat.lt_trans hless (List.mem_range.1 hnumber))
  rw [h] at hrising hmem
  obtain hmem | hmem | ⟨_, hmem⟩ := List.mem_append.1 hmem
  · exact hmem
  · omega
  · have hlater := (List.pairwise_cons.1 (List.pairwise_append.1 hrising).2.1).1 fewer hmem
    omega

/-- The edits that lead to the suggested option are few, and no fewer lead to another option. -/
theorem closest?_eq_some (h : closest? text = some suggestion) : ∃ setting ∈ Setting.ofRun, ∃ edits,
    suggestion = ⟨.long setting.word, ""⟩ ∧ (OptionName.long setting.word).text ≠ text ∧ edits ≤ maxEdits ∧
      edits < text.length ∧ Edited edits text.toList (OptionName.long setting.word).text.toList ∧
      ∀ other ∈ Setting.ofRun, (OptionName.long other.word).text ≠ text → ∀ fewer < edits,
        ¬ Edited fewer text.toList (OptionName.long other.word).text.toList := by
  unfold closest? at h
  obtain ⟨name, hname, rfl⟩ := Option.map_eq_some_iff.1 h
  rw [List.findSome?_eq_some_iff] at hname
  obtain ⟨before, edits, after, hrange, hfound, hfewer⟩ := hname
  have hnear : isNear edits text.toList name.text.toList = true := by
    simpa only using List.find?_some hfound
  have hmem := List.mem_of_find?_eq_some hfound
  rw [List.mem_filter, List.mem_map, decide_eq_true_iff] at hmem
  obtain ⟨⟨setting, hsetting, rfl⟩, hother⟩ := hmem
  have hlimit : edits < min text.length (maxEdits + 1) := by
    rw [← List.mem_range, hrange]
    exact List.mem_append_right _ List.mem_cons_self
  rw [Nat.lt_min] at hlimit
  refine ⟨setting, hsetting, edits, rfl, hother, Nat.le_of_lt_succ hlimit.2, hlimit.1,
    (isNear_iff _ _ _).1 hnear, fun other hmem hname fewer hless hedited => ?_⟩
  have hnone := List.find?_eq_none.1 (hfewer fewer (mem_before_of_range hrange hless)) (.long other.word)
    (List.mem_filter.2 ⟨List.mem_map_of_mem hmem, decide_eq_true hname⟩)
  exact hnone ((isNear_iff _ _ _).2 hedited)

theorem ne_of_more_dashes (name : String) : "-" ++ name ≠ "--" ++ name := by
  intro heq
  have hlength := congrArg String.length heq
  rw [String.length_append, String.length_append] at hlength
  exact absurd (Nat.add_right_cancel hlength) (by decide)

/-- What is suggested is an option of the tool, spelled in another way. -/
theorem ofText?_eq_some (h : ofText? text = some suggestion) :
    ∃ setting ∈ Setting.ofRun, setting.isNamed suggestion.meant = true ∧ suggestion.meant.text ≠ text := by
  unfold ofText? at h
  simp only [Option.orElse_eq_orElse, Option.orElse_eq_or, Option.or_eq_some_iff] at h
  obtain h | ⟨-, h | ⟨-, h⟩⟩ := h
  · obtain ⟨setting, hfound, rfl⟩ := Option.map_eq_some_iff.1 h
    refine ⟨setting, List.mem_of_find?_eq_some hfound, decide_eq_true rfl, ?_⟩
    have htext := List.find?_some hfound
    rw [of_decide_eq_true htext]
    exact ne_of_more_dashes _
  · obtain ⟨setting, hfound, rfl⟩ := Option.map_eq_some_iff.1 h
    refine ⟨setting, List.mem_of_find?_eq_some hfound, decide_eq_true rfl, ?_⟩
    have htext := List.find?_some hfound
    rw [of_decide_eq_true htext]
    exact (ne_of_more_dashes _).symm
  · obtain ⟨setting, hsetting, -, rfl, hother, -⟩ := closest?_eq_some h
    exact ⟨setting, hsetting, decide_eq_true rfl, hother⟩

end Suggestion

end CommandLine

/-! ## Messages in lines -/

namespace Text

/-- The letters that show. -/
def visible (letters : List Char) : List Char := letters.filter fun c => !isSpace c

def Phrase.letters : Phrase → List Char
  | plain text => text.toList
  | ticked text => '\x60' :: text.toList ++ ['\x60']

theorem visible_append (first second : List Char) : visible (first ++ second) = visible first ++ visible second :=
  List.filter_append first second

def Chunk.letters : Chunk → List Char
  | piece letters _ => letters
  | lineBreak => []

theorem visible_cons {c : Char} (hspace : isSpace c = true) (letters : List Char) :
    visible (c :: letters) = visible letters :=
  List.filter_cons_of_neg (by simp [hspace])

theorem visible_reverse (letters : List Char) : visible letters.reverse = (visible letters).reverse :=
  List.filter_reverse

theorem visible_dropWhile (letters : List Char) : visible (letters.dropWhile isSpace) = visible letters := by
  induction letters with
  | nil => rfl
  | cons c letters ih =>
    rw [List.dropWhile_cons]
    split_ifs with hspace
    · rw [ih, visible_cons hspace]
    · rfl

/-- Between the parts of a phrase there is nothing but white space. -/
theorem visible_chunksOf (chars : List Char) : visible ((chunksOf chars).flatMap Chunk.letters) = visible chars := by
  have hbreak := visible_cons (c := '\n') (by decide)
  have hblank := visible_cons (c := ' ') (by decide)
  fun_induction chunksOf chars with
  | case1 => rfl
  | case2 rest ih =>
    rw [List.flatMap_cons, visible_append, ih, Chunk.letters, ← visible_append, List.takeWhile_append_dropWhile]
    simp only [hbreak, hblank]
  | case3 rest ih =>
    rw [List.flatMap_cons, visible_append, ih, hbreak]
    rfl
  | case4 rest _ ih =>
    rw [List.flatMap_cons, visible_append, ih, hbreak, hbreak]
    rfl
  | case5 rest _ ih =>
    rw [List.flatMap_cons, visible_append, ih, hbreak, hblank]
    rfl
  | case6 rest _ _ _ _ ih =>
    rw [List.flatMap_cons, visible_append, ih, Chunk.letters, hblank, hbreak]
    rfl
  | case7 rest ih =>
    rw [List.flatMap_cons, visible_append, ih, Chunk.letters, hblank, hblank]
    rfl
  | case8 c rest _ _ _ _ _ _ ih =>
    rw [List.flatMap_cons, visible_append, ih, Chunk.letters, ← visible_append, List.cons_append,
      List.takeWhile_append_dropWhile]

namespace Page

def letters (page : Page) : List Char := page.reversed.reverse

theorem visible_breakLine (page : Page) : visible page.breakLine.letters = visible page.letters := by
  rw [letters, breakLine, visible_reverse, visible_cons (by decide), visible_dropWhile, ← visible_reverse]
  rfl

theorem letters_write (letters : List Char) (page : Page) : (page.write letters).letters = page.letters ++ letters := by
  simp [write, Page.letters]

theorem visible_put (width : Nat) (page : Page) (chunk : Chunk) :
    visible (page.put width chunk).letters = visible page.letters ++ visible chunk.letters := by
  cases chunk with
  | piece piece isVerbatim =>
    have hcolumn (page : Page) :
        letters (if isVerbatim = true then { page with column := width + 1 } else page) = page.letters := by
      split_ifs <;> rfl
    unfold put
    dsimp only
    by_cases hdropped : ¬page.column + (String.ofList piece).utf8ByteSize ≤ width ∧ piece = [' ']
    · rw [if_pos hdropped, visible_breakLine, Chunk.letters, hdropped.2, visible_cons (by decide)]
      exact (List.append_nil _).symm
    · rw [if_neg hdropped, hcolumn, letters_write, visible_append, Chunk.letters]
      split_ifs
      · rfl
      · rw [visible_breakLine]
  | lineBreak =>
    have hletters : letters (put width page .lineBreak) = page.letters ++ ['\n'] := by simp [put, letters]
    rw [hletters, visible_append]
    rfl

/-- A text that is set shows as it is. -/
theorem visible_putText (width : Nat) (page : Page) (text : String) :
    visible (page.putText width text).letters = visible page.letters ++ visible text.toList := by
  have hchunks (chunks : List Chunk) (page : Page) : visible (chunks.foldl (put width) page).letters =
      visible page.letters ++ visible (chunks.flatMap Chunk.letters) := by
    induction chunks generalizing page with
    | nil => exact (List.append_nil _).symm
    | cons chunk chunks ih =>
      rw [List.foldl_cons, ih, visible_put, List.flatMap_cons, visible_append, List.append_assoc]
  rw [putText, hchunks, visible_chunksOf]

theorem visible_putPhrase (width : Nat) (page : Page) (phrase : Phrase) :
    visible (page.putPhrase width phrase).letters = visible page.letters ++ visible phrase.letters := by
  cases phrase with
  | plain text => exact visible_putText width page text
  | ticked text =>
    have hletters : Phrase.letters (.ticked text) = ['\x60'] ++ text.toList ++ ['\x60'] := rfl
    rw [putPhrase, letters_write, visible_append, visible_putText, letters_write, hletters]
    simp only [visible_append, List.append_assoc]

end Page

/-- A message in lines shows what its phrases show: only white space comes and goes. -/
theorem visible_inLines (width : Nat) (message : List Phrase) :
    visible (inLines width message).toList = message.flatMap fun phrase => visible phrase.letters := by
  have hphrases (page : Page) : visible (message.foldl (Page.putPhrase width) page).letters =
      visible page.letters ++ message.flatMap fun phrase => visible phrase.letters := by
    induction message generalizing page with
    | nil => exact (List.append_nil _).symm
    | cons phrase message ih =>
      rw [List.foldl_cons, ih, Page.visible_putPhrase, List.flatMap_cons, List.append_assoc]
  rw [inLines, String.toList_ofList]
  exact hphrases {}

end Text

end FunctionTrees
