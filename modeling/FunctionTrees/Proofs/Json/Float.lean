import FunctionTrees.Proofs.Decimal
import FunctionTrees.Proofs.Json.Settling
import FunctionTrees.Proofs.Json.Yielding

/-!
# Floats that are read back

Not every float is read back from its text as the same float, as reading rounds more than once.

* `Reader.Local reader` : what the reader takes off a text does not depend on what comes behind; `Local.bind`,
  `local_number` : so it is with numbers, as long as they do not go on there;
* `unblank_floatText` : there is no blank in the text of a float;
* `reads_float` : a float that is read back from its text alone is read back wherever it stands;
* `refuses_float`, `isFinite_of_readsBack` : a float that is not finite is written as null, which is refused.
-/

set_option autoImplicit false

namespace FunctionTrees.Json

/-! ## What comes behind -/

namespace Reader

variable {α β : Type} {reader : Reader α}

/-- What the reader takes off a text does not depend on what comes behind, as long as no number goes on there. -/
def Local (reader : Reader α) : Prop :=
  ∀ chars value left, reader.run chars = .done value left → left <:+ chars ∧
    ∀ rest, (left = [] → Bounded rest) → reader.run (chars ++ rest) = .done value (left ++ rest)

theorem local_pure (value : α) : (pure value : Reader α).Local := by
  rintro chars value left ⟨⟩
  exact ⟨List.suffix_refl _, fun rest _ => rfl⟩

theorem Local.bind {next : α → Reader β} (h : reader.Local) (hnext : ∀ value, (next value).Local) :
    (reader >>= next).Local := by
  intro chars result left hrun
  cases hfirst : reader.run chars with
  | stop fault middle =>
    rw [run_bind_stop hfirst] at hrun
    cases hrun
  | done value middle =>
    rw [run_bind_done hfirst] at hrun
    obtain ⟨hmiddle, hreader⟩ := h chars value middle hfirst
    obtain ⟨hleft, hlast⟩ := hnext value middle result left hrun
    refine ⟨hleft.trans hmiddle, fun rest hrest => ?_⟩
    have hbounded : middle = [] → Bounded rest := by
      rintro rfl
      exact hrest (List.suffix_nil.1 hleft)
    rw [run_bind_done (hreader rest hbounded)]
    exact hlast rest hrest

/-- A reader that never comes to an end. -/
theorem Yields.isLocal (h : reader.Yields fun _ => False) : reader.Local :=
  fun chars value left hrun => (h chars value left hrun).elim

/-- A reader that goes on as another one does, whatever comes behind. -/
theorem local_of_run (h : ∀ chars value left, reader.run chars = .done value left → ∃ more, ∃ other : Reader α,
    other.Local ∧ more <:+ chars ∧ ∀ rest, reader.run (chars ++ rest) = other.run (more ++ rest)) : reader.Local := by
  intro chars value left hrun
  obtain ⟨more, other, hother, hmore, heq⟩ := h chars value left hrun
  have hself := heq []
  rw [List.append_nil, List.append_nil, hrun] at hself
  obtain ⟨hleft, hrest⟩ := hother more value left hself.symm
  refine ⟨hleft.trans hmore, fun rest hbounded => ?_⟩
  rw [heq]
  exact hrest rest hbounded

/-! ## Numbers -/

/-- The digits at the front of a text do not depend on what comes behind. -/
theorem digits_append {chars rest : List Char} (h : chars.dropWhile isDigit = [] → Bounded rest) :
    (chars ++ rest).takeWhile isDigit = chars.takeWhile isDigit ∧
      (chars ++ rest).dropWhile isDigit = chars.dropWhile isDigit ++ rest := by
  induction chars with
  | nil =>
    cases rest with
    | nil => exact ⟨rfl, rfl⟩
    | cons c rest =>
      have hc : ¬ isDigit c = true := by simp [((h rfl).not_part rfl).1]
      exact ⟨List.takeWhile_cons_of_neg hc, List.dropWhile_cons_of_neg hc⟩
  | cons c chars ih =>
    by_cases hc : isDigit c = true
    · rw [List.dropWhile_cons_of_pos hc] at h ⊢
      obtain ⟨htake, hdrop⟩ := ih h
      rw [List.cons_append, List.takeWhile_cons_of_pos hc, List.dropWhile_cons_of_pos hc, List.takeWhile_cons_of_pos hc]
      exact ⟨congrArg (c :: ·) htake, hdrop⟩
    · simp [hc]

theorem local_digits : digits.Local := by
  rintro chars value left ⟨⟩
  refine ⟨List.dropWhile_suffix _, fun rest hrest => ?_⟩
  obtain ⟨htake, hdrop⟩ := digits_append hrest
  simp only [digits, htake, hdrop]

theorem local_exponentDigits (bounded : Bool) : (exponentDigits bounded).Local := by
  intro chars value left hrun
  have hleft : chars.dropWhile isDigit = left := by
    simp only [exponentDigits] at hrun
    split at hrun
    · split at hrun
      · cases hrun
      · cases hrun
        rfl
    · cases hrun
      rfl
  subst hleft
  refine ⟨List.dropWhile_suffix _, fun rest hrest => ?_⟩
  obtain ⟨htake, hdrop⟩ := digits_append hrest
  simp only [exponentDigits] at hrun ⊢
  rw [htake, hdrop]
  split at hrun
  · split at hrun
    · cases hrun
    · cases hrun
      simp [*]
  · cases hrun
    simp [*]

/-- Only what can go on a number is looked for behind one. -/
theorem local_pass? {choices : List Char} (h : choices.all continuesNumber = true) : (pass? choices).Local := by
  intro chars value left hrun
  cases chars with
  | nil =>
    cases hrun
    refine ⟨List.suffix_refl _, fun rest hrest => run_pass?_none fun c hc hmem => ?_⟩
    have hnone := hrest rfl c hc
    rw [List.all_eq_true.1 h c hmem] at hnone
    cases hnone
  | cons c chars =>
    rw [pass?, run_bind_peek] at hrun
    by_cases hc : c ∈ choices
    · simp only [List.head?_cons, hc, if_true] at hrun
      cases hrun
      refine ⟨List.suffix_cons c chars, fun rest _ => ?_⟩
      rw [List.cons_append, pass?, run_bind_peek]
      simp only [List.head?_cons, hc, if_true]
      rfl
    · simp only [List.head?_cons, hc, if_false] at hrun
      cases hrun
      refine ⟨List.suffix_refl _, fun rest _ => ?_⟩
      rw [List.cons_append, pass?, run_bind_peek]
      simp only [List.head?_cons, hc, if_false]
      rfl

/-- What is read behind a leading zero: only a digit must not come next. -/
def loneZero : Reader (List Nat) := peek >>= fun found =>
  found.elim (return [0]) fun d => if isDigit d then malformed .badNumber else return [0]

theorem local_loneZero : loneZero.Local := by
  intro chars value left hrun
  cases chars with
  | nil =>
    cases hrun
    refine ⟨List.suffix_refl _, fun rest hrest => ?_⟩
    cases rest with
    | nil => rfl
    | cons d rest =>
      rw [List.nil_append, loneZero, run_bind_peek]
      simp only [List.head?_cons, Option.elim_some, ((hrest rfl).not_part rfl).1]
      rfl
  | cons d chars =>
    rw [loneZero, run_bind_peek] at hrun
    by_cases hd : isDigit d = true
    · simp only [List.head?_cons, Option.elim_some, hd, if_true] at hrun
      cases hrun
    · simp only [List.head?_cons, Option.elim_some, hd] at hrun
      cases hrun
      refine ⟨List.suffix_refl _, fun rest _ => ?_⟩
      rw [List.cons_append, loneZero, run_bind_peek]
      simp only [List.head?_cons, Option.elim_some, hd]
      rfl

theorem local_wholeDigits : wholeDigits.Local := by
  refine local_of_run fun chars value left hrun => ?_
  cases chars with
  | nil => cases hrun
  | cons c chars =>
    by_cases hzero : c = '0'
    · subst hzero
      refine ⟨chars, loneZero, local_loneZero, List.suffix_cons _ _, fun rest => ?_⟩
      cases chars <;> cases rest <;> rfl
    · by_cases hdigit : isDigit c = true
      · refine ⟨c :: chars, digits, local_digits, List.suffix_refl _, fun rest => ?_⟩
        rw [wholeDigits, run_bind_peek]
        simp only [List.cons_append, List.head?_cons, if_neg hzero, hdigit, if_true]
      · rw [wholeDigits, run_bind_peek] at hrun
        simp only [List.head?_cons, if_neg hzero, hdigit] at hrun
        cases hrun

theorem local_fractionDigits : fractionDigits.Local := by
  refine (local_pass? (by decide)).bind fun point => ?_
  cases point with
  | none => exact local_pure none
  | some point =>
    refine local_digits.bind fun found => ?_
    cases found with
    | cons digit found => exact local_pure _
    | nil =>
      refine Yields.isLocal (yields_bind fun next => ?_)
      cases next <;> exact yields_fail _ _

/-- What begins with a digit. -/
theorem local_digitNext {next : Reader α} (h : next.Local) : (peek >>= fun found => match found with
    | none => ended .value
    | some c => if isDigit c then next else malformed .badNumber : Reader α).Local := by
  refine local_of_run fun chars value left hrun => ?_
  cases chars with
  | nil => cases hrun
  | cons c chars =>
    by_cases hdigit : isDigit c = true
    · refine ⟨c :: chars, next, h, List.suffix_refl _, fun rest => ?_⟩
      rw [run_bind_peek]
      simp only [List.cons_append, List.head?_cons, hdigit, if_true]
    · rw [run_bind_peek] at hrun
      simp only [List.head?_cons, hdigit] at hrun
      cases hrun

theorem local_exponent (zero : Bool) : (exponent zero).Local := by
  refine (local_pass? (by decide)).bind fun mark => ?_
  cases mark with
  | none => exact local_pure none
  | some mark =>
    have hnext : ∀ sign : Option Char, (if sign = some '-' then do return some (-(← exponentDigits false : Nat))
        else do return some (← exponentDigits (!zero) : Nat) : Reader (Option Int)).Local := by
      intro sign
      split_ifs
      · exact (local_exponentDigits _).bind fun _ => local_pure _
      · exact (local_exponentDigits _).bind fun _ => local_pure _
    refine local_of_run fun chars value left hrun => ?_
    cases chars with
    | nil => cases hrun
    | cons c chars =>
      by_cases hc : c ∈ ['+', '-']
      · refine ⟨chars, _, local_digitNext (hnext (some c)), List.suffix_cons _ _, fun rest => ?_⟩
        have hsign : (pass? ['+', '-']).run (c :: chars ++ rest) = .done (some c) (chars ++ rest) := by
          rw [pass?, run_bind_peek]
          simp only [List.cons_append, List.head?_cons, hc, if_true]
          rfl
        exact run_bind_done hsign _
      · refine ⟨c :: chars, _, local_digitNext (hnext none), List.suffix_refl _, fun rest => ?_⟩
        have hnone : (pass? ['+', '-']).run (c :: chars ++ rest) = .done none (c :: chars ++ rest) :=
          run_pass?_none fun d hd hmem => hc (Option.some.inj hd ▸ hmem)
        exact run_bind_done hnone _

theorem local_unsignedNumber (negative : Bool) : (unsignedNumber negative).Local := by
  refine local_wholeDigits.bind fun whole => local_fractionDigits.bind fun fraction => ?_
  refine (local_exponent _).bind fun exponent => ?_
  dsimp only
  split_ifs
  · exact local_pure _
  · exact local_pure _
  · exact local_pure _
  · split
    · exact local_pure _
    · exact Yields.isLocal (yields_fail _ _)

theorem local_number : number.Local := by
  refine local_of_run fun chars value left hrun => ?_
  cases chars with
  | nil => cases hrun
  | cons c chars =>
    by_cases hc : c = '-'
    · subst hc
      exact ⟨chars, unsignedNumber true, local_unsignedNumber true, List.suffix_cons _ _, fun rest => rfl⟩
    · refine ⟨c :: chars, unsignedNumber false, local_unsignedNumber false, List.suffix_refl _, fun rest => ?_⟩
      have hnone : (pass? ['-']).run (c :: chars ++ rest) = .done none (c :: chars ++ rest) :=
        run_pass?_none fun d hd hmem => hc ((Option.some.inj hd).trans (List.mem_singleton.1 hmem))
      rw [number, run_bind_done hnone]

theorem local_accepted (accept : Number → Except Misfit α) : (do
    match accept (← number) with
    | .ok value => return value
    | .error misfit => unfit misfit : Reader α).Local := by
  refine local_number.bind fun found => ?_
  cases accept found with
  | ok value => exact local_pure value
  | error misfit => exact (yields_unfit misfit).isLocal

end Reader

/-! ## Texts of floats -/

def Unblank (text : String) : Prop := ∀ c ∈ text.toList, Reader.isBlank c = false

instance (text : String) : Decidable (Unblank text) :=
  List.decidableBAll (fun c => Reader.isBlank c = false) text.toList

theorem not_blank_of_isFigure {c : Char} (h : Decimal.isFigure c = true) : Reader.isBlank c = false := by
  rw [← Bool.not_eq_true]
  intro hblank
  simp only [Reader.isBlank, decide_eq_true_eq] at hblank
  rcases hblank with rfl | rfl | rfl | rfl <;> exact absurd h (by decide)

/-- There is no blank in the text of a float. -/
theorem unblank_floatText (bits : UInt64) : Unblank (floatText bits) := by
  unfold floatText
  cases htext : floatStyle.text? bits with
  | none => exact (by decide : Unblank "null")
  | some text =>
    intro c hc
    rcases Decimal.Style.figures_text? htext c hc with hfigure | hplus
    · exact not_blank_of_isFigure hfigure
    · obtain rfl : c = '+' := List.mem_singleton.1 hplus
      decide

/-! ## Floats -/

namespace Format

variable {α : Type}

theorem write_float_of_not_isFinite {bits : UInt64} (h : Decimal.isFinite bits = false) :
    float.write bits = "null".toList := by
  show (floatText bits).toList = _
  rw [floatText, Decimal.Style.text?, if_neg (by simp [h])]
  rfl

/-- A float that is not finite is refused. -/
theorem refuses_float {bits : UInt64} (h : Decimal.isFinite bits = false) :
    float.reader.Refuses (float.write bits) (.kind .null "f64") := by
  have hstarts : StartsValue 'n' := .inl (by decide)
  rw [write_float_of_not_isFinite h]
  exact ⟨⟨_, _, rfl, hstarts⟩, fun rest _ => ⟨some ⟨rest, 0⟩, rest, rfl⟩⟩

theorem isFinite_of_readsBack {bits : UInt64} (h : float.ReadsBack bits) : Decimal.isFinite bits = true := by
  by_contra hinfinite
  rw [Bool.not_eq_true] at hinfinite
  obtain ⟨spot, hdecode⟩ := decode_of_refuses (refuses_float hinfinite)
  have hencode : float.encode bits = String.ofList (float.write bits) := rfl
  rw [ReadsBack, hencode, hdecode] at h
  cases h

/-- A float that is read back from its text alone is read back wherever it stands. -/
theorem reads_float {bits : UInt64} (h : float.ReadsBack bits) : float.Reads bits := by
  obtain ⟨left, hrun, hleft⟩ := decode_eq_ok_iff.1 h
  have hblank := unblank_floatText bits
  have hencode : (float.encode bits).toList = (floatText bits).toList := by rw [encode, String.toList_ofList]; rfl
  rw [hencode] at hrun
  show float.reader.Reads (floatText bits).toList bits
  unfold Unblank at hblank
  generalize (floatText bits).toList = text at hblank hrun
  cases text with
  | nil => cases hrun
  | cons c more =>
    have hc := hblank c List.mem_cons_self
    change (Reader.whole "f64" _).run (c :: more) = _ at hrun
    rw [Reader.run_whole _ _ hc] at hrun
    by_cases hnumber : c = '-' ∨ Reader.isDigit c = true
    · simp only [if_pos hnumber] at hrun
      obtain ⟨hsuffix, htakes⟩ := Reader.local_accepted acceptFloat _ bits left (Reader.run_of_placed hrun)
      -- what is left would be blanks, and there are none
      obtain rfl : left = [] := by
        cases left with
        | nil => rfl
        | cons d left =>
          rw [List.dropWhile_cons_of_neg (by simp [hblank d (hsuffix.subset List.mem_cons_self)])] at hleft
          cases hleft
      have hstarts : StartsValue c := hnumber.imp (fun hminus => by simp [hminus]) id
      refine ⟨⟨c, more, rfl, hstarts⟩, Reader.takes_whole hstarts (if_pos hnumber) fun rest hrest => ?_⟩
      exact htakes rest fun _ => hrest
    · simp only [if_neg hnumber] at hrun
      have hnone := (Reader.yields_mismatch "f64" (P := fun _ : UInt64 => False)).placed
      exact (hnone (c :: more) bits left hrun).elim

end Format

end FunctionTrees.Json
