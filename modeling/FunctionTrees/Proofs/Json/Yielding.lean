import FunctionTrees.Json.Record
import FunctionTrees.Proofs.Json.Reading
import FunctionTrees.Proofs.Outcome

/-!
# What readers can yield

* `Reader.Yields reader P` : whatever text it is given, `reader` yields no value but one of `P`; `Yields.bind`,
  `yields_whole`, `yields_items`, `yields_entries` : so it is step by step;
* `Format.Yields format P` : so it is with the values that a format reads; `yields_key`, `Yields.listAs`,
  `Yields.mapOfKeys` : keys have 32 bits, and what is made of values is made of such values;
* `Layout.Yields layout P`, `yields_record` : so it is with the fields of a record; `Case.yields_reader` : and with the
  cases of a choice.
-/

set_option autoImplicit false

namespace FunctionTrees.Json

/-! ## Step by step -/

namespace Reader

variable {α β σ : Type} {reader : Reader α} {P : α → Prop} {Q : β → Prop}

/-- Whatever text it is given, the reader yields no value but one of `P`. -/
def Yields (reader : Reader α) (P : α → Prop) : Prop :=
  ∀ chars value rest, reader.run chars = .done value rest → P value

theorem yields_any (reader : Reader α) : reader.Yields fun _ => True := fun _ _ _ _ => trivial

theorem yields_pure {value : α} (h : P value) : (pure value : Reader α).Yields P := by
  rintro chars value rest ⟨⟩
  exact h

theorem yields_fail (cause : Cause) (ahead : Nat) : (fail cause ahead : Reader α).Yields P := by
  rintro chars value rest ⟨⟩

theorem yields_unfit (misfit : Misfit) : (unfit misfit : Reader α).Yields P := by
  rintro chars value rest ⟨⟩

theorem Yields.bind {next : α → Reader β} (h : reader.Yields P) (hnext : ∀ value, P value → (next value).Yields Q) :
    (reader >>= next).Yields Q := by
  intro chars result rest hrun
  cases hfirst : reader.run chars with
  | done value middle =>
    rw [run_bind_done hfirst] at hrun
    exact hnext value (h chars value middle hfirst) middle result rest hrun
  | stop fault middle =>
    rw [run_bind_stop hfirst] at hrun
    cases hrun

/-- Where what comes first does not matter. -/
theorem yields_bind {next : α → Reader β} (h : ∀ value, (next value).Yields Q) : (reader >>= next).Yields Q :=
  (yields_any reader).bind fun value _ => h value

theorem Yields.map {f : α → β} (h : reader.Yields P) (hf : ∀ value, P value → Q (f value)) : (f <$> reader).Yields Q :=
  h.bind fun value hvalue => yields_pure (hf value hvalue)

theorem Yields.placed (h : reader.Yields P) : reader.placed.Yields P :=
  fun chars value rest hrun => h chars value rest (run_of_placed hrun)

theorem Yields.enclosed (h : reader.Yields P) (close : Reader Unit) : (enclosed reader close).Yields P := by
  intro chars value rest hrun
  unfold Reader.enclosed at hrun
  dsimp only at hrun
  split at hrun
  next found middle hfound =>
    split at hrun
    · cases hrun
      exact h chars value middle hfound
    · cases hrun
  next => cases hrun

theorem yields_mismatch (expected : String) : (mismatch expected : Reader α).Yields P :=
  yields_bind fun _ => yields_unfit _

theorem yields_whole {expected : String} {choose : Char → Option (Reader α)}
    (h : ∀ c reader, choose c = some reader → reader.Yields P) : (whole expected choose).Yields P := by
  refine Yields.placed (yields_bind fun found => ?_)
  cases found with
  | none => exact yields_fail _ _
  | some c =>
    dsimp only
    split
    next reader hchoose => exact h c reader hchoose
    next => exact yields_mismatch expected

/-- What is asked for makes no difference where a value is read. -/
theorem run_whole_of_run {expected : String} {choose : Char → Option (Reader α)} {chars rest : List Char} {value : α}
    (hrun : (whole expected choose).run chars = .done value rest) (expected' : String) :
    (whole expected' choose).run chars = .done value rest := by
  have hplain := run_of_placed hrun
  refine run_placed ?_
  have hnext {found : Option Char} (hfound : (chars.dropWhile isBlank).head? = found) :
      next.run chars = .done found (chars.dropWhile isBlank) :=
    congrArg (Outcome.done · _) hfound
  cases hhead : (chars.dropWhile isBlank).head? with
  | none =>
    rw [run_bind_done (hnext hhead)] at hplain
    cases hplain
  | some c =>
    rw [run_bind_done (hnext hhead)] at hplain ⊢
    dsimp only at hplain ⊢
    cases hchoose : choose c with
    | some reader =>
      rw [hchoose] at hplain
      exact hplain
    | none =>
      rw [hchoose] at hplain
      exact (yields_mismatch (P := fun _ => False) expected _ _ _ hplain).elim

/-! ## Lists and objects -/

theorem itemsFrom_all (h : reader.Yields P) {before : List α} (hbefore : ∀ value ∈ before, P value)
    {chars rest : List Char} {values : List α} (hrun : itemsFrom reader before chars = .done values rest) :
    ∀ value ∈ values, P value := by
  fun_induction itemsFrom reader before chars with
  | case1 before chars middle hmore _ value rest' hitem _ ih =>
    exact ih (List.forall_mem_cons.2 ⟨h _ _ _ hitem, hbefore⟩) hrun
  | case2 => cases hrun
  | case3 =>
    cases hrun
    exact fun value hmem => hbefore value (List.mem_reverse.1 hmem)
  | case4 => cases hrun

theorem yields_items (h : reader.Yields P) : (items reader).Yields fun values => ∀ value ∈ values, P value := by
  refine yields_bind fun more => ?_
  split
  · refine h.bind fun value hvalue chars values rest hrun => ?_
    exact itemsFrom_all h (List.forall_mem_singleton.2 hvalue) hrun
  · exact yields_pure (List.forall_mem_nil _)

variable {entry : σ → Reader σ} {I : σ → Prop}

theorem entriesFrom_all (h : ∀ state, I state → (entry state).Yields I) {state state' : σ} (hstate : I state)
    {chars rest : List Char} (hrun : entriesFrom entry state chars = .done state' rest) : I state' := by
  fun_induction entriesFrom entry state chars with
  | case1 state chars middle hmore _ next rest' hentry _ ih => exact ih (h _ hstate _ _ _ hentry) hrun
  | case2 => cases hrun
  | case3 =>
    cases hrun
    exact hstate
  | case4 => cases hrun

/-- What holds of the state at first and is kept by each entry holds at the end. -/
theorem yields_entries (h : ∀ state, I state → (entry state).Yields I) {state : σ} (hstate : I state) :
    (entries entry state).Yields I := by
  refine yields_bind fun more => ?_
  split
  · exact (h state hstate).bind fun next hnext chars last rest hrun => entriesFrom_all h hnext hrun
  · exact yields_pure hstate

end Reader

/-! ## Formats -/

namespace Format

variable {α β : Type} {format : Format α} {P : α → Prop} {Q : β → Prop}

def Yields (format : Format α) (P : α → Prop) : Prop := format.reader.Yields P

theorem Yields.decode (h : format.Yields P) {source : String} {value : α} (hvalue : format.decode source = .ok value) :
    P value := by
  have hall : (do let value ← format.reader; Reader.finish; return value : Reader α).Yields P :=
    h.bind fun value hP => Reader.yields_bind fun _ => Reader.yields_pure hP
  unfold Format.decode Reader.ofText at hvalue
  split at hvalue
  next found rest hrun =>
    cases hvalue
    exact hall _ _ _ hrun
  next => cases hvalue

/-- An integer is read within its range. -/
theorem yields_ranged {expected : String} {least greatest : Int} {ofInt : Int → α} {toInt : α → Int}
    (h : ∀ value, least ≤ value → value ≤ greatest → P (ofInt value)) :
    (ranged expected least greatest ofInt toInt).Yields P := by
  have hnumber : (Reader.numberAs expected (acceptInt expected least greatest)).Yields fun value =>
      least ≤ value ∧ value ≤ greatest := by
    refine Reader.yields_whole fun c reader hchoose => ?_
    split at hchoose
    · cases hchoose
      refine Reader.yields_bind fun number => ?_
      cases number with
      | integer value =>
        by_cases hrange : least ≤ value ∧ value ≤ greatest
        · simp only [acceptInt, if_pos hrange]
          exact Reader.yields_pure hrange
        · simp only [acceptInt, if_neg hrange]
          exact Reader.yields_unfit _
      | float bits => exact Reader.yields_unfit _
    · cases hchoose
  exact hnumber.map fun value hrange => h value hrange.1 hrange.2

theorem yields_key : key.Yields fun index => index < UInt32.size := by
  refine yields_ranged fun value hleast hgreatest => ?_
  show value.toNat < UInt32.size
  have hsize : 0 < UInt32.size := by decide
  omega

theorem Yields.equiv {toOld : β → α} {ofOld : α → β} (h : format.Yields P) (hof : ∀ value, P value → Q (ofOld value)) :
    (format.equiv toOld ofOld).Yields Q :=
  h.map hof

theorem Yields.checked {toOld : β → α} {check : α → Except String β} (h : format.Yields P)
    (hcheck : ∀ value result, P value → check value = .ok result → Q result) :
    (format.checked toOld check).Yields Q := by
  refine h.bind fun value hvalue => ?_
  split
  next result hresult => exact Reader.yields_pure (hcheck value result hvalue hresult)
  next => exact Reader.yields_unfit _

theorem Yields.optional (h : format.Yields P) : format.optional.Yields fun value => ∀ found ∈ value, P found := by
  have hsome : (some <$> format.reader).Yields fun value => ∀ found ∈ value, P found :=
    h.map fun value hvalue found hfound => Option.some.inj hfound ▸ hvalue
  refine Reader.yields_bind fun next => ?_
  cases next with
  | none => exact hsome
  | some c =>
    dsimp only
    split
    · exact Reader.yields_bind fun _ => Reader.yields_bind fun _ => Reader.yields_pure fun _ hfound => nomatch hfound
    · exact hsome

theorem Yields.listAs (h : format.Yields P) (expected : String) :
    (listAs expected format).Yields fun values => ∀ value ∈ values, P value := by
  refine Reader.yields_whole fun c reader hchoose => ?_
  split at hchoose
  · cases hchoose
    exact (Reader.yields_bind fun _ => Reader.yields_items h).enclosed _
  · cases hchoose

theorem yields_quotedKey : quotedKey.Yields fun index => index < UInt32.size := by
  refine Reader.yields_bind fun _ => Reader.yields_bind fun next => ?_
  extract_lets goOn
  have hkey : ∀ passed, (goOn passed).Yields fun index => index < UInt32.size := by
    refine fun _ => yields_key.bind fun index hindex => Reader.yields_bind fun close => ?_
    dsimp only
    split <;> exact Reader.yields_bind fun _ => Reader.yields_pure hindex
  split
  · split
    · exact hkey ()
    · exact Reader.yields_bind hkey
  · exact Reader.yields_bind hkey

theorem Yields.mapOfKeys (h : format.Yields P) :
    format.mapOfKeys.Yields fun entries => ∀ entry ∈ entries, entry.1 < UInt32.size ∧ P entry.2 := by
  refine Reader.yields_whole fun c reader hchoose => ?_
  split at hchoose
  · cases hchoose
    have hentry : ∀ found : List (Nat × α), (∀ entry ∈ found, entry.1 < UInt32.size ∧ P entry.2) →
        (do
          let index ← quotedKey
          Reader.colon
          return (index, ← format.reader) :: found : Reader (List (Nat × α))).Yields
            fun found => ∀ entry ∈ found, entry.1 < UInt32.size ∧ P entry.2 := by
      refine fun found hfound => yields_quotedKey.bind fun index hindex => Reader.yields_bind fun _ => ?_
      refine h.bind fun value hvalue => Reader.yields_pure ?_
      exact List.forall_mem_cons.2 ⟨⟨hindex, hvalue⟩, hfound⟩
    have hentries := Reader.yields_entries hentry (List.forall_mem_nil _)
    refine (Reader.yields_bind fun _ => hentries.bind fun found hfound => Reader.yields_pure ?_).enclosed _
    exact fun entry hmem => hfound entry (List.mem_reverse.1 hmem)
  · cases hchoose

end Format

/-! ## Records -/

namespace Layout

/-- Each field of the record is read as a value of its own part of `P`, and so is what holds where it is left out. -/
inductive Yields : {ρ δ : Type} → Layout ρ δ → (ρ → Prop) → Prop
  | done : Yields done fun _ => True
  | field {α ρ δ : Type} {name : String} {format : Format α} {absence : Absence α} {rest : Layout ρ δ} {P : α → Prop}
    {Q : ρ → Prop} (hformat : format.Yields P)
    (habsence : ∀ value, absence = .optional value ∨ absence = .defaulted value → P value) (hrest : Yields rest Q) :
    Yields (field name format absence rest) fun row => P row.1 ∧ Q row.2

section Fields

variable {α ρ δ : Type} {name : String} {format : Format α} {rest : Layout ρ δ} {P : α → Prop} {Q : ρ → Prop}

theorem yields_required (h : format.Yields P) (hrest : rest.Yields Q) :
    (field name format .refused rest).Yields fun row => P row.1 ∧ Q row.2 :=
  .field h (by simp) hrest

theorem yields_orNone (h : format.Yields P) (hrest : rest.Yields Q) :
    (field name format.optional (.optional none) rest).Yields fun row => (∀ value ∈ row.1, P value) ∧ Q row.2 :=
  .field h.optional (by simp) hrest

end Fields

variable {ρ δ : Type} {layout : Layout ρ δ} {P : ρ → Prop}

/-- What holds of drafts while fields are read, and of the record in the end. -/
structure Keeps (layout : Layout ρ δ) (P : ρ → Prop) (I : δ → Prop) : Prop where
  blank : I layout.blank
  assign? : ∀ key draft reader, I draft → layout.assign? key draft = some reader → reader.Yields I
  complete : ∀ draft row, I draft → layout.complete draft = .ok row → P row

theorem Yields.exists_keeps (h : layout.Yields P) : ∃ I, layout.Keeps P I := by
  induction h with
  | done =>
    refine ⟨fun _ => True, trivial, ?_, fun _ _ _ _ => trivial⟩
    rintro key ⟨⟩ reader - ⟨⟩
  | @field α ρ δ name format absence rest P Q hformat habsence _ ih =>
    obtain ⟨I, hrest⟩ := ih
    -- a field that has not been read yet says nothing
    refine ⟨fun draft => (∀ value ∈ draft.1, P value) ∧ I draft.2, ⟨(fun _ hmem => nomatch hmem), hrest.blank⟩, ?_, ?_⟩
    · rintro key ⟨value, values⟩ reader ⟨hvalue, hvalues⟩ hassign
      simp only [Layout.assign?] at hassign
      split at hassign
      · cases hassign
        cases value with
        | some value => exact Reader.yields_unfit _
        | none =>
          refine Reader.yields_bind fun _ => hformat.bind fun found hfound => Reader.yields_pure ⟨?_, hvalues⟩
          exact fun value hmem => Option.some.inj hmem ▸ hfound
      · obtain ⟨found, hfound, rfl⟩ := Option.map_eq_some_iff.1 hassign
        exact (hrest.assign? key values found hvalues hfound).map fun more hmore => ⟨hvalue, hmore⟩
    · rintro ⟨value, values⟩ row ⟨hvalue, hvalues⟩ hcomplete
      -- the value of the field, and the record of the others
      have hsplit : ∃ found rest', rest.complete values = .ok rest' ∧ (found, rest') = row ∧ P found := by
        cases value with
        | some value =>
          obtain ⟨rest', hrest', hrow⟩ := Outcome.map_eq_ok_iff.1 hcomplete
          exact ⟨value, rest', hrest', hrow, hvalue value rfl⟩
        | none =>
          cases absence with
          | refused => cases hcomplete
          | optional value =>
            obtain ⟨rest', hrest', hrow⟩ := Outcome.map_eq_ok_iff.1 hcomplete
            exact ⟨value, rest', hrest', hrow, habsence value (.inl rfl)⟩
          | defaulted value =>
            obtain ⟨rest', hrest', hrow⟩ := Outcome.map_eq_ok_iff.1 hcomplete
            exact ⟨value, rest', hrest', hrow, habsence value (.inr rfl)⟩
      obtain ⟨found, rest', hrest', rfl, hfound⟩ := hsplit
      exact ⟨hfound, hrest.complete values rest' hvalues hrest'⟩

theorem Yields.ofEntries (h : layout.Yields P) : layout.ofEntries.Yields P := by
  obtain ⟨I, hkeeps⟩ := h.exists_keeps
  have hentry : ∀ draft, I draft → (layout.entry draft).Yields I := by
    refine fun draft hdraft => Reader.yields_bind fun _ => Reader.yields_bind fun key => ?_
    split
    next reader hassign => exact hkeeps.assign? key draft reader hdraft hassign
    next => exact Reader.yields_bind fun _ => Reader.yields_bind fun _ => Reader.yields_pure hdraft
  refine (Reader.yields_entries hentry hkeeps.blank).bind fun draft hdraft => ?_
  split
  next row hrow => exact Reader.yields_pure (hkeeps.complete draft row hdraft hrow)
  next => exact Reader.yields_unfit _

theorem Yields.ofItems (h : layout.Yields P) (expected : String) (index : Nat) :
    (layout.ofItems expected index).Yields P := by
  induction h generalizing index with
  | done => exact Reader.yields_pure trivial
  | @field α ρ δ name format absence rest P Q hformat habsence _ ih =>
    unfold Layout.ofItems
    refine Reader.yields_bind fun more => ?_
    split
    · exact hformat.bind fun value hvalue => (ih (index + 1)).bind fun row hrow => Reader.yields_pure ⟨hvalue, hrow⟩
    · split
      next value =>
        have hvalue := habsence value (.inr rfl)
        exact (ih (index + 1)).bind fun row hrow => Reader.yields_pure ⟨hvalue, hrow⟩
      next => exact Reader.yields_unfit _

end Layout

namespace Format

variable {α ρ δ : Type} {layout : Layout ρ δ} {P : ρ → Prop} {Q : α → Prop}

theorem yields_record (h : layout.Yields P) {toRow : α → ρ} {ofRow : ρ → α} (hof : ∀ row, P row → Q (ofRow row))
    (name : String) : (record name layout toRow ofRow).Yields Q := by
  refine Reader.Yields.map (Reader.yields_whole fun c reader hchoose => ?_) hof
  split at hchoose
  · cases hchoose
    exact (Reader.yields_bind fun _ => h.ofItems _ 0).enclosed _
  · split at hchoose
    · cases hchoose
      exact (Reader.yields_bind fun _ => h.ofEntries).enclosed _
    · cases hchoose

theorem yields_tuple (h : layout.Yields P) (expected : String) : (tuple expected layout).Yields P := by
  refine Reader.yields_whole fun c reader hchoose => ?_
  split at hchoose
  · cases hchoose
    exact (Reader.yields_bind fun _ => h.ofItems _ 0).enclosed _
  · cases hchoose

end Format

/-! ## Choices -/

namespace Case

variable {α : Type} {P : α → Prop}

def Yields (P : α → Prop) : Case α → Prop
  | bare value => P value
  | content reader => reader.Yields P
  | contents reader => reader.Yields P

theorem Yields.alone {found : Case α} (h : found.Yields P) : found.alone.Yields P := by
  cases found with
  | bare value => exact Reader.yields_pure h
  | content reader => exact Reader.yields_unfit _
  | contents reader => exact Reader.yields_unfit _

theorem Yields.withContent {found : Case α} (h : found.Yields P) : found.withContent.Yields P := by
  cases found with
  | bare value => exact Reader.yields_bind fun _ => Reader.yields_pure h
  | content reader => exact h
  | contents reader => exact h

variable {cases : List (String × Case α)}

theorem yields_named (h : ∀ entry ∈ cases, entry.2.Yields P) : (named cases).Yields (Yields P) := by
  refine Reader.Yields.placed (Reader.yields_bind fun _ => Reader.yields_bind fun name => ?_)
  split
  next found hfound =>
    obtain ⟨before, after, hcases, -⟩ := List.lookup_eq_some_iff.1 hfound
    have hmem : (name, found) ∈ cases := hcases ▸ List.mem_append_right _ List.mem_cons_self
    exact Reader.yields_pure (h _ hmem)
  next => exact Reader.yields_unfit _

theorem yields_ofKey (h : ∀ entry ∈ cases, entry.2.Yields P) : (ofKey cases).Yields (Yields P) := by
  refine Reader.yields_bind fun next => ?_
  cases next with
  | none => exact Reader.yields_fail _ _
  | some c =>
    dsimp only
    split_ifs
    · exact yields_named h
    · exact Reader.yields_fail _ _
    · exact Reader.yields_fail _ _

theorem yields_reader (hcases : cases.Forall fun entry => entry.2.Yields P) : (reader cases).Yields P := by
  have h := List.forall_iff_forall_mem.1 hcases
  refine Reader.yields_bind fun next => ?_
  cases next with
  | none => exact Reader.yields_fail _ _
  | some c =>
    dsimp only
    split_ifs
    · exact (yields_named h).bind fun found hfound => hfound.alone
    · refine Reader.yields_bind fun _ => (yields_ofKey h).bind fun found hfound => Reader.yields_bind fun _ => ?_
      refine hfound.withContent.bind fun value hvalue => Reader.yields_bind fun close => ?_
      cases close with
      | none => exact Reader.yields_fail _ _
      | some d =>
        dsimp only
        split_ifs
        · exact Reader.yields_bind fun _ => Reader.yields_pure hvalue
        · exact Reader.yields_fail _ _
    · exact Reader.yields_fail _ _

end Case

end FunctionTrees.Json
