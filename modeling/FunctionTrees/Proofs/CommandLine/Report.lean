import FunctionTrees.Proofs.CommandLine.Inputs
import FunctionTrees.Proofs.Lowering.References

/-!
# What a run says of its inputs

* `Entity.Listed entity text` : the text shows the signature of an entity and the trees of its blocks;
  `listed_of_listing`, `exists_listing` : every entity that comes of a function has such a listing;
* `failureNotice`, `InputError.notice`, `entityNotice`, `summaryNotice` : what standard error says, character by character;
  `Report.lines_eq`, `Report.summary_eq` : these are the lines of a report;
* `Report.entities`, `Report.failures` : all that the inputs gave; `translated_eq`, `failed_eq` : they are counted;
* `Report.ofInputs directory inputs` : the report on what is in a directory, input by input.
-/

set_option autoImplicit false

namespace FunctionTrees

open Outcome

/-! ## Listings -/

namespace Entity

/-- Where an entity starts, as its listing has it. -/
inductive PlacedAt (entity : Entity) : String → Prop
  | nowhere (hposition : entity.position = none) : PlacedAt entity ""
  | somewhere {position : Position} {file : String} (hposition : entity.position = some position)
    (hfile : entity.ast.string position.file = .ok file) :
    PlacedAt entity (" @ " ++ file ++ ":" ++ toString position.extent.firstLine ++ ":" ++
      toString position.extent.firstCol)

/-- The text has a line with the signature, one more for an entity without blocks, the trees of the blocks, and an empty
line. -/
inductive Listed (entity : Entity) : String → Prop
  | intro {place : String} {blocks : List String} (hplace : entity.PlacedAt place)
    (hblocks : List.Forall₂ (fun root block => entity.ast.textOf entity.positions root = .ok block)
      entity.blocks blocks) :
    Listed entity ("; " ++ entity.name ++ "(" ++
      ", ".intercalate (entity.arguments.map fun argument => argument.name ++ ": " ++ argument.type) ++ ") -> " ++
      entity.returnType ++ place ++ "\n" ++ (if entity.blocks = [] then "; declaration\n" else "") ++
      String.join (blocks.map fun block => block ++ "\n") ++ "\n")

variable {function : Transfer.Function} {entity : Entity}

theorem exists_place {headline : String} (h : entity.headline = .ok headline) : ∃ place, entity.PlacedAt place ∧
    headline = "; " ++ entity.name ++ "(" ++
      ", ".intercalate (entity.arguments.map fun argument => argument.name ++ ": " ++ argument.type) ++ ") -> " ++
      entity.returnType ++ place := by
  have hargument : Argument.text = fun argument => argument.name ++ ": " ++ argument.type := rfl
  unfold Entity.headline at h
  rw [hargument] at h
  cases hposition : entity.position with
  | none =>
    rw [hposition] at h
    cases h
    exact ⟨"", .nowhere hposition, String.append_empty.symm⟩
  | some position =>
    rw [hposition] at h
    obtain ⟨span, hspan, ⟨⟩⟩ := bind_eq_ok_iff.1 h
    obtain ⟨file, hfile, rfl⟩ := map_eq_ok_iff.1 hspan
    refine ⟨_, .somewhere hposition hfile, ?_⟩
    simp only [FileSpan.startText, String.append_assoc]
    rfl

/-- A listing that can be made shows all that it is to show. -/
theorem listed_of_listing {text : String} (h : entity.listing = .ok text) : entity.Listed text := by
  unfold listing at h
  obtain ⟨headline, hheadline, h⟩ := bind_eq_ok_iff.1 h
  obtain ⟨blocks, hblocks, ⟨⟩⟩ := bind_eq_ok_iff.1 h
  obtain ⟨place, hplace, rfl⟩ := exists_place hheadline
  have hnote : String.join ((if entity.isDeclaration then ["; declaration"] else []).map (· ++ "\n")) =
      if entity.blocks = [] then "; declaration\n" else "" := by
    unfold isDeclaration
    cases entity.blocks <;> rfl
  convert Listed.intro hplace (mapM_eq_ok_iff.1 hblocks) using 1
  simp only [List.map_append, String.join_append, hnote]
  simp [String.append_assoc]

/-- The entity of a function has a listing: all that it refers to is in its tree. -/
theorem exists_listing (h : (entityOf function).result = .ok entity) : ∃ text, entity.listing = .ok text := by
  have hresolved := Lowering.partsResolved_of_lower (entityOf_eq_ok_iff.1 h)
  have hheadline : ∃ text, entity.headline = .ok text := by
    unfold Entity.headline
    cases hposition : entity.position with
    | none => exact ⟨_, rfl⟩
    | some position =>
      obtain ⟨file, hfile⟩ := hresolved.position position hposition
      have hspan : position.resolve entity.ast.strings = .ok ⟨file, position.extent⟩ :=
        map_eq_ok_iff.2 ⟨file, hfile, rfl⟩
      dsimp only
      rw [hspan]
      exact ⟨_, rfl⟩
  have hblocks : ∃ texts, entity.blocks.mapM (entity.ast.textOf entity.positions) = .ok texts := by
    refine exists_mapM fun root hroot => ?_
    have hreadable := hresolved.ast.readable (fun node position h => (hresolved.recorded node position h).2)
      (hresolved.blocks root hroot)
    obtain ⟨tree, -, htext⟩ := hreadable.text
    exact ⟨tree.text, htext⟩
  obtain ⟨headline, hheadline⟩ := hheadline
  obtain ⟨texts, htexts⟩ := hblocks
  unfold Entity.listing
  rw [hheadline, ok_bind, htexts]
  exact ⟨_, rfl⟩

end Entity

namespace CommandLine

/-- An entity that an input gives has a listing. -/
theorem InputResult.exists_listing {unit : Except InputError (List Transfer.Function)} {entity : Entity}
    (h : entity ∈ (ofUnit unit).entities) : ∃ text, entity.listing = .ok text := by
  cases unit with
  | ok functions =>
    obtain ⟨function, -, hresult⟩ := entityOf_of_mem_ofUnit h
    exact Entity.exists_listing hresult
  | error error => cases h

/-! ## Notices -/

/-- A text between the code of a style and the code that ends it. -/
def styled (code text : String) : String := "\x1b[" ++ code ++ "m" ++ text ++ "\x1b[0m"

/-- The reason why an input gives no unit, behind the input. -/
def InputError.notice (input : String) (error : InputError) : String :=
  let reason := match error with
    | .unreadable error => "unable to read file: " ++ error.message
    | .notUnit source fault => "not a valid unit: " ++ fault.messageIn source
  styled "1;31" "error:" ++ " " ++ styled "1;37" input ++ ": " ++ reason ++ "\n"

/-- The file, the function that has failed, and why. -/
def failureNotice (input : String) (failure : FunctionFailure) : String :=
  styled "1;31" "error:" ++ " " ++ styled "36" input ++ ": translation failed for function " ++
    styled "1;34" failure.function ++ ": " ++ failure.error.message ++ "\n"

/-- The file, the entity, and how many blocks and calls it has. -/
def entityNotice (input : String) (entity : Entity) : String :=
  "  " ++ styled "32" "translated" ++ " " ++ styled "36" input ++ ": " ++ styled "1;34" entity.name ++ " (" ++
    toString entity.blocks.length ++ " blocks, " ++ toString entity.ast.callSites.length ++ " calls)\n"

/-- Both numbers, in green if nothing has failed and with red where something has. -/
def summaryNotice (translated failed : Nat) : String :=
  if failed = 0 then
    "     " ++ styled "1;32" "Summary" ++ " " ++ styled "32" (toString translated) ++ " functions translated, " ++
      styled "32" "0" ++ " failed\n"
  else
    "     " ++ styled "1;31" "Summary" ++ " " ++ styled "32" (toString translated) ++ " functions translated, " ++
      styled "31" (toString failed) ++ " failed\n"

/-- What is said of an input: why it gives no unit, or what has failed in it and then, if all is asked for, what has not. -/
def noticesOf (verbose : Bool) (input : String) : InputResult → List String
  | .unread error => [error.notice input]
  | .read intake =>
    intake.failures.map (failureNotice input) ++ if verbose then intake.table.entities.map (entityNotice input) else []

theorem inputErrorLine_eq (input : String) (error : InputError) : inputErrorLine input error = error.notice input := by
  cases error <;> rfl

theorem failureLine_eq (input : String) (failure : FunctionFailure) :
    failureLine input failure = failureNotice input failure := rfl

theorem entityLine_eq (input : String) (entity : Entity) : entityLine input entity = entityNotice input entity := by
  simp only [entityNotice, entityLine, String.append_assoc]
  rfl

theorem summaryLine_eq (translated failed : Nat) : summaryLine translated failed = summaryNotice translated failed := by
  unfold summaryLine summaryNotice
  split_ifs with hfailed
  · subst hfailed
    rfl
  · rfl

theorem linesOf_eq (verbose : Bool) (input : String) (result : InputResult) :
    linesOf verbose input result = noticesOf verbose input result := by
  cases result with
  | unread error => exact congrArg (fun line => [line]) (inputErrorLine_eq input error)
  | read intake =>
    have hfailures : failureLine input = failureNotice input := funext (failureLine_eq input)
    have hentities : entityLine input = entityNotice input := funext (entityLine_eq input)
    unfold linesOf noticesOf
    rw [hfailures, hentities]

/-! ## Reports -/

namespace Report

def entities (report : Report) : List Entity := report.flatMap fun (_, result) => result.entities

def failures (report : Report) : List FunctionFailure := report.flatMap fun (_, result) => result.failures

def notices (report : Report) (verbose : Bool) : List String :=
  report.flatMap fun (input, result) => noticesOf verbose input result

theorem lines_eq (report : Report) (verbose : Bool) : report.lines verbose = String.join (report.notices verbose) := by
  unfold lines notices
  congr 2
  funext ⟨input, result⟩
  exact linesOf_eq verbose input result

theorem foldl_count {α : Type} (f : InputResult → List α) (report : Report) (count : Nat) :
    report.foldl (fun count (_, result) => count + (f result).length) count =
      count + (report.flatMap fun (_, result) => f result).length := by
  induction report generalizing count with
  | nil => rfl
  | cons entry report ih =>
    rw [List.foldl_cons, ih, List.flatMap_cons, List.length_append, Nat.add_assoc]

theorem translated_eq (report : Report) : report.translated = report.entities.length :=
  (foldl_count InputResult.entities report 0).trans (Nat.zero_add _)

theorem failed_eq (report : Report) : report.failed = report.failures.length :=
  (foldl_count InputResult.failures report 0).trans (Nat.zero_add _)

theorem summary_eq (report : Report) :
    report.summary = summaryNotice report.entities.length report.failures.length := by
  unfold summary
  rw [summaryLine_eq, translated_eq, failed_eq]

end Report

section Inputs

variable (directory : Directory) (inputs : List String)

def Directory.functionsIn : List Transfer.Function :=
  inputs.flatMap fun input => (unitOf (directory.read input)).toOption.getD []

/-- The report on inputs in a directory: each by itself is what a table makes of its unit, if it has one. -/
def Report.ofInputs : Report := inputs.map fun input => (input, .ofUnit (unitOf (directory.read input)))

namespace Report

theorem isClean_iff : (ofInputs directory inputs).isClean = true ↔
    (∀ input ∈ inputs, ∃ functions, unitOf (directory.read input) = .ok functions) ∧
      (ofInputs directory inputs).failures = [] := by
  induction inputs with
  | nil => simp [ofInputs, isClean, failures]
  | cons input inputs ih =>
    simp only [ofInputs, isClean, failures] at ih ⊢
    simp only [List.map_cons, List.all_cons, List.flatMap_cons, List.append_eq_nil_iff, List.forall_mem_cons,
      Bool.and_eq_true, List.isEmpty_iff, InputResult.isRead_iff, ih]
    tauto

theorem length_entities_add_length_failures :
    (ofInputs directory inputs).entities.length + (ofInputs directory inputs).failures.length =
      (directory.functionsIn inputs).length := by
  induction inputs with
  | nil => rfl
  | cons input inputs ih =>
    have hcount := InputResult.length_entities_add_length_failures (unitOf (directory.read input))
    simp only [ofInputs, entities, failures, Directory.functionsIn] at ih ⊢
    simp only [List.map_cons, List.flatMap_cons, List.length_append]
    omega

/-- All entities of a report have listings. -/
theorem exists_listings : ∃ texts, (ofInputs directory inputs).entities.mapM Entity.listing = .ok texts := by
  refine exists_mapM fun entity hmem => ?_
  obtain ⟨entry, hentry, hmem⟩ := List.mem_flatMap.1 hmem
  obtain ⟨input, -, rfl⟩ := List.mem_map.1 hentry
  exact InputResult.exists_listing hmem

end Report

end Inputs

end CommandLine

end FunctionTrees
