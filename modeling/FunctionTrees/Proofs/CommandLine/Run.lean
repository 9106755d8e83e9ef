import FunctionTrees.Proofs.CommandLine.Directory
import FunctionTrees.Proofs.CommandLine.Options
import FunctionTrees.Proofs.CommandLine.Report
import FunctionTrees.Proofs.Formats.Transfer

/-!
# Runs over a directory

* `Options.Reached options directory state written` : what a run has made of a directory, with so much of its output in the
  file for it; `reached_drain` : one step of writing;
* `Options.opened options directory` : the directory once there is a file for the output; `read_of_reached` : all inputs are
  read as in that;
* `ends_processInputs` : how a run ends that has come so far;
* `code_run_ne_two_iff` : all output is written exactly if it has a place;
* `run_agrees` : a run that writes its output keeps and fails what the library keeps and fails of each input, and says so.
-/

set_option autoImplicit false

namespace FunctionTrees.CommandLine

open Outcome

/-! ## Writing -/

section Writing

theorem bind_apply {α β : Type} (first : StateM Directory α) (next : α → StateM Directory β) (state : Directory) :
    (first >>= next) state = next (first state).1 (first state).2 := rfl

variable {options : Options} {directory state : Directory} {written : String}

/-- What a run has made of a directory, with so much of its output in the file for it. -/
inductive Options.Reached (options : Options) (directory : Directory) : Directory → String → Prop where
  | printed (hout : options.output = none) : Reached options directory directory ""
  | filed {path : String} {location : Location} (hout : options.output = some path)
      (htarget : directory.target path = .ok location) (written : String) :
      Reached options directory (directory.put location written.toUTF8) written

theorem append_apply {path : String} {location : Location} (htarget : directory.target path = .ok location)
    (written pending : String) :
    Files.append (m := StateM Directory) path pending (directory.put location written.toUTF8) =
      (.ok (), directory.put location (written ++ pending).toUTF8) := by
  show Directory.change _ _ = _
  unfold Directory.change
  dsimp only
  rw [Directory.append_put written.toUTF8 htarget]
  exact congrArg (fun content => (_, directory.put location content)) String.toByteArray_append.symm

/-- Writing moves text from what is pending to what is written and nothing else. -/
theorem reached_drain (limit : Nat) (pending : String) (h : options.Reached directory state written) :
    ∃ state' written' pending', drain (m := StateM Directory) options limit pending state = (.ok pending', state') ∧
      options.Reached directory state' written' ∧ written' ++ pending' = written ++ pending ∧
      (limit = 0 → options.output.isSome → pending' = "") := by
  cases h with
  | printed hout =>
    refine ⟨directory, "", pending, ?_, .printed hout, rfl, fun _ hsome => ?_⟩
    · unfold drain
      rw [hout]
      rfl
    · rw [hout] at hsome
      cases hsome
  | @filed path location hout htarget =>
    by_cases hlimit : limit < pending.utf8ByteSize
    · refine ⟨_, written ++ pending, "", ?_, .filed hout htarget _, String.append_empty, fun _ _ => rfl⟩
      unfold drain
      rw [hout]
      dsimp only
      rw [if_pos hlimit]
      show (Files.append (m := StateM Directory) path pending >>= fun result =>
        pure (result.map fun _ => "")) (directory.put location written.toUTF8) = _
      rw [bind_apply, append_apply htarget]
      rfl
    · refine ⟨_, written, pending, ?_, .filed hout htarget _, rfl, fun hzero _ => ?_⟩
      · unfold drain
        rw [hout]
        dsimp only
        rw [if_neg hlimit]
        rfl
      · subst hzero
        rwa [Nat.pos_iff_ne_zero, ne_eq, not_not, String.utf8ByteSize_eq_zero_iff] at hlimit

/-- No input is the file that the output goes to. -/
def Options.Apart (options : Options) (directory : Directory) (inputs : List String) : Prop :=
  ∀ path ∈ options.output, ∀ location ∈ (directory.target path).toOption, ∀ input ∈ inputs,
    directory.locate input ≠ .ok location

theorem create_apply (path : String) : Files.create (m := StateM Directory) path directory =
    match directory.target path with
    | .ok location => (.ok (), directory.put location "".toUTF8)
    | .error error => (.error error, directory) := by
  show Directory.change _ _ = _
  unfold Directory.change Directory.write
  dsimp only
  cases directory.target path <;> rfl

/-- The directory once there is a file for the output, in which the inputs are read. -/
def Options.opened (options : Options) (directory : Directory) : Directory :=
  match options.output with
  | none => directory
  | some path => (Files.create (m := StateM Directory) path directory).2

theorem opened_eq {path : String} {location : Location} (hout : options.output = some path)
    (htarget : directory.target path = .ok location) : options.opened directory = directory.put location "".toUTF8 := by
  unfold Options.opened
  rw [hout]
  dsimp only
  rw [create_apply, htarget]

/-- What has been written so far does not show in the inputs. -/
theorem read_of_reached {inputs : List String} {input : String} (h : options.Reached directory state written)
    (hapart : options.Apart directory inputs) (hinput : input ∈ inputs) :
    state.read input = (options.opened directory).read input := by
  cases h with
  | printed hout =>
    unfold Options.opened
    rw [hout]
  | @filed path location hout htarget =>
    have hother : directory.locate input ≠ .ok location := hapart path hout location (by rw [htarget]; rfl) input hinput
    rw [opened_eq hout htarget]
    exact Directory.read_put_congr _ _ (Directory.writable_of_target htarget) hother

/-- The inputs hold the units that they held before there was a file for the output. -/
theorem unitOf_opened {inputs : List String} {input : String} (hapart : options.Apart directory inputs)
    (hinput : input ∈ inputs) (functions : List Transfer.Function) :
    unitOf ((options.opened directory).read input) = .ok functions ↔ unitOf (directory.read input) = .ok functions := by
  cases hout : options.output with
  | none =>
    unfold Options.opened
    rw [hout]
  | some path =>
    cases htarget : directory.target path with
    | error error =>
      unfold Options.opened
      rw [hout]
      dsimp only
      rw [create_apply, htarget]
    | ok location =>
      have hother : directory.locate input ≠ .ok location :=
        hapart path hout location (by rw [htarget]; rfl) input hinput
      rw [opened_eq hout htarget]
      exact unitOf_congr (fun found => Directory.read_put_eq_ok_iff _ (Directory.writable_of_target htarget) hother)
        functions

theorem functionsIn_opened {inputs : List String} (hapart : options.Apart directory inputs) :
    (options.opened directory).functionsIn inputs = directory.functionsIn inputs := by
  unfold Directory.functionsIn
  refine List.flatMap_congr fun input hinput => ?_
  have hunit := unitOf_opened hapart hinput
  cases hopened : unitOf ((options.opened directory).read input) with
  | ok functions => rw [(hunit functions).1 hopened]
  | error error =>
    cases hunit' : unitOf (directory.read input) with
    | ok functions =>
      rw [(hunit functions).2 hunit'] at hopened
      cases hopened
    | error error => rfl

end Writing

/-! ## Endings -/

/-- The output is where it belongs: what has no file to go to is printed. -/
def Options.Delivers (options : Options) (directory : Directory) (output : String) (ending : Finish × Directory) : Prop :=
  match options.output with
  | none => ending.1.out = output ∧ ending.2 = directory
  | some path => ending.1.out = "" ∧
    ∃ location, directory.target path = .ok location ∧ ending.2 = directory.put location output.toUTF8

/-- All inputs have been worked through, and the output is where it belongs. -/
structure Options.Ends (options : Options) (directory : Directory) (report : Report) (output : String)
    (ending : Finish × Directory) : Prop where
  code : ending.1.code = if report.isClean then 0 else 1
  err : ending.1.err = String.join (report.notices options.verbose) ++
    summaryNotice report.entities.length report.failures.length
  output : options.Delivers directory output ending

section Endings

variable {options : Options} {directory state : Directory} {written : String}

theorem ends_finish (progress : Progress) (h : options.Reached directory state written) :
    options.Ends directory progress.report (written ++ progress.pending)
      (finish (m := StateM Directory) options progress state) := by
  obtain ⟨state', written', pending', hdrain, hreached, htext, hall⟩ := reached_drain 0 progress.pending h
  have hfinish : finish (m := StateM Directory) options progress state =
      ({ code := if progress.report.isClean then 0 else 1, out := pending',
         err := progress.report.lines options.verbose ++ progress.report.summary }, state') := by
    unfold finish
    rw [bind_apply, hdrain]
    rfl
  rw [hfinish, ← htext]
  refine ⟨rfl, by rw [← Report.lines_eq, ← Report.summary_eq], ?_⟩
  unfold Options.Delivers
  cases hreached with
  | printed hout =>
    rw [hout]
    exact ⟨String.empty_append.symm, rfl⟩
  | @filed path location hout htarget =>
    obtain rfl : pending' = "" := hall rfl (by rw [hout]; rfl)
    rw [hout, String.append_empty]
    exact ⟨rfl, location, htarget, rfl⟩

def Options.listingOf (options : Options) (texts : List String) : String :=
  if options.dump then String.join texts else ""

theorem listingOf_append (texts texts' : List String) :
    options.listingOf (texts ++ texts') = options.listingOf texts ++ options.listingOf texts' := by
  unfold Options.listingOf
  split_ifs
  · exact String.join_append
  · rfl

theorem listed_eq {result : InputResult} {texts : List String} (h : result.entities.mapM Entity.listing = .ok texts) :
    options.listed result = .ok (options.listingOf texts) := by
  unfold Options.listed Options.listingOf InputResult.listings
  rw [h]
  split_ifs <;> rfl

/-- One input: what became of it is added to the report, and its listings to what is written. -/
theorem processInputs_cons (schedules : Nat → Crew.Schedule) (progress : Progress) {input : String} {inputs : List String}
    {result : InputResult} {listed pending : String} {state' : Directory}
    (hresult : InputResult.ofContent options.workers (schedules progress.report.length) (state.read input) = result)
    (hlisted : options.listed result = .ok listed)
    (hdrain : drain (m := StateM Directory) options bufferSize (progress.pending ++ listed) state =
      (.ok pending, state')) :
    processInputs (m := StateM Directory) options schedules progress (input :: inputs) state =
      processInputs (m := StateM Directory) options schedules ⟨progress.report ++ [(input, result)], pending⟩ inputs
        state' := by
  subst hresult
  have hread : Files.read (m := StateM Directory) input state = (state.read input, state) := rfl
  rw [processInputs, bind_apply, hread]
  dsimp only
  rw [hlisted]
  dsimp only
  rw [bind_apply, hdrain]

/-- How a run ends that has come so far: each input adds what became of it to the report and its listings to the output. -/
theorem ends_processInputs (schedules : Nat → Crew.Schedule) {inputs : List String}
    (hapart : options.Apart directory inputs) (progress : Progress) (h : options.Reached directory state written)
    {texts : List String}
    (htexts : (Report.ofInputs (options.opened directory) inputs).entities.mapM Entity.listing = .ok texts) :
    options.Ends directory (progress.report ++ .ofInputs (options.opened directory) inputs)
      (written ++ progress.pending ++ options.listingOf texts)
      (processInputs (m := StateM Directory) options schedules progress inputs state) := by
  induction inputs generalizing progress state written texts with
  | nil =>
    cases htexts
    have hnone : options.listingOf [] = "" := by
      unfold Options.listingOf
      split_ifs <;> rfl
    show options.Ends directory (progress.report ++ []) (written ++ progress.pending ++ options.listingOf []) _
    rw [hnone, List.append_nil, String.append_empty]
    exact ends_finish progress h
  | cons input inputs ih =>
    let result := InputResult.ofUnit (unitOf ((options.opened directory).read input))
    have hresult :
        InputResult.ofContent options.workers (schedules progress.report.length) (state.read input) = result := by
      rw [InputResult.ofContent_eq_ofUnit, read_of_reached h hapart List.mem_cons_self]
    have hapart' : options.Apart directory inputs := fun path hout location htarget other hmem =>
      hapart path hout location htarget other (List.mem_cons_of_mem _ hmem)
    change (result.entities ++ _).mapM Entity.listing = _ at htexts
    rw [List.mapM_append] at htexts
    obtain ⟨first, hfirst, htexts⟩ := bind_eq_ok_iff.1 htexts
    obtain ⟨more, hmore, ⟨⟩⟩ := bind_eq_ok_iff.1 htexts
    obtain ⟨state', written', pending', hdrain, hreached, htext, -⟩ :=
      reached_drain bufferSize (progress.pending ++ options.listingOf first) h
    have hends := ih hapart' ⟨progress.report ++ [(input, result)], pending'⟩ hreached hmore
    have htext' : written ++ progress.pending ++ options.listingOf (first ++ more) =
        written' ++ pending' ++ options.listingOf more := by
      rw [htext, listingOf_append, String.append_assoc, String.append_assoc, String.append_assoc]
    rw [processInputs_cons schedules progress hresult (listed_eq hfirst) hdrain, htext']
    rw [List.append_assoc] at hends
    exact hends

end Endings

/-! ## Whole runs -/

section Runs

variable {options : Options} {directory : Directory}

/-- A run that can create its output works through all inputs. -/
theorem ends_run (schedules : Nat → Crew.Schedule) (hapart : options.Apart directory options.inputs)
    (htarget : ∀ path ∈ options.output, ∃ location, directory.target path = .ok location) {texts : List String}
    (htexts : (Report.ofInputs (options.opened directory) options.inputs).entities.mapM Entity.listing = .ok texts) :
    options.Ends directory (.ofInputs (options.opened directory) options.inputs) (options.listingOf texts)
      (options.run (m := StateM Directory) schedules directory) := by
  cases hout : options.output with
  | none =>
    have hrun : options.run (m := StateM Directory) schedules directory =
        processInputs (m := StateM Directory) options schedules {} options.inputs directory := by
      unfold Options.run
      rw [hout]
    rw [hrun]
    exact ends_processInputs schedules hapart {} (.printed hout) htexts
  | some path =>
    obtain ⟨location, htarget⟩ := htarget path hout
    have hrun : options.run (m := StateM Directory) schedules directory =
        processInputs (m := StateM Directory) options schedules {} options.inputs (directory.put location "".toUTF8) := by
      unfold Options.run
      rw [hout]
      dsimp only
      rw [bind_apply, create_apply, htarget]
    rw [hrun]
    exact ends_processInputs schedules hapart {} (.filed hout htarget "") htexts

/-- All output is written exactly if it has a place. -/
theorem code_run_ne_two_iff (schedules : Nat → Crew.Schedule) (hapart : options.Apart directory options.inputs) :
    (options.run (m := StateM Directory) schedules directory).1.code ≠ 2 ↔
      ∀ path ∈ options.output, ∃ location, directory.target path = .ok location := by
  constructor
  · intro hcode path hout
    cases htarget : directory.target path with
    | ok location => exact ⟨location, rfl⟩
    | error error =>
      refine absurd ?_ hcode
      unfold Options.run
      rw [hout]
      dsimp only
      rw [bind_apply, create_apply, htarget]
      rfl
  · intro htarget
    obtain ⟨texts, htexts⟩ := Report.exists_listings (options.opened directory) options.inputs
    rw [(ends_run schedules hapart htarget htexts).code]
    split_ifs <;> decide

/-- A run that writes its output keeps and fails of each input what the library does of the functions in it, whatever the
others are. The listings of all entities in their order are the output. Standard error names, input by input, the inputs
that could not be read and the functions that have failed, with the reasons, and then counts what is kept and what has
failed. The run succeeds exactly if every input could be read and nothing has failed, and a command line that spells the
options out does the same. -/
theorem run_agrees (options : Options) (schedules : Nat → Crew.Schedule) (directory : Directory)
    (hapart : options.Apart directory options.inputs)
    (hwritten : (options.run (m := StateM Directory) schedules directory).1.code ≠ 2) :
    let ending := options.run (m := StateM Directory) schedules directory
    let report := Report.ofInputs (options.opened directory) options.inputs
    (∀ input ∈ options.inputs, ∀ functions,
        unitOf ((options.opened directory).read input) = .ok functions ↔ unitOf (directory.read input) = .ok functions) ∧
      (∃ texts, report.entities.mapM Entity.listing = .ok texts ∧ List.Forall₂ Entity.Listed report.entities texts ∧
        options.Delivers directory (if options.dump then String.join texts else "") ending) ∧
      ending.1.err = String.join (report.notices options.verbose) ++
        summaryNotice report.entities.length report.failures.length ∧
      report.entities.length + report.failures.length = (directory.functionsIn options.inputs).length ∧
      (ending.1.code = 0 ↔ (∀ input ∈ options.inputs, ∃ functions, unitOf (directory.read input) = .ok functions) ∧
        report.failures = []) ∧
      (ending.1.code = 0 ∨ ending.1.code = 1) ∧
      ((∀ count ∈ options.jobs, count < UInt64.size) → (run options.words : StateM Directory Finish) directory = ending) := by
  intro ending report
  have hunits : ∀ input ∈ options.inputs, ∀ functions, unitOf ((options.opened directory).read input) = .ok functions ↔
      unitOf (directory.read input) = .ok functions := fun input hinput => unitOf_opened hapart hinput
  obtain ⟨texts, htexts⟩ := Report.exists_listings (options.opened directory) options.inputs
  have hends := ends_run schedules hapart ((code_run_ne_two_iff schedules hapart).1 hwritten) htexts
  refine ⟨hunits, ⟨texts, htexts, ?_, hends.output⟩, hends.err, ?_, ?_, ?_, fun hjobs => ?_⟩
  · exact (mapM_eq_ok_iff.1 htexts).imp fun _ _ => Entity.listed_of_listing
  · rw [Report.length_entities_add_length_failures, functionsIn_opened hapart]
  · have hread :
        (∀ input ∈ options.inputs, ∃ functions, unitOf ((options.opened directory).read input) = .ok functions) ↔
        ∀ input ∈ options.inputs, ∃ functions, unitOf (directory.read input) = .ok functions :=
      forall₂_congr fun input hinput => exists_congr (hunits input hinput)
    rw [hends.code, ← hread, ← Report.isClean_iff]
    split_ifs with hclean
    · exact iff_of_true rfl hclean
    · exact iff_of_false (by decide) hclean
  · rw [hends.code]
    split_ifs
    · exact .inl rfl
    · exact .inr rfl
  · rw [run_words hjobs]
    exact congrFun (Options.run_eq options options.jobs (fun _ => []) schedules) directory

/-- A directory with one file, and the paths of that file, of another one and of one to be written. -/
theorem paths_ofFiles (content : ByteArray) :
    let directory := Directory.ofFiles [("a.json", content)]
    directory.read "a.json" = .ok content ∧ directory.locate "a.json" = .ok ["a.json"] ∧
      directory.locate "b.json" = .ok ["b.json"] ∧ directory.target "out" = .ok ["out"] ∧
      (directory.put ["out"] "".toUTF8).read "b.json" = .error .notFound := by
  refine ⟨?_, ?_, ?_, ?_, ?_⟩ <;> with_unfolding_all rfl

/-- A function of another version, one that is kept, and that one again. -/
def mixedUnit : List Transfer.Function := [{ Lowering.sample with version := 7 }, Lowering.sample, Lowering.sample]

/-- The first and the last of the three fail. -/
theorem ofUnit_mixedUnit :
    ∃ entity, (entityOf Lowering.sample).result = .ok entity ∧
      (Intake.ofUnit mixedUnit).table.entities = [entity] ∧
      (Intake.ofUnit mixedUnit).failures =
        [⟨"clamp", .lowering (.unsupportedVersion 7)⟩, ⟨"clamp", .entity (.duplicateName "clamp")⟩] := by
  let strange := { Lowering.sample with version := 7 }
  have hstrange : (entityOf strange).result = .error (.lowering (.unsupportedVersion 7)) := rfl
  have hsound : (Lowering.lower Lowering.sample).result.map EntityParts.defect? = .ok none := by decide +kernel
  obtain ⟨parts, hparts, hsound⟩ := map_eq_ok_iff.1 hsound
  have hentity : (entityOf Lowering.sample).result = .ok (.assemble parts hsound) := entityOf_eq_ok_iff.2 hparts
  have hnone : hasEntity strange = false := by rw [hasEntity, hstrange]; rfl
  have hsome : hasEntity Lowering.sample = true := by rw [hasEntity, hentity]; rfl
  have hfree : Lowering.sample.name ∉ claimed {} [strange] := by simp [claimed, hnone]
  have htaken : Lowering.sample.name ∈ claimed {} ([strange] ++ [Lowering.sample]) :=
    mem_claimed_concat.2 (.inr ⟨hsome, rfl⟩)
  have hfirst := fate_of_error {} hstrange []
  have hkept := (fate_of_ok {} hentity [strange]).trans (if_neg hfree)
  have hagain := (fate_of_ok {} hentity ([strange] ++ [Lowering.sample])).trans (if_pos htaken)
  have hfates : fates {} mixedUnit =
      [.error ⟨"clamp", .lowering (.unsupportedVersion 7)⟩, .ok (.assemble parts hsound),
        .error ⟨"clamp", .entity (.duplicateName "clamp")⟩] := by
    show [fate {} [] strange, fate {} [strange] Lowering.sample,
      fate {} ([strange] ++ [Lowering.sample]) Lowering.sample] = _
    rw [hfirst, hkept, hagain]
    rfl
  have hsettled := settled_ofFunctions {} mixedUnit
  refine ⟨.assemble parts hsound, hentity, ?_, ?_⟩
  · rw [Intake.ofUnit, hsettled.entities, hfates]
    rfl
  · rw [Intake.ofUnit, hsettled.failures, hfates]
    rfl

theorem entityNotice_sample {entity : Entity} (h : (entityOf Lowering.sample).result = .ok entity) :
    entityNotice "a.json" entity =
      "  \x1b[32mtranslated\x1b[0m \x1b[36ma.json\x1b[0m: \x1b[1;34mclamp\x1b[0m (2 blocks, 1 calls)\n" := by
  have hcounts : (Lowering.lower Lowering.sample).result.map (fun parts =>
      (parts.blocks.length, parts.ast.callSites.length)) = .ok (2, 1) := by decide +kernel
  rw [entityOf_eq_ok_iff.1 h] at hcounts
  obtain ⟨hblocks, hcalls⟩ := Prod.mk.inj (Except.ok.inj hcounts)
  change entity.blocks.length = 2 at hblocks
  change entity.ast.callSites.length = 1 at hcalls
  have hname : entity.name = "clamp" := name_of_entityOf h
  rw [entityNotice, hname, hblocks, hcalls]
  decide +kernel

/-- A file with these functions, and a file that is not there. -/
theorem run_agrees_missing :
    let directory := Directory.ofFiles [("a.json", (Transfer.unitFormat.encode mixedUnit).toUTF8)]
    let options : Options :=
      { jobs := some 2, dump := true, verbose := true, output := some "out", inputs := ["a.json", "b.json"] }
    let ending := options.run (m := StateM Directory) (fun _ => []) directory
    (∃ entity text, (entityOf Lowering.sample).result = .ok entity ∧ entity.listing = .ok text ∧
        options.Delivers directory text ending) ∧
      ending.1.err =
        "\x1b[1;31merror:\x1b[0m \x1b[36ma.json\x1b[0m: translation failed for function \x1b[1;34mclamp\x1b[0m: " ++
          "unsupported transfer version 7 (expected 1)\n" ++
        "\x1b[1;31merror:\x1b[0m \x1b[36ma.json\x1b[0m: translation failed for function \x1b[1;34mclamp\x1b[0m: " ++
          "an entity named `clamp` was already registered\n" ++
        "  \x1b[32mtranslated\x1b[0m \x1b[36ma.json\x1b[0m: \x1b[1;34mclamp\x1b[0m (2 blocks, 1 calls)\n" ++
        "\x1b[1;31merror:\x1b[0m \x1b[1;37mb.json\x1b[0m: unable to read file: No such file or directory (os error 2)\n" ++
        "     \x1b[1;31mSummary\x1b[0m \x1b[32m1\x1b[0m functions translated, \x1b[31m2\x1b[0m failed\n" ∧
      ending.1.code = 1 ∧ (run options.words : StateM Directory Finish) directory = ending := by
  have hdecode : Transfer.unitFormat.ReadsBack mixedUnit :=
    (Transfer.settles_unit _ (by decide)).readsBack_iff.2 (by decide)
  unfold Json.Format.ReadsBack at hdecode
  -- of the text and of the directory only these facts matter
  generalize Transfer.unitFormat.encode mixedUnit = text at hdecode ⊢
  have hpaths := paths_ofFiles text.toUTF8
  dsimp only at hpaths ⊢
  generalize Directory.ofFiles [("a.json", text.toUTF8)] = directory at hpaths ⊢
  obtain ⟨hread, hlocate, hlocate', htarget, hmissing⟩ := hpaths
  let options : Options :=
    { jobs := some 2, dump := true, verbose := true, output := some "out", inputs := ["a.json", "b.json"] }
  have hapart : options.Apart directory options.inputs := by
    intro path hout location hlocation input hinput
    obtain rfl : "out" = path := Option.some.inj hout
    rw [htarget] at hlocation
    obtain rfl : ["out"] = location := Option.some.inj hlocation
    rcases List.mem_pair.1 hinput with rfl | rfl
    · rw [hlocate]
      decide
    · rw [hlocate']
      decide
  have hwritten : (options.run (m := StateM Directory) (fun _ => []) directory).1.code ≠ 2 := by
    refine (code_run_ne_two_iff _ hapart).2 fun path hout => ?_
    obtain rfl : "out" = path := Option.some.inj hout
    exact ⟨_, htarget⟩
  obtain ⟨hunits, ⟨texts, htexts, -, houtput⟩, herr, -, hclean, hcode, hwords⟩ :=
    run_agrees options (fun _ => []) directory hapart hwritten
  have hunit : unitOf (directory.read "a.json") = .ok mixedUnit := by
    rw [hread, unitOf_toUTF8, hdecode]
    rfl
  have hunread : (options.opened directory).read "b.json" = .error .notFound := by
    rw [opened_eq rfl htarget]
    exact hmissing
  have hreport : Report.ofInputs (options.opened directory) options.inputs =
      [("a.json", .read (Intake.ofUnit mixedUnit)), ("b.json", .unread (.unreadable .notFound))] := by
    rw [Report.ofInputs, List.map_cons, List.map_singleton, (hunits "a.json" List.mem_cons_self mixedUnit).2 hunit,
      hunread]
    rfl
  obtain ⟨entity, hentity, hkept, hfailed⟩ := ofUnit_mixedUnit
  rw [hreport] at htexts herr
  simp only [Report.entities, Report.failures, Report.notices, List.flatMap_cons, List.flatMap_nil, noticesOf,
    InputResult.entities, InputResult.failures, hkept, hfailed, List.append_nil, List.map_cons, List.map_nil,
    List.length_singleton, entityNotice_sample hentity] at htexts herr
  obtain ⟨text, hlisting, ⟨⟩⟩ := bind_eq_ok_iff.1 htexts
  refine ⟨⟨entity, text, hentity, hlisting, ?_⟩, herr.trans (by decide +kernel), hcode.resolve_left fun hzero => ?_,
    hwords ?_⟩
  · simpa [options] using houtput
  · have hmem : "b.json" ∈ options.inputs := List.mem_cons_of_mem _ List.mem_cons_self
    obtain ⟨functions, hfunctions⟩ := (hclean.1 hzero).1 "b.json" hmem
    rw [← hunits "b.json" hmem, hunread] at hfunctions
    cases hfunctions
  · rintro count ⟨⟩
    decide

end Runs

end FunctionTrees.CommandLine
