import FunctionTrees.Proofs.Formats.Transfer
import FunctionTrees.Proofs.Json.Spelling

/-!
# Functions that are handed over in other spellings

* `Function.spelling` : the texts of a function, in which the fields of each object come in any order and with others among
  them, and those that are what they are by default can be left out;
* `meets_span`, `meets_instruction`, `meets_block`, `meets_function` : all of them are read, what is written for a function
  is one of them, and none that lacks a field is read;
* `decode_spelling` : so a text is decoded as the function, unless an object in it lacks a field.
-/

set_option autoImplicit false

namespace FunctionTrees.Transfer

open Json
open Spelling (Slot)

/-! ## Texts of a function -/

def Span.spelling (span : Span) : Spelling := .object
  [.required "file" (.exactly (Format.text.write span.file)),
    .required "first_line" (.exactly (Format.word32.write span.firstLine)),
    .required "first_col" (.exactly (Format.word32.write span.firstCol)),
    .required "last_line" (.exactly (Format.word32.write span.lastLine)),
    .required "last_col" (.exactly (Format.word32.write span.lastCol))]

def Instruction.spelling (inst : Instruction) : Spelling := .object
  [.required "opcode" (.exactly (Format.text.write inst.opcode)),
    .defaulted "result" inst.result.isNone (.exactly (Format.text.optional.write inst.result)),
    .defaulted "operands" inst.operands.isEmpty (.exactly (Operand.format.list.write inst.operands)),
    .defaulted "targets" inst.targets.isEmpty (.exactly (Format.text.list.write inst.targets)),
    .defaulted "position" inst.position.isNone (.optional Span.spelling inst.position)]

def Block.spelling (block : Block) : Spelling := .object
  [.required "label" (.exactly (Format.text.write block.label)),
    .required "instructions" (.list (block.instructions.map Instruction.spelling))]

def Function.spelling (function : Function) : Spelling := .object
  [.required "version" (.exactly (Format.word32.write function.version)),
    .required "function_name" (.exactly (Format.text.write function.name)),
    .required "return_type" (.exactly (Format.text.write function.returnType)),
    .defaulted "argument_names" function.argumentNames.isEmpty
      (.exactly (Format.text.list.write function.argumentNames)),
    .defaulted "argument_types" function.argumentTypes.isEmpty
      (.exactly (Format.text.list.write function.argumentTypes)),
    .defaulted "argument_positions" function.argumentPositions.isEmpty
      (.list (function.argumentPositions.map Span.spelling)),
    .defaulted "function_position" function.position.isNone (.optional Span.spelling function.position),
    .defaulted "blocks" function.blocks.isEmpty (.list (function.blocks.map Block.spelling))]

/-! ## All of them are read -/

theorem head_span {span : Span} {lacking : Option String} {text : List Char} (h : span.spelling lacking text) :
    text.head? ≠ some 'n' := by
  obtain ⟨known, noise, entries, -, -, -, rfl⟩ := h
  simp

theorem meets_span (span : Span) : span.spelling.Meets Span.format span :=
  Spelling.meets_object (by decide)
    (.field (Spelling.meets_exactly (Format.reads_text _)) rfl
      (.field (Spelling.meets_exactly (Format.reads_word32 _)) rfl
        (.field (Spelling.meets_exactly (Format.reads_word32 _)) rfl
          (.field (Spelling.meets_exactly (Format.reads_word32 _)) rfl
            (.field (Spelling.meets_exactly (Format.reads_word32 _)) rfl .done))))) rfl

def AllReadBack (floats : List UInt64) : Prop := ∀ bits ∈ floats, Format.float.ReadsBack bits

instance (floats : List UInt64) : Decidable (AllReadBack floats) := List.decidableBAll Format.float.ReadsBack floats

theorem AllReadBack.allFinite {floats : List UInt64} (h : AllReadBack floats) : AllFinite floats :=
  fun bits hbits => Format.isFinite_of_readsBack (h bits hbits)

theorem reads_operands (operands : List Operand) (h : AllReadBack (operands.flatMap Operand.floats)) :
    Operand.format.list.Reads operands :=
  (settles_floats settles_operand fun bits hbits _ => h bits hbits).reads h.allFinite

theorem meets_span? (span : Option Span) : (Spelling.optional Span.spelling span).Meets Span.format.optional span :=
  Spelling.meets_optional (fun found _ => meets_span found) fun _ _ _ => head_span

theorem meets_instruction (inst : Instruction) (h : AllReadBack inst.floats) :
    inst.spelling.Meets Instruction.format inst :=
  Spelling.meets_object (by decide)
    (.field (Spelling.meets_exactly (Format.reads_text _)) rfl
      (.field (Spelling.meets_exactly (reads_text? _)) (Spelling.suits_none _)
        (.field (Spelling.meets_exactly (reads_operands _ h)) (Spelling.suits_nil _)
          (.field (Spelling.meets_exactly (Format.reads_texts _)) (Spelling.suits_nil _)
            (.field (meets_span? _) (Spelling.suits_none _) .done))))) rfl

theorem meets_block (block : Block) (h : AllReadBack block.floats) : block.spelling.Meets Block.format block :=
  Spelling.meets_object (by decide)
    (.field (Spelling.meets_exactly (Format.reads_text _)) rfl
      (.field (Spelling.meets_list _ fun inst hmem => meets_instruction inst (List.forall_mem_flatMap.1 h inst hmem)) rfl
        .done)) rfl

theorem meets_function (function : Function) (h : AllReadBack function.floats) :
    function.spelling.Meets Function.format function :=
  Spelling.meets_object (by decide)
    (.field (Spelling.meets_exactly (Format.reads_word32 _)) rfl
      (.field (Spelling.meets_exactly (Format.reads_text _)) rfl
        (.field (Spelling.meets_exactly (Format.reads_text _)) rfl
          (.field (Spelling.meets_exactly (Format.reads_texts _)) (Spelling.suits_nil _)
            (.field (Spelling.meets_exactly (Format.reads_texts _)) (Spelling.suits_nil _)
              (.field (Spelling.meets_list _ fun span _ => meets_span span) (Spelling.suits_nil _)
                (.field (meets_span? _) (Spelling.suits_none _)
                  (.field (Spelling.meets_list _ fun block hmem =>
                    meets_block block (List.forall_mem_flatMap.1 h block hmem)) (Spelling.suits_nil _) .done)))))))) rfl

/-- A function is read from any of its texts: in each object of such a text, the fields come in any order, with any others
among them, and those that are what they are by default can be left out. What is written for the function is one of them.
A text in which one object lacks a required field is refused for that field. -/
theorem decode_spelling (function : Function) (h : AllReadBack function.floats) :
    function.spelling none (Function.format.write function) ∧
    (∀ text, function.spelling none text → Function.format.decode (String.ofList text) = .ok function) ∧
    ∀ name text, function.spelling (some name) text → ∃ spot,
      Function.format.decode (String.ofList text) = .error ⟨.unfit (.missingField name), spot⟩ := by
  have hmeets := meets_function function h
  refine ⟨hmeets.writes, fun text htext => ?_, fun name text htext => ?_⟩
  · exact Format.decode_of_reads (hmeets.reads text htext)
  · exact Format.decode_of_refuses (hmeets.refuses name text htext)

/-- A function with all fields the other way round, a note among them and some left out, and the same text without the opcode
of its instruction. -/
theorem decode_spelling_without_opcode :
    let object (entries : List (String × List Char)) :=
      '\x7b' :: (Format.commas (entries.map Layout.entryText) ++ ['\x7d'])
    let note := ("note", ['[', ' ', 'n', 'u', 'l', 'l', ',', '-', '0', '.', '5', ']'])
    let opcode := ("opcode", Format.text.write "return")
    let operands := ("operands", Operand.format.list.write [.float 0x4004000000000000])
    let block (inst : List (String × List Char)) := object
      [note, ("instructions", '[' :: (object inst ++ [']'])), ("label", writeText "entry")]
    let text (inst : List (String × List Char)) := object
      [note, ("blocks", '[' :: (block inst ++ [']'])), ("return_type", writeText "Int"), ("function_name", writeText "f"),
        ("version", Format.word32.write 1)]
    let inst : Instruction := { opcode := "return", operands := [.float 0x4004000000000000] }
    let function : Function := { name := "f", returnType := "Int", blocks := [⟨"entry", [inst]⟩] }
    Function.format.decode (String.ofList (text [note, operands, opcode])) = .ok function ∧
      ∃ spot, Function.format.decode (String.ofList (text [operands])) = .error ⟨.unfit (.missingField "opcode"), spot⟩ := by
  intro object note opcode operands block text inst function
  have hfloats : AllReadBack function.floats := by decide +kernel
  have hnote : WellFormed note.2 := by
    have hnone : Blanks [] := List.forall_mem_nil _
    have hblank : Blanks [' '] := List.forall_mem_singleton.2 rfl
    have hdigits : Digits ['5'] := ⟨List.cons_ne_nil _ _, List.forall_mem_singleton.2 rfl⟩
    have hnumeral : Numeral ['-', '0', '.', '5'] :=
      @Numeral.mk (some '-') ['0'] ['.', '5'] [] (by simp) (.inl rfl) (.inr ⟨['5'], hdigits, rfl⟩) (.inl rfl)
    have hparts : ∀ element ∈ [(⟨[' '], ['n', 'u', 'l', 'l'], [], hblank, hnone⟩ : Padded),
        ⟨[], ['-', '0', '.', '5'], [], hnone, hnone⟩], WellFormed element.part := by
      rw [List.forall_mem_cons, List.forall_mem_singleton]
      exact ⟨.null, .number hnumeral⟩
    exact .list (List.cons_ne_nil _ _) hparts
  have hnoise : ∀ slots : List Slot, "note" ∉ slots.map Slot.name → Spelling.Noise slots [note] := by
    intro slots hslots
    exact List.forall_mem_singleton.2 ⟨hslots, hnote⟩
  -- what the text of the instruction lacks is what the whole text lacks
  have htext : ∀ lacking fields, inst.spelling lacking (object fields) → function.spelling lacking (text fields) := by
    intro lacking fields hinst
    have hblock : Block.spelling ⟨"entry", [inst]⟩ lacking (block fields) :=
      ⟨_, [note], _, .whole ⟨rfl, rfl⟩ (.single (Spelling.list_single hinst)), hnoise _ (by decide),
        List.reverse_perm _, rfl⟩
    exact ⟨_, [note], _, .whole ⟨rfl, rfl⟩ (.whole ⟨rfl, rfl⟩ (.whole ⟨rfl, rfl⟩ (.omitted rfl (.omitted rfl (.omitted rfl
      (.omitted rfl (.single (Spelling.list_single hblock)))))))), hnoise _ (by decide), List.reverse_perm _, rfl⟩
  obtain ⟨-, hreads, hrefuses⟩ := decode_spelling function hfloats
  refine ⟨hreads _ (htext _ _ ?_), hrefuses "opcode" _ (htext _ _ ?_)⟩
  · exact ⟨[opcode, operands], [note], _,
      .whole ⟨rfl, rfl⟩ (.omitted rfl (.whole ⟨rfl, rfl⟩ (.omitted rfl (.omitted rfl .nil)))), hnoise _ (by decide),
      List.reverse_perm _, rfl⟩
  · exact ⟨[operands], [], _, .missing rfl (.omitted rfl (.whole ⟨rfl, rfl⟩ (.omitted rfl (.omitted rfl .nil)))),
      List.forall_mem_nil _, .refl _, rfl⟩

end FunctionTrees.Transfer
