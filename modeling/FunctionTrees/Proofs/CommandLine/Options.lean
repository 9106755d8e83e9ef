import FunctionTrees.CommandLine.Run
import FunctionTrees.Proofs.Outcome
import Mathlib.Data.Option.Basic

/-!
# Options are read back from a command line

* `countOf_toString` : a number of jobs is read back from its digits;
* `Options.words options` : a command line that asks for the options; `tokensOf_words` : its tokens;
* `Rest.Passes setting rest` : nothing that is left names the setting;
* `takeArgument_behind`, `takeFlag_behind`, `takeWords_behind` : a setting takes the tokens that it is spelled with, and
  leaves all others;
* `ofWords_words` : the command line is read as the options that it is made from; `run_words` : it runs with them.
-/

set_option autoImplicit false

namespace FunctionTrees.CommandLine

/-! ## Numbers of jobs -/

theorem le_ofDigitChars (digits : List Char) (count : Nat) : count ≤ Nat.ofDigitChars 10 digits count := by
  induction digits generalizing count with
  | nil => exact Nat.le_refl count
  | cons c digits ih =>
    have hmore := ih (10 * count + (c.toNat - '0'.toNat))
    rw [Nat.ofDigitChars_cons]
    omega

/-- Digits are read one by one, as long as the number stays small. -/
theorem foldlM_addDigit {digits : List Char} {count : Nat} (hdigits : ∀ c ∈ digits, c.isDigit = true)
    (hsmall : Nat.ofDigitChars 10 digits count < UInt64.size) :
    digits.foldlM addDigit count = .ok (Nat.ofDigitChars 10 digits count) := by
  induction digits generalizing count with
  | nil => rfl
  | cons c digits ih =>
    rw [List.forall_mem_cons] at hdigits
    rw [Nat.ofDigitChars_cons] at hsmall ⊢
    have hhead : addDigit count c = .ok (10 * count + (c.toNat - '0'.toNat)) := by
      unfold addDigit
      rw [hdigits.1]
      exact if_pos (Nat.lt_of_le_of_lt (le_ofDigitChars digits _) hsmall)
    rw [List.foldlM_cons, hhead]
    exact ih hdigits.2 hsmall

theorem countOf_toString {count : Nat} (h : count < UInt64.size) : countOf (toString count) = .ok count := by
  have hread : (Nat.toDigits 10 count).foldlM addDigit 0 = .ok count := by
    have hvalue : Nat.ofDigitChars 10 (Nat.toDigits 10 count) 0 = count := Nat.ofDigitChars_ten_toDigits
    have hdigits : ∀ c ∈ Nat.toDigits 10 count, c.isDigit = true := fun c hc =>
      Nat.isDigit_of_mem_toDigits (by decide) (Nat.le_refl 10) hc
    rw [foldlM_addDigit hdigits (hvalue.symm ▸ h), hvalue]
  unfold countOf
  rw [Nat.toString_eq_ofList_toDigits, String.toList_ofList]
  split
  next hdigits => exact absurd hdigits Nat.toDigits_ne_nil
  next hdigits =>
    rw [hdigits] at hread
    cases hread
  next digits hdigits =>
    rw [hdigits] at hread
    cases hread
  next => exact hread

/-! ## Spelling options out -/

namespace Setting

def withArgument (setting : Setting) (text : String) : String := "--" ++ setting.word ++ "=" ++ text

def alone (setting : Setting) : String := "--" ++ setting.word

def argumentWords (setting : Setting) : Option String → List String
  | none => []
  | some text => [setting.withArgument text]

def flagWords (setting : Setting) : Bool → List String
  | false => []
  | true => [setting.alone]

def argumentTokens (setting : Setting) : Option String → List Token
  | none => []
  | some text => [.option (.long setting.word) (setting.withArgument text), .attached text]

def flagTokens (setting : Setting) : Bool → List Token
  | false => []
  | true => [.option (.long setting.word) setting.alone]

end Setting

namespace Options

/-- A command line that asks for the options. -/
def words (options : Options) : List String :=
  Setting.jobs.argumentWords (options.jobs.map toString) ++ Setting.dump.flagWords options.dump ++
    Setting.output.argumentWords options.output ++ Setting.verbose.flagWords options.verbose ++ "--" :: options.inputs

def tokens (options : Options) : List Token :=
  Setting.jobs.argumentTokens (options.jobs.map toString) ++ Setting.dump.flagTokens options.dump ++
    Setting.output.argumentTokens options.output ++ Setting.verbose.flagTokens options.verbose ++
    options.inputs.map .operand

end Options

section Words

variable {setting : Setting}

/-- A word behind two dashes, up to the first `=` in it, names an option; what follows is attached to it. -/
theorem ofWord_long {word : String} {rest : List Char} (h : word.toList = '-' :: '-' :: rest) : Token.ofWord word =
    let name := Token.option (.long (String.ofList (rest.takeWhile (· ≠ '=')))) word
    match rest.dropWhile (· ≠ '=') with
    | [] => [name]
    | _ :: argument => [name, .attached (String.ofList argument)] := by
  unfold Token.ofWord
  rw [h]
  rfl

theorem tokensOf_argumentWords (hword : '=' ∉ setting.word.toList) (argument : Option String) (words : List String) :
    tokensOf (setting.argumentWords argument ++ words) = setting.argumentTokens argument ++ tokensOf words := by
  cases argument with
  | none => rfl
  | some text =>
    have hlist : (setting.withArgument text).toList = '-' :: '-' :: (setting.word.toList ++ '=' :: text.toList) := by
      simp [Setting.withArgument]
    have hne : setting.withArgument text ≠ "--" := fun heq => by
      rw [heq] at hlist
      simp at hlist
    have hletters : ∀ c ∈ setting.word.toList, decide (c ≠ '=') = true := fun c hc =>
      decide_eq_true fun heq => hword (heq ▸ hc)
    have hname : (setting.word.toList ++ '=' :: text.toList).takeWhile (· ≠ '=') = setting.word.toList :=
      (List.takeWhile_append_of_pos hletters).trans (List.append_nil _)
    have hrest : (setting.word.toList ++ '=' :: text.toList).dropWhile (· ≠ '=') = '=' :: text.toList :=
      List.dropWhile_append_of_pos hletters
    show tokensOf (setting.withArgument text :: words) = _
    rw [tokensOf, if_neg hne, ofWord_long hlist, hname, hrest]
    simp [Setting.argumentTokens]

theorem tokensOf_flagWords (hword : '=' ∉ setting.word.toList) (hname : setting.word ≠ "") (flag : Bool)
    (words : List String) :
    tokensOf (setting.flagWords flag ++ words) = setting.flagTokens flag ++ tokensOf words := by
  cases flag with
  | false => rfl
  | true =>
    have hlist : setting.alone.toList = '-' :: '-' :: setting.word.toList := by simp [Setting.alone]
    have hne : setting.alone ≠ "--" := fun heq => by
      rw [heq] at hlist
      simp [hname] at hlist
    have hletters : ∀ c ∈ setting.word.toList, decide (c ≠ '=') = true := fun c hc =>
      decide_eq_true fun heq => hword (heq ▸ hc)
    have hall : (setting.word.toList ++ []).takeWhile (· ≠ '=') = setting.word.toList ++ [] :=
      List.takeWhile_append_of_pos hletters
    have hrest : (setting.word.toList ++ []).dropWhile (· ≠ '=') = [] := List.dropWhile_append_of_pos hletters
    rw [List.append_nil] at hall hrest
    show tokensOf (setting.alone :: words) = _
    rw [tokensOf, if_neg hne, ofWord_long hlist, hall, hrest]
    simp [Setting.flagTokens]

theorem tokensOf_words (options : Options) : tokensOf options.words = options.tokens := by
  have hinputs : tokensOf ("--" :: options.inputs) = options.inputs.map .operand := rfl
  unfold Options.words Options.tokens
  simp only [List.append_assoc]
  rw [tokensOf_argumentWords (by decide), tokensOf_flagWords (by decide) (by decide), tokensOf_argumentWords (by decide),
    tokensOf_flagWords (by decide) (by decide), hinputs]

end Words

/-! ## Taking settings -/

namespace Rest

variable {setting : Setting} {left : List Token}

/-- What is left of a command line once some tokens at its start have been used. -/
def behind (used left : List Token) : Rest := used.map (fun _ => none) ++ left.map some

/-- No token names the setting. -/
def Passes (setting : Setting) (tokens : List Token) : Prop := find? (tokens.map some) setting = none

theorem passes_append {first second : List Token} :
    Passes setting (first ++ second) ↔ Passes setting first ∧ Passes setting second := by
  simp only [Passes, find?, List.findIdx?_eq_none_iff, List.map_append, List.forall_mem_append]

theorem passes_operands (setting : Setting) (inputs : List String) : Passes setting (inputs.map .operand) := by
  simp [Passes, find?]

theorem passes_argument {other : Setting} (hword : other.word ≠ setting.word) (argument : Option String) :
    Passes setting (other.argumentTokens argument) := by
  cases argument <;> simp [Passes, find?, Setting.argumentTokens, Setting.isNamed, hword]

theorem passes_flag {other : Setting} (hword : other.word ≠ setting.word) (flag : Bool) :
    Passes setting (other.flagTokens flag) := by
  cases flag <;> simp [Passes, find?, Setting.flagTokens, Setting.isNamed, hword]

theorem find?_behind (used left : List Token) (setting : Setting) :
    (behind used left).find? setting = (find? (left.map some) setting).map fun index => index + used.length := by
  have hgaps : find? (used.map fun _ => none) setting = none := by simp [find?]
  unfold find? at hgaps
  unfold behind find?
  rw [List.findIdx?_append, hgaps, List.length_map]
  rfl

theorem find?_named (setting : Setting) (word : String) (more : Rest) :
    find? (some (.option (.long setting.word) word) :: more) setting = some 0 := by
  simp [find?, List.findIdx?_cons, Setting.isNamed]

/-- A setting takes its argument if it comes next, and nothing if it does not come. -/
theorem takeArgument_behind (hleft : Passes setting left) (used : List Token) (argument : Option String) :
    (behind used (setting.argumentTokens argument ++ left)).takeArgument setting =
      (.ok (argument.map fun text => ⟨(OptionName.long setting.word).text ++ "=", text⟩),
        behind (used ++ setting.argumentTokens argument) left) := by
  unfold takeArgument
  rw [find?_behind]
  cases argument with
  | none =>
    rw [Setting.argumentTokens, List.nil_append, hleft, List.append_nil]
    rfl
  | some text =>
    rw [Setting.argumentTokens, List.cons_append, List.map_cons, find?_named]
    simp [behind, Token.text]

theorem takeFlag_behind (hleft : Passes setting left) (used : List Token) (flag : Bool) :
    (behind used (setting.flagTokens flag ++ left)).takeFlag setting =
      (flag, behind (used ++ setting.flagTokens flag) left) := by
  unfold takeFlag
  rw [find?_behind]
  cases flag with
  | false =>
    rw [Setting.flagTokens, List.nil_append, hleft, List.append_nil]
    rfl
  | true =>
    rw [Setting.flagTokens, List.cons_append, List.map_cons, find?_named]
    simp [behind]

/-- The operands are the words that are left, and nothing is left behind them. -/
theorem takeWords_behind (used : List Token) (inputs : List String) :
    (behind used (inputs.map .operand)).takeWords = (inputs, behind (used ++ inputs.map .operand) []) := by
  unfold takeWords behind
  simp [Function.comp_def, List.filterMap_map]

theorem firstUnused?_behind (used tokens : List Token) : (behind used []).firstUnused? tokens = none := by
  have hnone : (behind used []).findIdx? Option.isSome = none := by simp [behind]
  unfold firstUnused?
  rw [hnone]
  rfl

end Rest

/-! ## Reading options back -/

/-- A command line is read as the options that it is made from. -/
theorem ofWords_words {options : Options} (h : ∀ count ∈ options.jobs, count < UInt64.size) :
    Command.ofWords options.words = .ok (.translate options) := by
  obtain ⟨jobs, dump, verbose, output, inputs⟩ := options
  -- each setting in turn is the next one, and those behind it are others
  have hjobs : Rest.Passes .jobs (Setting.dump.flagTokens dump ++ (Setting.output.argumentTokens output ++
      (Setting.verbose.flagTokens verbose ++ inputs.map .operand))) := by
    simp only [Rest.passes_append]
    exact ⟨Rest.passes_flag (by decide) _, Rest.passes_argument (by decide) _, Rest.passes_flag (by decide) _,
      Rest.passes_operands _ _⟩
  have hdump : Rest.Passes .dump (Setting.output.argumentTokens output ++
      (Setting.verbose.flagTokens verbose ++ inputs.map .operand)) := by
    simp only [Rest.passes_append]
    exact ⟨Rest.passes_argument (by decide) _, Rest.passes_flag (by decide) _, Rest.passes_operands _ _⟩
  have houtput : Rest.Passes .output (Setting.verbose.flagTokens verbose ++ inputs.map .operand) :=
    Rest.passes_append.2 ⟨Rest.passes_flag (by decide) _, Rest.passes_operands _ _⟩
  have hstart (tokens : List Token) : (tokens.map some : Rest) = Rest.behind [] tokens := rfl
  unfold Command.ofWords
  rw [tokensOf_words]
  dsimp only
  rw [hstart]
  unfold Options.tokens
  simp only [List.append_assoc]
  rw [Rest.takeArgument_behind hjobs]
  dsimp only
  rw [Rest.takeFlag_behind hdump]
  dsimp only
  rw [Rest.takeArgument_behind houtput]
  dsimp only
  rw [Rest.takeFlag_behind (Rest.passes_operands _ _)]
  dsimp only
  rw [Rest.takeWords_behind]
  dsimp only
  -- nothing is left, so neither a version nor an error
  generalize _ ++ inputs.map Token.operand = used
  have hversion : (Rest.behind used []).find? .version = none := Rest.find?_behind used [] _
  rw [hversion, Option.isSome_none, if_neg Bool.false_ne_true, Rest.firstUnused?_behind]
  cases jobs with
  | none => cases output <;> rfl
  | some count =>
    simp only [Rest.argumentOf, Option.map_some, Outcome.ok_bind, countOf_toString (h count rfl)]
    cases output <;> rfl

/-- The tool does on that command line what the options ask for. -/
theorem run_words {m : Type → Type} [Monad m] [Files m] {options : Options}
    (h : ∀ count ∈ options.jobs, count < UInt64.size) :
    (run options.words : m Finish) = options.run fun _ => [] := by
  unfold run
  rw [ofWords_words h]

end FunctionTrees.CommandLine
