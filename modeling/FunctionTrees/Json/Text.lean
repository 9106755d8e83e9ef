import FunctionTrees.Json.Reader

/-!
# Texts in JSON

`writeText` quotes a text; `textBody` reads one whose opening quote has been passed, `skipTextBody` passes over one and is
content with escapes that stand for no character by themselves.
-/

set_option autoImplicit false

namespace FunctionTrees.Json

/-! ## Writing -/

/-- How one character is written between quotes. -/
def escape (c : Char) : List Char :=
  if c = '"' then ['\\', '"']
  else if c = '\\' then ['\\', '\\']
  else if c = '\x08' then ['\\', 'b']
  else if c = '\x0c' then ['\\', 'f']
  else if c = '\n' then ['\\', 'n']
  else if c = '\r' then ['\\', 'r']
  else if c = '\t' then ['\\', 't']
  else if c.toNat < 0x20 then ['\\', 'u', '0', '0', (c.toNat / 16).digitChar, (c.toNat % 16).digitChar]
  else [c]

def writeText (text : String) : List Char := '"' :: text.toList.flatMap escape ++ ['"']

/-! ## Escapes -/

namespace Reader

/-- The value of a hexadecimal digit. -/
def hexDigit? (c : Char) : Option Nat :=
  if '0' ≤ c ∧ c ≤ '9' then some (c.toNat - '0'.toNat)
  else if 'a' ≤ c ∧ c ≤ 'f' then some (c.toNat - 'a'.toNat + 10)
  else if 'A' ≤ c ∧ c ≤ 'F' then some (c.toNat - 'A'.toNat + 10)
  else none

/-- The number that four hexadecimal digits make. -/
def hexValue? : List Char → Option Nat
  | [a, b, c, d] => do
    return 4096 * (← hexDigit? a) + 256 * (← hexDigit? b) + 16 * (← hexDigit? c) + (← hexDigit? d)
  | _ => none

/-- Four hexadecimal digits. What stands in their place is judged by its first four bytes. -/
def hexQuad : Reader Nat where
  run chars :=
    match hexValue? (chars.take 4) with
    | some value => .done value (chars.drop 4)
    | none =>
      if byteCount (chars.take 4) < 4 then .stop ⟨.ended .text, some ⟨[], 0⟩⟩ []
      else .stop ⟨.malformed .badEscape, some ⟨chars, 4⟩⟩ chars
  shrinks chars := by
    split
    · simp [Outcome.rest]
    · split <;> simp [Outcome.rest]

/-- Passes over `c`, which continues the escape of a character in two halves. -/
def secondHalf (c : Char) : Reader Unit := do
  match ← peek with
  | none => ended .text
  | some found => if found = c then pass else malformed .halfSurrogate

/-- The character of an escape by number, after its first two characters. -/
def numberedEscape : Reader Char := do
  let first ← hexQuad
  if 0xdc00 ≤ first ∧ first ≤ 0xdfff then malformedBefore .loneSurrogate
  else if first < 0xd800 ∨ 0xdbff < first then return Char.ofNat first
  else do
    secondHalf '\\'
    secondHalf 'u'
    let second ← hexQuad
    if second < 0xdc00 ∨ 0xdfff < second then malformedBefore .loneSurrogate
    else return Char.ofNat (0x10000 + 0x400 * (first - 0xd800) + (second - 0xdc00))

/-- The character that a letter after a backslash stands for. -/
def lettered? (c : Char) : Option Char :=
  if c = '"' ∨ c = '\\' ∨ c = '/' then some c
  else if c = 'b' then some '\x08'
  else if c = 'f' then some '\x0c'
  else if c = 'n' then some '\n'
  else if c = 'r' then some '\r'
  else if c = 't' then some '\t'
  else none

/-- The character of an escape, after its backslash. -/
def escaped : Reader Char := do
  match ← peek with
  | none => ended .text
  | some c =>
    if c = 'u' then do pass; numberedEscape
    else match lettered? c with
      | some meant => do pass; return meant
      | none => malformed .badEscape

/-- Passes over an escape, after its backslash; any number will do. -/
def skipEscaped : Reader Unit := do
  match ← peek with
  | none => ended .text
  | some c =>
    if c = 'u' then do pass; let _ ← hexQuad; return ()
    else if (lettered? c).isSome then pass
    else malformed .badEscape

/-! ## Texts -/

/-- The rest of a text up to its closing quote, after the characters `before` in reverse. -/
def textFrom (before : List Char) (chars : List Char) : Outcome String :=
  match chars with
  | [] => .stop ⟨.ended .text, some ⟨[], 0⟩⟩ []
  | c :: rest =>
    if c = '"' then .done (String.ofList before.reverse) rest
    else if c = '\\' then
      match h : escaped.run rest with
      | .done meant rest' =>
        have := escaped.done_le h
        textFrom (meant :: before) rest'
      | .stop fault rest' => .stop fault rest'
    else if c.toNat < 0x20 then .stop ⟨.malformed .controlCharacter, some ⟨rest, 0⟩⟩ rest
    else textFrom (c :: before) rest
termination_by chars.length
decreasing_by all_goals simp only [List.length_cons]; omega

theorem textFrom_shrinks (before chars : List Char) : (textFrom before chars).rest.length ≤ chars.length := by
  fun_induction textFrom before chars with
  | case1 => simp [Outcome.rest]
  | case2 => simp [Outcome.rest]
  | case3 => simp only [List.length_cons]; omega
  | case4 =>
    have := escaped.stop_le ‹escaped.run _ = _›
    simp only [Outcome.rest, List.length_cons]
    omega
  | case5 => simp [Outcome.rest]
  | case6 =>
    rename_i ih
    exact Nat.le_succ_of_le ih

/-- A text whose opening quote has been passed. -/
def textBody : Reader String := ⟨textFrom [], textFrom_shrinks []⟩

/-- Passes over the rest of a text. -/
def skipTextFrom (chars : List Char) : Outcome Unit :=
  match chars with
  | [] => .stop ⟨.ended .text, some ⟨[], 0⟩⟩ []
  | c :: rest =>
    if c = '"' then .done () rest
    else if c = '\\' then
      match h : skipEscaped.run rest with
      | .done _ rest' =>
        have := skipEscaped.done_le h
        skipTextFrom rest'
      | .stop fault rest' => .stop fault rest'
    else if c.toNat < 0x20 then .stop ⟨.malformed .controlCharacter, some ⟨chars, 0⟩⟩ chars
    else skipTextFrom rest
termination_by chars.length
decreasing_by all_goals simp only [List.length_cons]; omega

theorem skipTextFrom_shrinks (chars : List Char) : (skipTextFrom chars).rest.length ≤ chars.length := by
  fun_induction skipTextFrom chars with
  | case1 => simp [Outcome.rest]
  | case2 => simp [Outcome.rest]
  | case3 => simp only [List.length_cons]; omega
  | case4 =>
    have := skipEscaped.stop_le ‹skipEscaped.run _ = _›
    simp only [Outcome.rest, List.length_cons]
    omega
  | case5 => simp [Outcome.rest]
  | case6 =>
    rename_i ih
    exact Nat.le_succ_of_le ih

/-- Passes over a text whose opening quote has been passed. -/
def skipTextBody : Reader Unit := ⟨skipTextFrom, skipTextFrom_shrinks⟩

end Reader

end FunctionTrees.Json
