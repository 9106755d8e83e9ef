import FunctionTrees.Json.Number
import FunctionTrees.Json.Text

/-!
# Lists and objects in JSON

What stands between brackets is read by `items` and `entries`, one element after the other, from behind the opening
bracket up to the closing one; `closeList` and `closeObject` pass over that one. `skipValue` passes over a value of any
shape: it keeps the brackets that are open in a list, so that no depth is too much for it.
-/

set_option autoImplicit false

namespace FunctionTrees.Json.Reader

variable {α σ : Type}

theorem length_dropWhile_isBlank_le (chars : List Char) : (chars.dropWhile isBlank).length ≤ chars.length :=
  List.Sublist.length_le (List.dropWhile_sublist _)

theorem length_lt_of_dropWhile_isBlank {chars rest : List Char} {c : Char} (h : chars.dropWhile isBlank = c :: rest) :
    rest.length < chars.length := by
  have hle := length_dropWhile_isBlank_le chars
  rw [h, List.length_cons] at hle
  exact Nat.lt_of_succ_le hle

/-- Stops over `cause`, `ahead` bytes on from `chars`. -/
def stopAt (cause : Cause) (ahead : Nat) (chars : List Char) : Outcome α := .stop ⟨cause, some ⟨chars, ahead⟩⟩ chars

/-! ## Lists -/

/-- Whether a list has a first element. -/
def firstItem : Reader Bool := do
  match ← next with
  | none => ended .list
  | some c => return c ≠ ']'

/-- Whether another element follows; the comma before it is passed over. -/
def nextItem : Reader Bool where
  run chars :=
    match chars.dropWhile isBlank with
    | [] => stopAt (.ended .list) 0 []
    | c :: rest =>
      if c = ']' then .done false (c :: rest)
      else if c = ',' then
        match rest.dropWhile isBlank with
        | [] => stopAt (.ended .value) 0 []
        | d :: rest' =>
          if d = ']' then stopAt (.malformed .trailingComma) 1 (d :: rest') else .done true (d :: rest')
      else stopAt (.malformed .noListEnd) 1 (c :: rest)
  shrinks chars := by
    have h := length_dropWhile_isBlank_le chars
    split
    next => simp [stopAt, Outcome.rest]
    next c rest h1 =>
      have h' := length_dropWhile_isBlank_le rest
      rw [h1, List.length_cons] at h
      split
      · simpa [Outcome.rest] using h
      · split
        · split
          next => simp [stopAt, Outcome.rest]
          next d rest' h2 =>
            rw [h2, List.length_cons] at h'
            split <;> simp only [stopAt, Outcome.rest, List.length_cons] <;> omega
        · simpa [stopAt, Outcome.rest] using h

theorem nextItem_lt {chars rest : List Char} (h : nextItem.run chars = .done true rest) :
    rest.length < chars.length := by
  have h0 := length_dropWhile_isBlank_le chars
  simp only [nextItem] at h
  split at h
  next => cases h
  next c rest1 h1 =>
    have h' := length_dropWhile_isBlank_le rest1
    rw [h1, List.length_cons] at h0
    split at h
    · cases h
    · split at h
      · split at h
        next => cases h
        next d rest2 h2 =>
          split at h
          · cases h
          · cases h
            rw [h2] at h'
            omega
      · cases h

/-- The elements that follow, after those `before` in reverse. -/
def itemsFrom (item : Reader α) (before : List α) (chars : List Char) : Outcome (List α) :=
  match h : nextItem.run chars with
  | .done true rest =>
    have := nextItem_lt h
    match h' : item.run rest with
    | .done value rest' =>
      have := item.done_le h'
      itemsFrom item (value :: before) rest'
    | .stop fault rest' => .stop fault rest'
  | .done false rest => .done before.reverse rest
  | .stop fault rest => .stop fault rest
termination_by chars.length

theorem itemsFrom_shrinks (item : Reader α) (before : List α) (chars : List Char) :
    (itemsFrom item before chars).rest.length ≤ chars.length := by
  fun_induction itemsFrom item before chars with
  | case1 => omega
  | case2 =>
    have := item.stop_le ‹item.run _ = _›
    simp only [Outcome.rest]
    omega
  | case3 => exact nextItem.done_le ‹nextItem.run _ = _›
  | case4 => exact nextItem.stop_le ‹nextItem.run _ = _›

/-- The elements of a list. -/
def items (item : Reader α) : Reader (List α) := do
  if ← firstItem then
    let value ← item
    ⟨itemsFrom item [value], itemsFrom_shrinks item [value]⟩
  else return []

/-- Passes over the end of a list. -/
def closeList : Reader Unit := do
  match ← next with
  | none => ended .list
  | some c =>
    if c = ']' then pass
    else if c = ',' then do
      pass
      match ← next with
      | some d => if d = ']' then malformed .trailingComma else malformed .trailingText
      | none => malformed .trailingText
    else malformed .trailingText

/-! ## Objects -/

/-- Passes over the colon behind a key. -/
def colon : Reader Unit := do
  match ← next with
  | none => ended .object
  | some c => if c = ':' then pass else malformed .noColon

/-- Whether an object has a first entry. -/
def firstKey : Reader Bool := do
  match ← next with
  | none => ended .object
  | some c =>
    if c = '\x7d' then return false
    else if c = '"' then return true
    else malformed .keyNotText

/-- Whether another entry follows; the comma before it is passed over. -/
def nextKey : Reader Bool where
  run chars :=
    match chars.dropWhile isBlank with
    | [] => stopAt (.ended .object) 0 []
    | c :: rest =>
      if c = '\x7d' then .done false (c :: rest)
      else if c = ',' then
        match rest.dropWhile isBlank with
        | [] => stopAt (.ended .value) 0 []
        | d :: rest' =>
          if d = '"' then .done true (d :: rest')
          else if d = '\x7d' then stopAt (.malformed .trailingComma) 1 (d :: rest')
          else stopAt (.malformed .keyNotText) 1 (d :: rest')
      else stopAt (.malformed .noObjectEnd) 1 (c :: rest)
  shrinks chars := by
    have h := length_dropWhile_isBlank_le chars
    split
    next => simp [stopAt, Outcome.rest]
    next c rest h1 =>
      have h' := length_dropWhile_isBlank_le rest
      rw [h1, List.length_cons] at h
      split
      · simpa [Outcome.rest] using h
      · split
        · split
          next => simp [stopAt, Outcome.rest]
          next d rest' h2 =>
            rw [h2, List.length_cons] at h'
            split
            · simp only [Outcome.rest, List.length_cons]; omega
            · split <;> simp only [stopAt, Outcome.rest, List.length_cons] <;> omega
        · simpa [stopAt, Outcome.rest] using h

theorem nextKey_lt {chars rest : List Char} (h : nextKey.run chars = .done true rest) :
    rest.length < chars.length := by
  have h0 := length_dropWhile_isBlank_le chars
  simp only [nextKey] at h
  split at h
  next => cases h
  next c rest1 h1 =>
    have h' := length_dropWhile_isBlank_le rest1
    rw [h1, List.length_cons] at h0
    split at h
    · cases h
    · split at h
      · split at h
        next => cases h
        next d rest2 h2 =>
          split at h
          · cases h
            rw [h2] at h'
            omega
          · split at h <;> cases h
      · cases h

/-- What the entries that follow make of `state`. -/
def entriesFrom (entry : σ → Reader σ) (state : σ) (chars : List Char) : Outcome σ :=
  match h : nextKey.run chars with
  | .done true rest =>
    have := nextKey_lt h
    match h' : (entry state).run rest with
    | .done state' rest' =>
      have := (entry state).done_le h'
      entriesFrom entry state' rest'
    | .stop fault rest' => .stop fault rest'
  | .done false rest => .done state rest
  | .stop fault rest => .stop fault rest
termination_by chars.length

theorem entriesFrom_shrinks (entry : σ → Reader σ) (state : σ) (chars : List Char) :
    (entriesFrom entry state chars).rest.length ≤ chars.length := by
  fun_induction entriesFrom entry state chars with
  | case1 => omega
  | case2 state =>
    have := (entry state).stop_le ‹(entry state).run _ = _›
    simp only [Outcome.rest]
    omega
  | case3 => exact nextKey.done_le ‹nextKey.run _ = _›
  | case4 => exact nextKey.stop_le ‹nextKey.run _ = _›

/-- What the entries of an object make of `state`; `entry` reads one of them, of whose key the quote comes next. -/
def entries (entry : σ → Reader σ) (state : σ) : Reader σ := do
  if ← firstKey then
    let state' ← entry state
    ⟨entriesFrom entry state', entriesFrom_shrinks entry state'⟩
  else return state

/-- Passes over the end of an object. -/
def closeObject : Reader Unit := do
  match ← next with
  | none => ended .object
  | some c =>
    if c = '\x7d' then pass
    else if c = ',' then malformed .trailingComma
    else malformed .trailingText

/-! ## Passing over values -/

/-- A bracket that is open. -/
inductive Bracket where
  | list
  | object
deriving DecidableEq

namespace Bracket

def part : Bracket → Part
  | list => .list
  | object => .object

def closing : Bracket → Char
  | list => ']'
  | object => '\x7d'

/-- What it is to have neither a comma nor the closing bracket behind an element. -/
def slip : Bracket → Slip
  | list => .noListEnd
  | object => .noObjectEnd

end Bracket

/-- Passes over a value that is neither a list nor an object. -/
def skipScalar : Reader Unit := do
  match ← peek with
  | none => ended .value
  | some c =>
    if c = 'n' then do pass; word ['u', 'l', 'l']
    else if c = 't' then do pass; word ['r', 'u', 'e']
    else if c = 'f' then do pass; word ['a', 'l', 's', 'e']
    else if c = '"' then do pass; skipTextBody
    else if c = '-' ∨ isDigit c then skipNumber
    else malformed .noValue

/-- Passes over what leads to the value of an element: the key and the colon of an entry. -/
def skipLead : Bracket → Reader Unit
  | .list => return ()
  | .object => do
    match ← next with
    | none => ended .object
    | some c =>
      if c = '"' then do pass; skipTextBody; colon
      else malformed .keyNotText

/-- Where passing over a value has got to. -/
inductive Stage where
  /-- Behind a value. -/
  | behind
  /-- Before a value. -/
  | before
  /-- Behind an opening bracket. -/
  | opened
deriving DecidableEq

/-- How many stages are left at the same place of the text. -/
def Stage.weight : Stage → Nat
  | behind => 0
  | before => 1
  | opened => 2

/-- Passes over the rest of a value of which the given brackets are open, the innermost first. -/
def skipFrom (stage : Stage) (brackets : List Bracket) (chars : List Char) : Outcome Unit :=
  match stage, brackets with
  | .before, brackets =>
    match h : chars.dropWhile isBlank with
    | [] => stopAt (.ended .value) 0 []
    | c :: rest =>
      have : rest.length < chars.length := length_lt_of_dropWhile_isBlank h
      if c = '[' then skipFrom .opened (.list :: brackets) rest
      else if c = '\x7b' then skipFrom .opened (.object :: brackets) rest
      else
        match h' : skipScalar.run (c :: rest) with
        | .done _ rest' =>
          have : rest'.length ≤ rest.length + 1 := skipScalar.done_le h'
          skipFrom .behind brackets rest'
        | .stop fault rest' => .stop fault rest'
  | _, [] => .done () chars
  | .opened, bracket :: outer =>
    match h : chars.dropWhile isBlank with
    | [] => stopAt (.ended bracket.part) 0 []
    | c :: rest =>
      have : rest.length < chars.length := length_lt_of_dropWhile_isBlank h
      if c = bracket.closing then skipFrom .behind outer rest
      else
        match h' : (skipLead bracket).run (c :: rest) with
        | .done _ rest' =>
          have : rest'.length ≤ rest.length + 1 := (skipLead bracket).done_le h'
          skipFrom .before (bracket :: outer) rest'
        | .stop fault rest' => .stop fault rest'
  | .behind, bracket :: outer =>
    match h : chars.dropWhile isBlank with
    | [] => stopAt (.ended bracket.part) 0 []
    | c :: rest =>
      have : rest.length < chars.length := length_lt_of_dropWhile_isBlank h
      if c = bracket.closing then skipFrom .behind outer rest
      else if c = ',' then
        match h' : (skipLead bracket).run rest with
        | .done _ rest' =>
          have := (skipLead bracket).done_le h'
          skipFrom .before (bracket :: outer) rest'
        | .stop fault rest' => .stop fault rest'
      else stopAt (.malformed bracket.slip) 1 (c :: rest)
termination_by 3 * chars.length + stage.weight
decreasing_by all_goals simp only [Stage.weight]; omega

theorem skipLead_stop_le {bracket : Bracket} {chars rest : List Char} {fault : Fault}
    (h : (skipLead bracket).run chars = .stop fault rest) : rest.length ≤ chars.length :=
  (skipLead bracket).stop_le h

theorem skipFrom_shrinks (stage : Stage) (brackets : List Bracket) (chars : List Char) :
    (skipFrom stage brackets chars).rest.length ≤ chars.length := by
  fun_induction skipFrom stage brackets chars
  all_goals try simp only [stopAt, Outcome.rest_done, Outcome.rest_stop, List.length_nil, List.length_cons, Nat.zero_le]
  all_goals first
    | omega
    | have h := skipScalar.stop_le ‹skipScalar.run _ = _›
      simp only [List.length_cons] at h
      omega
    | have h := skipLead_stop_le ‹(skipLead _).run (_ :: _) = _›
      simp only [List.length_cons] at h
      omega
    | have h := skipLead_stop_le ‹(skipLead _).run _ = _›
      omega

/-- Passes over a value of any shape. -/
def skipValue : Reader Unit := ⟨skipFrom .before [], skipFrom_shrinks .before []⟩

end FunctionTrees.Json.Reader
