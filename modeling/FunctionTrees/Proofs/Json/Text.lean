import FunctionTrees.Proofs.Json.Reading

/-!
# Written texts are read back

* `run_escaped_control` : a control character is read back from the four digits by which it is written;
* `textFrom_escape` : any written character is read back; `textFrom_flatMap_escape` : and so are all of a text;
* `run_textBody` : what follows the opening quote of a written text is taken for the text; `run_quoted`.
-/

set_option autoImplicit false

namespace FunctionTrees.Json.Reader

/-! ## Escapes -/

/-- The last two of the four digits are those of the character. -/
theorem hexValue?_control : ∀ n < 0x20,
    hexValue? ['0', '0', (n / 16).digitChar, (n % 16).digitChar] = some n := by
  decide

theorem run_hexQuad {quad : List Char} {value : Nat} (hlength : quad.length = 4) (h : hexValue? quad = some value)
    (rest : List Char) : hexQuad.run (quad ++ rest) = .done value rest := by
  have htake : (quad ++ rest).take 4 = quad := List.take_left' hlength
  have hdrop : (quad ++ rest).drop 4 = rest := List.drop_left' hlength
  simp only [hexQuad, htake, h, hdrop]

/-- A control character without a letter of its own is escaped by its number. -/
theorem run_escaped_control {c : Char} (h : c.toNat < 0x20) (rest : List Char) :
    escaped.run ('u' :: '0' :: '0' :: (c.toNat / 16).digitChar :: (c.toNat % 16).digitChar :: rest) = .done c rest := by
  have hquad : hexQuad.run ('0' :: '0' :: (c.toNat / 16).digitChar :: (c.toNat % 16).digitChar :: rest) =
    .done c.toNat rest := run_hexQuad rfl (hexValue?_control c.toNat h) rest
  -- its number is none of a surrogate, so that no second escape is asked for
  have hlow : ¬ (0xdc00 ≤ c.toNat ∧ c.toNat ≤ 0xdfff) := by omega
  have hplain : c.toNat < 0xd800 ∨ 0xdbff < c.toNat := by omega
  show numberedEscape.run ('0' :: '0' :: _ :: _ :: rest) = _
  rw [numberedEscape, run_bind_done hquad, if_neg hlow, if_pos hplain, Char.ofNat_toNat]
  rfl

/-! ## Texts -/

theorem textFrom_plain {c : Char} (hquote : c ≠ '"') (hslash : c ≠ '\\') (hcontrol : ¬ c.toNat < 0x20)
    (before rest : List Char) : textFrom before (c :: rest) = textFrom (c :: before) rest := by
  rw [textFrom]
  simp only [if_neg hquote, if_neg hslash, if_neg hcontrol]

theorem textFrom_escaped {meant : Char} {chars rest : List Char} (h : escaped.run chars = .done meant rest)
    (before : List Char) : textFrom before ('\\' :: chars) = textFrom (meant :: before) rest := by
  have hquote : ¬ '\\' = '"' := by decide
  rw [textFrom]
  simp only [if_neg hquote, if_true]
  split
  next hdone => cases h.symm.trans hdone; rfl
  next hstop => cases h.symm.trans hstop

/-- A written character is read back. -/
theorem textFrom_escape (c : Char) (before rest : List Char) :
    textFrom before (escape c ++ rest) = textFrom (c :: before) rest := by
  unfold escape
  split_ifs with hquote hslash hback hfeed hline hreturn htab hcontrol
  · subst hquote
    exact textFrom_escaped rfl before
  · subst hslash
    exact textFrom_escaped rfl before
  · subst hback
    exact textFrom_escaped rfl before
  · subst hfeed
    exact textFrom_escaped rfl before
  · subst hline
    exact textFrom_escaped rfl before
  · subst hreturn
    exact textFrom_escaped rfl before
  · subst htab
    exact textFrom_escaped rfl before
  · exact textFrom_escaped (run_escaped_control hcontrol rest) before
  · exact textFrom_plain hquote hslash hcontrol before rest

theorem textFrom_flatMap_escape (chars before rest : List Char) :
    textFrom before (chars.flatMap escape ++ '"' :: rest) = .done (String.ofList (before.reverse ++ chars)) rest := by
  induction chars generalizing before with
  | nil =>
    rw [List.flatMap_nil, List.nil_append, List.append_nil, textFrom]
    rfl
  | cons c chars ih =>
    rw [List.flatMap_cons, List.append_assoc, textFrom_escape, ih, List.reverse_cons, List.append_assoc]
    rfl

/-- What follows the opening quote of a written text is taken for the text. -/
theorem run_textBody (text : String) (rest : List Char) :
    textBody.run (text.toList.flatMap escape ++ '"' :: rest) = .done text rest := by
  have h := textFrom_flatMap_escape text.toList [] rest
  rw [List.reverse_nil, List.nil_append, String.ofList_toList] at h
  exact h

theorem writeText_append (text : String) (rest : List Char) :
    writeText text ++ rest = '"' :: (text.toList.flatMap escape ++ '"' :: rest) := by
  simp [writeText]

/-- A written text is taken for the text, from its opening quote on. -/
theorem run_quoted {α : Type} (text : String) (rest : List Char) (next : String → Reader α) :
    (do pass; let found ← textBody; next found).run (writeText text ++ rest) = (next text).run rest := by
  rw [writeText_append, run_bind_pass, List.tail_cons, run_bind_done (run_textBody text rest)]

end FunctionTrees.Json.Reader
