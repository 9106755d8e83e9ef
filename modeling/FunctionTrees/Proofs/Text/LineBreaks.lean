import FunctionTrees.Proofs.Text.Delimited

/-!
# Texts in lines

* `linesOf text` : what stands between the line ends of a text; `length_linesOf` : one more than there are line ends;
* `linesOf_intercalate`, `linesOf_of_not_mem` : the lines of texts that are put below each other are their lines;
* `not_mem_quote` : a quoted text has no line end.
-/

set_option autoImplicit false

namespace FunctionTrees.Text

/-- What stands between the line ends of a text. -/
def linesOf (text : String) : List String := (text.toList.splitOn '\n').map String.ofList

def lineEnds (text : String) : Nat := text.toList.count '\n'

theorem lineEnds_append (first second : String) : lineEnds (first ++ second) = lineEnds first + lineEnds second := by
  rw [lineEnds, String.toList_append, List.count_append]
  rfl

theorem lineEnds_eq_zero_iff {text : String} : lineEnds text = 0 ↔ '\n' ∉ text.toList := List.count_eq_zero

theorem length_linesOf (text : String) : (linesOf text).length = 1 + lineEnds text := by
  rw [linesOf, List.length_map, lineEnds]
  induction text.toList with
  | nil => rfl
  | cons c chars ih =>
    rw [List.splitOn_cons_eq_if_modifyHead, List.count_cons]
    by_cases hc : c = '\n'
    · simp [hc, ih]
      omega
    · simp [hc, ih]

theorem linesOf_of_not_mem {text : String} (h : '\n' ∉ text.toList) : linesOf text = [text] := by
  rw [linesOf, List.splitOn_eq_singleton h, List.map_singleton, String.ofList_toList]

/-- Texts that are put below each other have their lines below each other. -/
theorem linesOf_intercalate {lines : List String} (h : lines ≠ []) :
    linesOf ("\n".intercalate lines) = lines.flatMap linesOf := by
  induction lines with
  | nil => exact absurd rfl h
  | cons line rest ih =>
    cases rest with
    | nil => simp
    | cons next rest =>
      rw [List.flatMap_cons, ← ih (List.cons_ne_nil next rest), String.intercalate_cons_cons, linesOf, linesOf, linesOf,
        String.toList_append, String.toList_append, ← List.map_append]
      congr 1
      rw [List.append_assoc]
      exact List.splitOn_append_cons_self _ _

/-! ## Quoted texts -/

theorem not_mem_escape (c : Char) : '\n' ∉ escape c := by
  unfold escape
  split_ifs with hquote hslash hnewline
  · decide
  · decide
  · decide
  · decide
  · decide
  · decide
  · rw [List.mem_singleton]
    exact fun h => hnewline h.symm
  · have hdigits : '\n' ∉ Nat.toDigits 16 c.toNat := fun h => Hexadecimal.ne_of_mem_toDigits (by decide) h rfl
    simp [hdigits]

/-- Whatever a text holds, it is quoted on one line. -/
theorem not_mem_quote (text : String) : '\n' ∉ (quote text).toList := by
  rw [toList_quote]
  simp only [List.cons_append, List.mem_cons, List.mem_append, List.mem_flatMap, List.not_mem_nil, or_false, not_or,
    not_exists, not_and]
  exact ⟨by decide, fun c _ => not_mem_escape c, by decide⟩

end FunctionTrees.Text
