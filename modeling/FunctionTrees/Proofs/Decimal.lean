import FunctionTrees.Decimal
import Mathlib.Tactic.SplitIfs
import Std.Data.String.ToInt

/-!
# The characters of decimals

* `mem_integer` : the digits of a whole number, and a minus sign;
* `isFigure` : the characters that a decimal is written with; `Style.Figures style text` : the text is made of them, and
  of what the style puts before exponents;
* `figures_positional`, `figures_scientific`, `figures_text?` : so is the text of a float.
-/

set_option autoImplicit false

namespace FunctionTrees.Decimal

/-- An integer is written with digits and a minus sign. -/
theorem mem_integer {value : Int} {c : Char} (h : c ∈ (toString value).toList) : c = '-' ∨ c.isDigit = true := by
  have hdigits (n : Nat) (hmem : c ∈ n.repr.toList) : c.isDigit = true := by
    rw [Nat.toList_repr] at hmem
    exact Nat.isDigit_of_mem_toDigits (by decide) (Nat.le_refl 10) hmem
  rw [Int.toString_eq_repr, Int.repr_eq_if] at h
  split at h
  · exact .inr (hdigits _ h)
  · rw [String.toList_append, List.mem_append] at h
    exact h.imp List.mem_singleton.1 (hdigits _)

def isFigure (c : Char) : Bool := c.isDigit || c == '-' || c == '.' || c == 'e'

namespace Style

variable {style : Style} {first second digits : String}

/-- The text is made of the characters of decimals and of those that the style puts before exponents. -/
def Figures (style : Style) (text : String) : Prop := ∀ c ∈ text.toList, isFigure c = true ∨ c ∈ style.plus.toList

theorem figures_of_all {text : String} (h : text.toList.all isFigure = true) : style.Figures text :=
  fun c hc => .inl (List.all_eq_true.1 h c hc)

theorem Figures.append (h : style.Figures first) (h' : style.Figures second) : style.Figures (first ++ second) := by
  intro c hc
  rw [String.toList_append, List.mem_append] at hc
  exact hc.elim (h c) (h' c)

/-- Some of the characters of a text of that kind. -/
theorem Figures.ofList (h : style.Figures digits) {chars : List Char} (hsubset : chars ⊆ digits.toList) :
    style.Figures (String.ofList chars) := by
  intro c hc
  rw [String.toList_ofList] at hc
  exact h c (hsubset hc)

theorem figures_integer (value : Int) : style.Figures (toString value) := by
  intro c hc
  rcases mem_integer hc with rfl | hdigit
  · exact .inl (by decide)
  · exact .inl (by simp [isFigure, hdigit])

theorem figures_zeros (count : Nat) : style.Figures (zeros count) := by
  refine figures_of_all (List.all_eq_true.2 fun c hc => ?_)
  rw [zeros, String.toList_ofList] at hc
  rw [List.eq_of_mem_replicate hc]
  decide

theorem figures_positional (h : style.Figures digits) (exponent : Int) :
    style.Figures (positional digits exponent) := by
  have hpoint : style.Figures "." := figures_of_all (by decide)
  unfold positional
  dsimp only
  split_ifs
  · exact (h.append (figures_zeros _)).append (figures_of_all (by decide))
  · exact ((h.ofList (List.take_subset _ _)).append hpoint).append (h.ofList (List.drop_subset _ _))
  · exact ((figures_of_all (by decide)).append (figures_zeros _)).append h

theorem figures_scientific (h : style.Figures digits) (power : Int) :
    style.Figures (style.scientific digits power) := by
  unfold scientific
  dsimp only
  refine .append (.append (.append (.append (h.ofList (List.take_subset _ _)) ?_) (figures_of_all (by decide))) ?_)
    (figures_integer power)
  · split_ifs
    · exact nofun
    · exact (figures_of_all (by decide)).append (h.ofList (List.drop_subset _ _))
  · split_ifs
    · exact fun c hc => .inr hc
    · exact nofun

theorem figures_magnitudeText (number : Binary) : style.Figures (style.magnitudeText number) := by
  have hdigits (n : Nat) : style.Figures (toString n) := figures_integer (n : Int)
  unfold magnitudeText
  dsimp only
  split_ifs
  · exact figures_of_all (by decide)
  · exact figures_positional (hdigits _) _
  · exact figures_scientific (hdigits _) _

/-- A float is written with the characters of decimals. -/
theorem figures_text? {bits : UInt64} {text : String} (h : style.text? bits = some text) : style.Figures text := by
  unfold text? at h
  split at h
  next =>
    cases h
    refine .append ?_ (figures_magnitudeText _)
    split_ifs
    · exact figures_of_all (by decide)
    · exact nofun
  next => cases h

end Style

end FunctionTrees.Decimal
