import FunctionTrees.Position
import Mathlib.Data.Prod.Lex
import Mathlib.Order.Interval.Set.Basic

/-!
# Containment of extents is inclusion of the places they cover

A place is a line and a column, in reading order: the line decides first.

* `notAfter_iff` : the order of the model is the reading order of places;
* `Extent.places` : what an extent covers, the interval from its first to its last place;
* `Extent.first_le_last` : the interval is never empty, which is what an extent's construction checks;
* `Extent.contains_iff` : containment of extents is inclusion of their places;
* `Extent.eq_of_ends` : an extent is known by its two ends;
* `Located.containment_of_places` : containment of positions is inclusion in one file, hence a partial order.
-/

set_option autoImplicit false

namespace FunctionTrees

/-! ## Places in reading order -/

/-- A line and a column of a file, the line deciding first. -/
abbrev Place := ℕ ×ₗ ℕ

def placeOf (line col : UInt32) : Place := toLex (line.toNat, col.toNat)

theorem notAfter_iff (line col line' col' : UInt32) :
    notAfter line col line' col' = true ↔ placeOf line col ≤ placeOf line' col' := by
  unfold notAfter placeOf
  rw [Prod.Lex.toLex_le_toLex, ← UInt32.lt_iff_toNat_lt, ← UInt32.le_iff_toNat_le, UInt32.toNat_inj]
  simp

theorem placeOf_inj {line col line' col' : UInt32} (h : placeOf line col = placeOf line' col') :
    line = line' ∧ col = col' := by
  obtain ⟨hline, hcol⟩ := Prod.mk.inj (toLex_inj.1 h)
  exact ⟨UInt32.toNat_inj.1 hline, UInt32.toNat_inj.1 hcol⟩

/-! ## Extents -/

namespace Extent

def first (extent : Extent) : Place := placeOf extent.firstLine extent.firstCol

def last (extent : Extent) : Place := placeOf extent.lastLine extent.lastCol

/-- The places from the first to the last, both included. -/
def places (extent : Extent) : Set Place := Set.Icc extent.first extent.last

theorem first_le_last (extent : Extent) : extent.first ≤ extent.last := by
  rw [first, last, ← notAfter_iff]
  simpa [notAfter] using extent.ordered

theorem contains_iff_ends {outer inner : Extent} :
    outer.contains inner = true ↔ outer.first ≤ inner.first ∧ inner.last ≤ outer.last := by
  rw [contains, Bool.and_eq_true, notAfter_iff, notAfter_iff]
  rfl

theorem contains_iff {outer inner : Extent} : outer.contains inner = true ↔ inner.places ⊆ outer.places := by
  rw [contains_iff_ends, places, places, Set.Icc_subset_Icc_iff inner.first_le_last]

theorem eq_of_ends {a b : Extent} (hfirst : a.first = b.first) (hlast : a.last = b.last) : a = b := by
  obtain ⟨hline, hcol⟩ := placeOf_inj hfirst
  obtain ⟨hline', hcol'⟩ := placeOf_inj hlast
  cases a
  cases b
  simp_all

theorem eq_of_places {a b : Extent} (h : a.places = b.places) : a = b := by
  obtain ⟨hfirst, hlast⟩ := contains_iff_ends.1 (contains_iff.2 h.ge)
  obtain ⟨hfirst', hlast'⟩ := contains_iff_ends.1 (contains_iff.2 h.le)
  exact eq_of_ends (le_antisymm hfirst hfirst') (le_antisymm hlast' hlast)

end Extent

/-! ## Extents of a file -/

namespace Located

variable {φ : Type} [DecidableEq φ]

theorem contains_iff {outer inner : Located φ} :
    outer.contains inner = true ↔ outer.file = inner.file ∧ inner.extent.places ⊆ outer.extent.places := by
  rw [contains, Bool.and_eq_true, decide_eq_true_iff, Extent.contains_iff]

/-- One position contains another exactly if both are in one file and every place of the other is one of its own; this
orders the positions of a file partially. -/
theorem containment_of_places :
    (∀ outer inner : Located φ, outer.contains inner = true ↔
      outer.file = inner.file ∧ ∀ place, inner.extent.first ≤ place → place ≤ inner.extent.last →
        outer.extent.first ≤ place ∧ place ≤ outer.extent.last) ∧
    (∀ a : Located φ, a.contains a = true) ∧
    (∀ a b c : Located φ, a.contains b = true → b.contains c = true → a.contains c = true) ∧
    ∀ a b : Located φ, a.contains b = true → b.contains a = true → a = b := by
  refine ⟨fun outer inner => ?_, fun a => ?_, fun a b c hab hbc => ?_, fun a b hab hba => ?_⟩
  · rw [contains_iff]
    exact and_congr_right' ⟨fun h place hfirst hlast => h ⟨hfirst, hlast⟩, fun h place hmem => h place hmem.1 hmem.2⟩
  · exact contains_iff.2 ⟨rfl, subset_rfl⟩
  · obtain ⟨hfile, hplaces⟩ := contains_iff.1 hab
    obtain ⟨hfile', hplaces'⟩ := contains_iff.1 hbc
    exact contains_iff.2 ⟨hfile.trans hfile', hplaces'.trans hplaces⟩
  · obtain ⟨hfile, hplaces⟩ := contains_iff.1 hab
    have hextent : a.extent = b.extent := Extent.eq_of_places ((contains_iff.1 hba).2.antisymm hplaces)
    cases a
    cases b
    simp_all

end Located

end FunctionTrees
