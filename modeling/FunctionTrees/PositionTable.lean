import FunctionTrees.Ast

/-!
# The positions of nodes

A `PositionTable` gives nodes their positions; the last position recorded for a node is the one that counts. The entries
are kept with the latest node first, so that recording nodes in the order of their making is quick, and the proof that
each node comes before all earlier ones is a field: two tables with the same entries are equal, however they were filled.
-/

set_option autoImplicit false

namespace FunctionTrees

/-! ## Entries in falling order of nodes -/

/-- Each node is later than all that follow it. -/
abbrev Falling (entries : List (Node × Position)) : Prop := entries.Pairwise fun a b => b.1.index < a.1.index

/-- Gives `node` a position in falling entries, in place of an earlier one if there is one. -/
def putFalling (node : Node) (position : Position) : List (Node × Position) → List (Node × Position)
  | [] => [(node, position)]
  | entry :: rest =>
    if entry.1.index < node.index then (node, position) :: entry :: rest
    else if entry.1 = node then (node, position) :: rest
    else entry :: putFalling node position rest

theorem falling_nil : Falling [] := .nil

theorem mem_putFalling {node : Node} {position : Position} {entries : List (Node × Position)} {entry : Node × Position}
    (h : entry ∈ putFalling node position entries) : entry = (node, position) ∨ entry ∈ entries := by
  induction entries with
  | nil => simpa [putFalling] using h
  | cons head rest ih =>
    rw [putFalling] at h
    split at h
    · simpa using h
    · split at h <;> grind

theorem falling_putFalling {node : Node} {position : Position} {entries : List (Node × Position)}
    (h : Falling entries) : Falling (putFalling node position entries) := by
  induction entries with
  | nil => simp [putFalling]
  | cons head rest ih =>
    have hrest : ∀ entry ∈ rest, entry.1.index < head.1.index :=
      fun _ hmem => List.rel_of_pairwise_cons h hmem
    rw [putFalling]
    split
    next hlt =>
      refine List.pairwise_cons.2 ⟨fun entry hmem => ?_, h⟩
      rcases List.mem_cons.1 hmem with rfl | hmem
      · exact hlt
      · exact Nat.lt_trans (hrest entry hmem) hlt
    next hlt =>
      split
      next heq =>
        subst heq
        exact List.pairwise_cons.2 ⟨hrest, h.of_cons⟩
      next hne =>
        refine List.pairwise_cons.2 ⟨fun entry hmem => ?_, ih h.of_cons⟩
        rcases mem_putFalling hmem with rfl | hmem
        · have : head.1.index ≠ node.index := fun heq => hne (by cases h1 : head.1; cases node; simp_all)
          show node.index < head.1.index
          omega
        · exact hrest entry hmem

/-! ## Tables -/

/-- The positions of nodes, latest node first. -/
structure PositionTable where
  entries : List (Node × Position) := []
  falling : Falling entries := by exact falling_nil
deriving DecidableEq

namespace PositionTable

instance : Inhabited PositionTable := ⟨{}⟩

def size (table : PositionTable) : Nat := table.entries.length

def isEmpty (table : PositionTable) : Bool := table.entries.isEmpty

/-- The position of `node`, if one was recorded. -/
def get? (table : PositionTable) (node : Node) : Option Position :=
  (table.entries.find? fun entry => entry.1 == node).map Prod.snd

/-- Gives `node` a position, and tells the one that it had before. -/
def record (table : PositionTable) (node : Node) (position : Position) : Option Position × PositionTable :=
  (table.get? node, ⟨putFalling node position table.entries, falling_putFalling table.falling⟩)

/-- The nodes with their positions, earliest node first. -/
def toList (table : PositionTable) : List (Node × Position) := table.entries.reverse

/-- The table in which each node has the last position that the list gives it. -/
def ofList (entries : List (Node × Position)) : PositionTable :=
  entries.foldl (fun table entry => (table.record entry.1 entry.2).2) {}

end PositionTable

end FunctionTrees
