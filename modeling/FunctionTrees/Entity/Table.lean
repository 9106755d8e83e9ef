import FunctionTrees.Entity
import Std.Data.ExtHashMap

/-!
# Tables of entities

An `EntityTable` keeps entities in the order in which they come, one at most of each name, and under each name the place of
its entity; that the places are right is a field of the table, so that two tables with the same entities are equal. A
`Consumer` is anything that entities can be handed to; tables are, and so are lists, which refuse none.
-/

set_option autoImplicit false

namespace FunctionTrees

/-! ## Places -/

-- the order of strings gives this as well, in more ways than one
instance equivBEq_string : EquivBEq String where
  rfl := beq_self_eq_true _
  symm h := beq_iff_eq.2 (beq_iff_eq.1 h).symm
  trans h h' := beq_iff_eq.2 ((beq_iff_eq.1 h).trans (beq_iff_eq.1 h'))

/-- Under each name stands the place of the entity of that name, where there is one, and nothing else. -/
def Indexes (places : Std.ExtHashMap String Nat) (entities : List Entity) : Prop :=
  ∀ name place, places[name]? = some place ↔ ∃ entity : Entity, entities[place]? = some entity ∧ entity.name = name

namespace Indexes

theorem empty : Indexes {} [] := by
  intro name place
  simp

variable {places : Std.ExtHashMap String Nat} {entities : List Entity} {entity : Entity} {name : String} {place : Nat}

theorem lt_length (h : Indexes places entities) (hplace : places[name]? = some place) : place < entities.length := by
  obtain ⟨entity, hentity, -⟩ := (h name place).1 hplace
  exact (List.getElem?_eq_some_iff.1 hentity).1

theorem mem_iff (h : Indexes places entities) : name ∈ places ↔ name ∈ entities.map Entity.name := by
  rw [Std.ExtHashMap.mem_iff_isSome_getElem?, Option.isSome_iff_exists, List.mem_map]
  constructor
  · rintro ⟨place, hplace⟩
    obtain ⟨entity, hentity, hname⟩ := (h name place).1 hplace
    exact ⟨entity, List.mem_of_getElem? hentity, hname⟩
  · rintro ⟨entity, hmem, hname⟩
    obtain ⟨place, hentity⟩ := List.mem_iff_getElem?.1 hmem
    exact ⟨place, (h name place).2 ⟨entity, hentity, hname⟩⟩

/-- A new name gets the place behind all others. -/
theorem concat (h : Indexes places entities) (hnew : entity.name ∉ places) :
    Indexes (places.insert entity.name entities.length) (entities ++ [entity]) := by
  intro name place
  have hat : ∀ found, (entities ++ [entity])[place]? = some found ↔
      entities[place]? = some found ∨ place = entities.length ∧ found = entity := by
    grind
  simp only [hat, Std.ExtHashMap.getElem?_insert, beq_iff_eq]
  split
  next hname =>
    subst hname
    -- no earlier entity has the name
    have hnone : ∀ place, places[entity.name]? ≠ some place := by
      intro place hplace
      exact hnew (Std.ExtHashMap.mem_iff_isSome_getElem?.2 (Option.isSome_of_eq_some hplace))
    constructor
    · rintro ⟨⟩
      exact ⟨entity, .inr ⟨rfl, rfl⟩, rfl⟩
    · rintro ⟨found, hfound | ⟨rfl, -⟩, hname⟩
      · exact absurd ((h _ place).2 ⟨found, hfound, hname⟩) (hnone place)
      · rfl
  next hname =>
    rw [h name place]
    constructor
    · rintro ⟨found, hfound, rfl⟩
      exact ⟨found, .inl hfound, rfl⟩
    · rintro ⟨found, hfound | ⟨-, rfl⟩, hfoundName⟩
      · exact ⟨found, hfound, hfoundName⟩
      · exact absurd hfoundName hname

end Indexes

/-! ## Tables -/

/-- Entities in order of arrival, and for each name the place of its entity. -/
structure EntityTable where
  entities : List Entity := []
  places : Std.ExtHashMap String Nat := {}
  indexes : Indexes places entities := by exact Indexes.empty

namespace EntityTable

instance : Inhabited EntityTable := ⟨{}⟩

/-- The entities alone make the table. -/
theorem ext_entities {table other : EntityTable} (h : table.entities = other.entities) : table = other := by
  have hplaces : table.places = other.places := by
    refine Std.ExtHashMap.ext_getElem? fun name => Option.ext fun place => ?_
    rw [table.indexes, other.indexes, h]
  cases table
  cases other
  cases h
  cases hplaces
  rfl

instance : DecidableEq EntityTable := fun table other =>
  decidable_of_iff (table.entities = other.entities) ⟨ext_entities, congrArg entities⟩

def size (table : EntityTable) : Nat := table.entities.length

def isEmpty (table : EntityTable) : Bool := table.entities.isEmpty

/-- The entity of a name, if the table has it. -/
def get? (table : EntityTable) (name : String) : Option Entity :=
  match h : table.places[name]? with
  | some place => some (table.entities.get ⟨place, table.indexes.lt_length h⟩)
  | none => none

/-- Offers an entity to the table, which takes it unless it has one of that name: the answer, and the table afterwards. -/
def offer (entity : Entity) : StateM EntityTable (Except EntityError Unit) := fun table =>
  if h : entity.name ∈ table.places then (.error (.duplicateName entity.name), table)
  else
    let places := table.places.insert entity.name table.size
    (.ok (), { entities := table.entities ++ [entity], places, indexes := table.indexes.concat h })

/-- The table that has taken an entity, or why it has not. -/
def accept (table : EntityTable) (entity : Entity) : Except EntityError EntityTable :=
  let (answer, next) := (offer entity).run table
  answer.map fun () => next

end EntityTable

/-- What entities can be handed to. -/
class Consumer (κ : Type) where
  /-- Hands an entity over: whether it is taken or why it is refused, and what the consumer is then. -/
  accept : Entity → StateM κ (Except EntityError Unit)

instance : Consumer EntityTable := ⟨EntityTable.offer⟩

instance : Consumer (List Entity) := ⟨fun entity entities => (.ok (), entities ++ [entity])⟩

end FunctionTrees
