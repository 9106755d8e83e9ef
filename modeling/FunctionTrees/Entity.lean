import FunctionTrees.PositionTable

/-!
# Entities

`EntityParts` is all that belongs to one function: its tree, the roots of its blocks, its signature and where it stands in
the source. An `Entity` has the same fields and the proof that they have no `EntityParts.defect?`: it has a name, its
arguments line up, and what it refers to is in its tree. `Entity.assemble` and `Entity.parts` lead from one to the other
and back.
-/

set_option autoImplicit false

namespace FunctionTrees

/-! ## Parts -/

/-- All that belongs to one function. -/
structure EntityParts where
  name : String := ""
  ast : Ast := {}
  /-- The roots of the blocks, the entry first. -/
  blocks : List Node := []
  returnType : String := ""
  argumentTypes : List String := []
  argumentNames : List String := []
  /-- The positions of nodes of the tree. -/
  positions : PositionTable := {}
  /-- The position of the function as a whole. -/
  position : Option Position := none
  argumentPositions : List Position := []
deriving DecidableEq

/-- Why a bundle is no entity, or a table refuses one. -/
inductive EntityError where
  | emptyName
  | arityMismatch (function : String) (names types positions : Nat)
  | danglingBlock (function : String) (index : Nat)
  | danglingPosition (function : String)
  | duplicateName (function : String)
deriving DecidableEq

def EntityError.message : EntityError → String
  | emptyName => "function name must not be empty"
  | arityMismatch function names types positions =>
    "parameters of `" ++ function ++ s!"` do not line up: {names} names, {types} types, {positions} positions"
  | danglingBlock function index => s!"block {index} of `" ++ function ++ "` is not a node of its AST"
  | danglingPosition function => "a source position of `" ++ function ++ "` does not belong to its AST"
  | duplicateName function => "an entity named `" ++ function ++ "` was already registered"

namespace EntityParts

/-- Whether the file of a position is a string of the tree. -/
def knowsFile (parts : EntityParts) (position : Position) : Bool := (parts.ast.string? position.file).isSome

/-- Whether every position is one of the tree. -/
def positionsResolve (parts : EntityParts) : Bool :=
  parts.position.all parts.knowsFile && parts.argumentPositions.all parts.knowsFile &&
    parts.positions.toList.all fun (node, position) => parts.ast.contains node && parts.knowsFile position

/-- What keeps the parts from being an entity. -/
def defect? (parts : EntityParts) : Option EntityError :=
  let names := parts.argumentNames.length
  let types := parts.argumentTypes.length
  let positions := parts.argumentPositions.length
  if parts.name = "" then some .emptyName
  else if names ≠ types ∨ names ≠ positions then some (.arityMismatch parts.name names types positions)
  else
    match parts.blocks.findIdx? fun block => !parts.ast.contains block with
    | some index => some (.danglingBlock parts.name index)
    | none => if parts.positionsResolve then none else some (.danglingPosition parts.name)

end EntityParts

/-! ## Entities -/

/-- A function with all that belongs to it, where nothing keeps that from being a whole. -/
structure Entity where
  name : String
  ast : Ast
  blocks : List Node
  returnType : String
  argumentTypes : List String
  argumentNames : List String
  positions : PositionTable
  position : Option Position
  argumentPositions : List Position
  sound : EntityParts.defect?
    ⟨name, ast, blocks, returnType, argumentTypes, argumentNames, positions, position, argumentPositions⟩ = none
deriving DecidableEq

/-- An argument of a function. -/
structure Argument where
  name : String
  type : String
  position : Position
deriving DecidableEq

namespace Entity

/-- The entity that whole parts make: each of them becomes a field of it. -/
def assemble (parts : EntityParts) (sound : parts.defect? = none) : Entity where
  name := parts.name
  ast := parts.ast
  blocks := parts.blocks
  returnType := parts.returnType
  argumentTypes := parts.argumentTypes
  argumentNames := parts.argumentNames
  positions := parts.positions
  position := parts.position
  argumentPositions := parts.argumentPositions
  sound := sound

/-- The entity of some parts, or what keeps them from being one. -/
def ofParts (parts : EntityParts) : Except EntityError Entity :=
  match h : parts.defect? with
  | none => .ok (assemble parts h)
  | some error => .error error

/-- What an entity is made of, once it is taken apart. -/
def parts (entity : Entity) : EntityParts where
  name := entity.name
  ast := entity.ast
  blocks := entity.blocks
  returnType := entity.returnType
  argumentTypes := entity.argumentTypes
  argumentNames := entity.argumentNames
  positions := entity.positions
  position := entity.position
  argumentPositions := entity.argumentPositions

theorem parts_sound (entity : Entity) : entity.parts.defect? = none := entity.sound

theorem parts_assemble (parts : EntityParts) (sound : parts.defect? = none) : (assemble parts sound).parts = parts := rfl

theorem assemble_parts (entity : Entity) : assemble entity.parts entity.parts_sound = entity := rfl

/-- The root of the block that the function starts with. -/
def entry? (entity : Entity) : Option Node := entity.blocks.head?

/-- Whether the function has no body. -/
def isDeclaration (entity : Entity) : Bool := entity.blocks.isEmpty

def callSites (entity : Entity) : List CallSite := entity.ast.callSites

/-- The arguments with their names, types and positions. -/
def arguments (entity : Entity) : List Argument :=
  (entity.argumentNames.zip (entity.argumentTypes.zip entity.argumentPositions)).map fun (name, type, position) =>
    ⟨name, type, position⟩

end Entity

end FunctionTrees
