import FunctionTrees.Entity
import FunctionTrees.Formats.Ast

/-!
# Entities in JSON

An entity is written field by field, under the names that its parts have. It is read by reading parts and checking that
they make an entity. In what order the recorded positions are written makes no difference to that.
-/

set_option autoImplicit false

namespace FunctionTrees

open Json (Format Layout)

/-- Parts whose recorded positions are written in the order that `order` gives them. -/
def EntityParts.formatIn (order : List (Nat × Position) → List (Nat × Position)) : Format EntityParts :=
  Format.record "EntityParts"
    (.field "function_name" Format.text .refused <| .field "ast" Ast.format .refused <|
      .field "basic_blocks" Node.format.list .refused <| .field "return_type" Format.text .refused <|
      .field "argument_types" Format.text.list .refused <| .field "argument_names" Format.text.list .refused <|
      .field "positions" (PositionTable.formatIn order) .refused <|
      .field "function_position" Position.format.optional (.optional none) <|
      .field "argument_positions" Position.format.list .refused .done)
    (fun parts =>
      (parts.name, parts.ast, parts.blocks, parts.returnType, parts.argumentTypes, parts.argumentNames, parts.positions,
        parts.position, parts.argumentPositions, ()))
    fun (name, ast, blocks, returnType, argumentTypes, argumentNames, positions, position, argumentPositions, _) =>
      ⟨name, ast, blocks, returnType, argumentTypes, argumentNames, positions, position, argumentPositions⟩

def EntityParts.format : Format EntityParts := EntityParts.formatIn id

/-- How an entity is written, with its recorded positions in the order that `order` gives them. -/
def Entity.writeIn (order : List (Nat × Position) → List (Nat × Position)) (entity : Entity) : List Char :=
  Format.writeObject
    [("function_name", Format.text.write entity.name),
     ("ast", Ast.format.write entity.ast),
     ("basic_blocks", Node.format.list.write entity.blocks),
     ("return_type", Format.text.write entity.returnType),
     ("argument_types", Format.text.list.write entity.argumentTypes),
     ("argument_names", Format.text.list.write entity.argumentNames),
     ("positions", (PositionTable.formatIn order).write entity.positions),
     ("function_position", Position.format.optional.write entity.position),
     ("argument_positions", Position.format.list.write entity.argumentPositions)]

/-- Entities are read as parts that make one. -/
def Entity.formatIn (order : List (Nat × Position) → List (Nat × Position)) : Format Entity where
  reader := do
    match Entity.ofParts (← (EntityParts.formatIn order).reader) with
    | .ok entity => return entity
    | .error error => Json.Reader.unfit (.refused error.message)
  write := Entity.writeIn order

def Entity.format : Format Entity := Entity.formatIn id

end FunctionTrees
