import ClassSchema.Type.Basic
import ClassSchema.Type.Brackets

/-!
# Reading field types

White space is dropped first. The rest is read from the outside in: a final
mark, a map by its beginning, a list by its ending, a custom type with
parameters by its first bracket, and a name. Each step inwards uses up one
level of a fixed supply, so that reading ends, and nesting deeper than the
supply is refused.
-/

namespace ClassSchema

/-- Why a type expression cannot be read. -/
inductive TypeFault where
  | empty | tooDeep | loneMark
  | openMapKey | missingMapKey | missingMapValue
  | namelessParameters | openParameters | textBehindParameters
  | emptyParameters | emptyParameter | badName
deriving DecidableEq, Repr

namespace TypeFault

def reason : TypeFault → Text
  | empty => "empty type expression"
  | tooDeep => "type nesting too deep"
  | loneMark => "'?' must follow a type"
  | openMapKey => "unbalanced brackets in map key"
  | missingMapKey => "map is missing a key type"
  | missingMapValue => "map is missing a value type"
  | namelessParameters => "generic parameters without a type name"
  | openParameters => "unbalanced brackets"
  | textBehindParameters => "unexpected text after generic parameters"
  | emptyParameters => "empty generic parameter list"
  | emptyParameter => "empty generic parameter"
  | badName => "invalid type name"

end TypeFault

/-- A part of a type expression with what is wrong about it. -/
structure MalformedType where
  text : Text
  fault : TypeFault
deriving DecidableEq, Repr

namespace FieldType

/-- The deepest nesting that is read. -/
def maxHeight : Nat := 64

/-- A final mark says that the type in front of it is nullable. -/
def cutMark (t : Text) : Text × Bool :=
  match Text.withoutEnding? "?" t with
  | some body => (body, true)
  | none => (t, false)

/-- A keyword or the name of a custom type. -/
def readName (body : Text) : Except MalformedType FieldType :=
  match Primitive.ofKeyword? body with
  | some p => .ok (primitive p false)
  | none =>
    match TypeName.ofText body with
    | .ok name => .ok (custom name [] false)
    | .error _ => .error ⟨body, .badName⟩

/-- A map, from what follows `map[`. -/
def readMap (inner : Text → Except MalformedType FieldType) (body rest : Text) :
    Except MalformedType FieldType :=
  match Brackets.cut? rest with
  | none => .error ⟨body, .openMapKey⟩
  | some (key, value) =>
    if key.isEmpty then .error ⟨body, .missingMapKey⟩
    else if value.isEmpty then .error ⟨body, .missingMapValue⟩
    else do
      let k ← inner key
      let v ← inner value
      return map k v false

def readParameters (inner : Text → Except MalformedType FieldType) (body : Text) :
    List Text → Except MalformedType (List FieldType)
  | [] => .ok []
  | piece :: pieces =>
    if piece.isEmpty then .error ⟨body, .emptyParameter⟩
    else do
      let p ← inner piece
      let ps ← readParameters inner body pieces
      return p :: ps

/-- A custom type with parameters, from its name and what follows the bracket. -/
def readCustom (inner : Text → Except MalformedType FieldType) (body name rest : Text) :
    Except MalformedType FieldType :=
  if name.isEmpty then .error ⟨body, .namelessParameters⟩
  else
    match Brackets.cut? rest with
    | none => .error ⟨body, .openParameters⟩
    | some (parameters, behind) =>
      if !behind.isEmpty then .error ⟨body, .textBehindParameters⟩
      else if parameters.isEmpty then .error ⟨body, .emptyParameters⟩
      else do
        let ps ← readParameters inner body (Brackets.pieces parameters)
        match TypeName.ofText name with
        | .ok n => return custom n ps false
        | .error _ => .error ⟨name, .badName⟩

/-- One level of a type expression without its mark; `inner` reads the parts. -/
def readBody (inner : Text → Except MalformedType FieldType) (body : Text) :
    Except MalformedType FieldType :=
  match Text.withoutStart? "map[" body with
  | some rest => readMap inner body rest
  | none =>
    match Text.withoutEnding? "[]" body with
    | some element => return list (← inner element) false
    | none =>
      match body.dropWhile (· != '[') with
      | _ :: rest => readCustom inner body (body.takeWhile (· != '[')) rest
      | [] => readName body

theorem readBody_map {inner : Text → Except MalformedType FieldType} (rest : Text) :
    readBody inner ("map[" ++ rest) = readMap inner ("map[" ++ rest) rest := by
  simp only [readBody, Text.withoutStart?_append]

/-- Reads an expression without white space that may nest `room` levels, itself
included. -/
def readCompact : Nat → Text → Except MalformedType FieldType
  | room, text =>
    if text.isEmpty then .error ⟨text, .empty⟩
    else
      match room with
      | 0 => .error ⟨text, .tooDeep⟩
      | room + 1 =>
        let (body, nullable) := cutMark text
        if body.isEmpty then .error ⟨text, .loneMark⟩
        else return (← readBody (readCompact room) body).withNullable nullable

/-- Reads a type expression; white space in it has no meaning. -/
def read (text : Text) : Except MalformedType FieldType :=
  readCompact (maxHeight + 1) (Text.withoutBlanks text)

end FieldType

end ClassSchema
