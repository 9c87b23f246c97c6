import ClassSchema.Json.Value
import ClassSchema.Model

/-!
# The JSON form of models

A type is an object with a kind and, if it is nullable, a flag. Members that say
nothing are left out: a false flag of a type, an empty list of type parameters,
an empty list of tags. Reading takes a missing member for what it was left out
for, ignores members it does not know, and checks every name; nothing else is
checked, so a model that was read may have repetitions. A record may also be
given as an array of its parts in order.
-/

namespace ClassSchema.Json

open Value

def primitiveWord : Primitive → Text
  | .integer => "Integer"
  | .long => "Long"
  | .float => "Float"
  | .double => "Double"
  | .bool => "Bool"
  | .string => "String"

def primitiveOfWord? (word : Text) : Option Primitive :=
  Primitive.all.find? (primitiveWord · == word)

@[simp] theorem primitiveOfWord?_primitiveWord (p : Primitive) :
    primitiveOfWord? (primitiveWord p) = some p := by
  cases p <;> decide

theorem primitiveOfWord?_eq_some_iff {word : Text} {p : Primitive} :
    primitiveOfWord? word = some p ↔ word = primitiveWord p := by
  constructor
  · intro h
    have hword := List.find?_some h
    exact (beq_iff_eq.mp hword).symm
  · rintro rfl
    exact primitiveOfWord?_primitiveWord p

def nullableMember (nullable : Bool) : Members :=
  if nullable then [("nullable", bool true)] else []

/-- A type of a given kind. -/
def typeObject (kind : Value) (nullable : Bool) : Value :=
  object (("kind", kind) :: nullableMember nullable)

mutual
def encodeType : FieldType → Value
  | .primitive p n => typeObject (object [("type", string (primitiveWord p))]) n
  | .list element n =>
    typeObject (object [("data", encodeType element), ("type", string "List")]) n
  | .map key value n =>
    typeObject (object [("data", object [("key", encodeType key), ("value", encodeType value)]),
      ("type", string "Map")]) n
  | .custom name [] n =>
    typeObject (object [("data", object [("name", string name.text)]),
      ("type", string "Custom")]) n
  | .custom name (p :: ps) n =>
    typeObject (object [("data", object [("generics", array (encodeType p :: encodeTypes ps)),
      ("name", string name.text)]), ("type", string "Custom")]) n

def encodeTypes : List FieldType → List Value
  | [] => []
  | p :: ps => encodeType p :: encodeTypes ps
end

theorem encodeTypes_eq (ts : List FieldType) : encodeTypes ts = ts.map encodeType := by
  induction ts with
  | nil => rfl
  | cons t ts ih => rw [encodeTypes, ih, List.map_cons]

def encodeTag (tag : Tag) : Value :=
  object [("nullable", bool tag.nullable), ("target", string tag.target.text),
    ("values", array (tag.values.map string))]

def tagsMember (tags : List Tag) : Members :=
  if tags.isEmpty then [] else [("tags", array (tags.map encodeTag))]

def encodeField (field : Field) : Value :=
  let name : Members := [("name", string field.name.text)]
  let type : Members := [("type", encodeType field.type)]
  object (name ++ tagsMember field.tags ++ type)

def encodeModel (m : Model) : Value :=
  object [("fields", array (m.fields.map encodeField)), ("name", string m.name.text)]

def asText? : Value → Option Text
  | string t => some t
  | _ => none

theorem asText?_eq_some_iff {v : Value} {word : Text} :
    asText? v = some word ↔ v = string word := by
  cases v <;> simp [asText?]

def asBool? : Value → Option Bool
  | .bool b => some b
  | _ => none

def asArray? : Value → Option (List Value)
  | array items => some items
  | _ => none

theorem asArray?_eq_some_iff {v : Value} {items : List Value} :
    asArray? v = some items ↔ v = array items := by
  cases v <;> simp [asArray?]

def isNull : Value → Bool
  | null => true
  | _ => false

theorem isNull_iff {v : Value} : isNull v = true ↔ v = null := by
  cases v <;> simp [isNull]

/-- A flag that may be missing. -/
def flag? : Option Value → Option Bool
  | none => some false
  | some v => asBool? v

theorem flag?_nullableMember (n : Bool) :
    flag? (Members.get? (nullableMember n) "nullable") = some n := by
  cases n <;> rfl

/-- A list that may be missing. -/
def list? : Option Value → Option (List Value)
  | none => some []
  | some v => asArray? v

/-- The parts of a record by their keys. An array gives them in order. -/
def parts? (keys : List Text) : Value → Option (List (Option Value))
  | object members => some (keys.map (Members.get? members))
  | array items =>
    if items.length ≤ keys.length then some ((List.range keys.length).map (items[·]?)) else none
  | _ => none

/-- The kind that a word stands for. Its data may be read in three ways; a
primitive has none. -/
def kindOf? (word : Text) (data : Value) (element map custom : Unit → Option FieldType) :
    Option FieldType :=
  if word = "List" then (element ()).map (.list · false)
  else if word = "Map" then map ()
  else if word = "Custom" then custom ()
  else if isNull data then (primitiveOfWord? word).map (.primitive · false)
  else none

mutual
def decodeType : Value → Option FieldType
  | object members => do
    let type ← decodeKindAt members
    let nullable ← flag? (Members.get? members "nullable")
    return type.withNullable nullable
  | array [kind] => decodeKind kind
  | array [kind, nullable] => do
    let type ← decodeKind kind
    let nullable ← asBool? nullable
    return type.withNullable nullable
  | _ => none

def decodeKindAt : Members → Option FieldType
  | [] => none
  | (key, v) :: members => if key = "kind" then decodeKind v else decodeKindAt members

def decodeKind : Value → Option FieldType
  | object members => do
    let word ← (Members.get? members "type").bind asText?
    decodeDataAt word members
  | array [word, data] => do
    let word ← asText? word
    kindOf? word data (fun _ => decodeType data) (fun _ => decodeMap data)
      (fun _ => decodeCustom data)
  | _ => none

/-- The kind of a word, with the data among some members. -/
def decodeDataAt (word : Text) : Members → Option FieldType
  | [] => (primitiveOfWord? word).map (.primitive · false)
  | (key, v) :: members =>
    if key = "data" then
      kindOf? word v (fun _ => decodeType v) (fun _ => decodeMap v) (fun _ => decodeCustom v)
    else decodeDataAt word members

def decodeMap : Value → Option FieldType
  | object parts => do
    return .map (← decodeTypeAt "key" parts) (← decodeTypeAt "value" parts) false
  | _ => none

def decodeCustom : Value → Option FieldType
  | object parts => do
    let name ← (Members.get? parts "name").bind asText?
    let name ← (TypeName.ofText name).toOption
    return .custom name (← decodeParametersAt parts) false
  | _ => none

/-- The type that is the member with a key. -/
def decodeTypeAt (wanted : Text) : Members → Option FieldType
  | [] => none
  | (key, v) :: members => if key = wanted then decodeType v else decodeTypeAt wanted members

/-- The type parameters; a missing member means that there are none. -/
def decodeParametersAt : Members → Option (List FieldType)
  | [] => some []
  | (key, v) :: members =>
    if key = "generics" then decodeParameters v else decodeParametersAt members

def decodeParameters : Value → Option (List FieldType)
  | array items => decodeTypes items
  | _ => none

def decodeTypes : List Value → Option (List FieldType)
  | [] => some []
  | v :: vs => do
    let p ← decodeType v
    let ps ← decodeTypes vs
    return p :: ps
end

theorem decodeTypes_eq (vs : List Value) : decodeTypes vs = vs.mapM decodeType := by
  induction vs with
  | nil => rfl
  | cons v vs ih =>
    rw [List.mapM_cons, decodeTypes, ih]

def decodeTag (v : Value) : Option Tag := do
  let [target, nullable, values] ← parts? ["target", "nullable", "values"] v | none
  let target ← target.bind asText?
  let target ← (TagTarget.ofText target).toOption
  let values ← values.bind asArray?
  return ⟨target, ← flag? nullable, ← values.mapM asText?⟩

def decodeField (v : Value) : Option Field := do
  let [name, type, tags] ← parts? ["name", "type", "tags"] v | none
  let name ← name.bind asText?
  let name ← (FieldName.ofText name).toOption
  let tags ← list? tags
  return ⟨name, ← type.bind decodeType, ← tags.mapM decodeTag⟩

def decodeModel (v : Value) : Option Model := do
  let [name, fields] ← parts? ["name", "fields"] v | none
  let name ← name.bind asText?
  let name ← (ClassName.ofText name).toOption
  let fields ← fields.bind asArray?
  return ⟨name, ← fields.mapM decodeField⟩

end ClassSchema.Json
