import ClassSchema.Target.Language
import ClassSchema.Text.Casing
import ClassSchema.Text.Blank

/-!
# Go structs

A model becomes a struct with one exported field per field of the model, in
columns of names, types and tags. Nullable types are pointers, except slices
and maps, which have a nil value of their own.
-/

namespace ClassSchema.Go

def keyword : Primitive → Text
  | .integer => "int"
  | .long => "int64"
  | .float => "float32"
  | .double => "float64"
  | .bool => "bool"
  | .string => "string"

/-- The mark of a pointer. -/
def pointer (nullable : Bool) : Text := if nullable then "*" else ""

mutual
def renderType : FieldType → Text
  | .primitive p n => pointer n ++ keyword p
  | .list element _ => "[]" ++ renderType element
  | .map key value _ => "map[" ++ renderType key ++ "]" ++ renderType value
  | .custom name [] n => pointer n ++ name.text
  | .custom name (p :: ps) n =>
    pointer n ++ name.text ++ "[" ++ renderType p ++ renderMore ps ++ "]"

/-- Further type arguments, each after a comma. -/
def renderMore : List FieldType → Text
  | [] => []
  | p :: ps => ", " ++ renderType p ++ renderMore ps
end

theorem renderType_custom_cons (name : TypeName) (p : FieldType) (ps : List FieldType) (n : Bool) :
    renderType (.custom name (p :: ps) n) =
      pointer n ++ name.text ++ "[" ++ renderType p ++ renderMore ps ++ "]" := rfl

theorem renderMore_eq (ps : List FieldType) :
    renderMore ps = ps.flatMap fun p => (", " : Text) ++ renderType p := by
  induction ps with
  | nil => rfl
  | cons p ps ih =>
    change ", " ++ renderType p ++ renderMore ps = _
    rw [ih, List.flatMap_cons]

/-- The tag string of a field; there is none in a model without tags. -/
def renderTags (targets : List TagTarget) (tags : List Tag) : Text :=
  if targets.isEmpty then [] else "\x60" ++ renderEntries targets tags ++ "\x60"

theorem renderTags_eq {targets : List TagTarget} (h : targets ≠ []) (tags : List Tag) :
    renderTags targets tags = '\x60' :: (renderEntries targets tags ++ ['\x60']) := by
  rw [renderTags, if_neg (by simpa using h)]
  rfl

def exported (name : FieldName) : Text := Text.capitalized name.text

/-- The three columns of a field. -/
structure Row where
  name : Text
  type : Text
  tags : Text
deriving DecidableEq, Repr

def Row.ofField (targets : List TagTarget) (field : Field) : Row :=
  ⟨exported field.name, renderType field.type, renderTags targets field.tags⟩

/-- A field on a line, for given widths of the name and type columns. -/
def Row.line (nameWidth typeWidth : Nat) (row : Row) : Text :=
  Text.trimEnd (Text.padRight nameWidth row.name ++ " " ++
    Text.padRight typeWidth row.type ++ " " ++ row.tags)

/-- A single field without alignment. -/
def renderField (targets : List TagTarget) (field : Field) : Text :=
  (Row.ofField targets field).line 0 0

def rows (m : Model) : List Row := m.fields.map (Row.ofField m.targets)

/-- The names of the fields with their exported forms. -/
def renderings (m : Model) : List Rendering :=
  m.fields.map fun field => ⟨field.name.text, exported field.name⟩

def fieldLine (nameWidth typeWidth : Nat) (row : Row) : Text :=
  "    " ++ row.line nameWidth typeWidth ++ "\n"

/-- The lines of rows in columns that are as wide as their longest cells. -/
def fieldLines (rows : List Row) : Text :=
  let nameWidth := Text.maxLength (rows.map Row.name)
  let typeWidth := Text.maxLength (rows.map Row.type)
  rows.flatMap (fieldLine nameWidth typeWidth)

def renderModel (m : Model) : Text :=
  "type " ++ m.name.text ++ " struct \x7b\n" ++ fieldLines (rows m) ++ "\x7d\n"

/-- The struct of a model whose fields keep apart when exported. -/
def generate (m : Model) : Except Collision Text :=
  match Collision.find? .go (renderings m) with
  | some collision => .error collision
  | none => .ok (renderModel m)

end ClassSchema.Go
