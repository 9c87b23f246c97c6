import ClassSchema.Target.Language
import ClassSchema.Target.TypeScript.Conversion
import ClassSchema.Text.Casing

/-!
# TypeScript classes

A model becomes a class with its fields, a constructor over all of them, and a
pair of conversion methods for each tag target.
-/

namespace ClassSchema.TypeScript

def keyword : Primitive → Text
  | .integer | .long | .float | .double => "number"
  | .bool => "boolean"
  | .string => "string"

/-- The alternative of a nullable type. -/
def orNull (nullable : Bool) : Text := if nullable then " | null" else ""

mutual
def renderType : FieldType → Text
  | .primitive p n => keyword p ++ orNull n
  | .list element n =>
    (if element.nullable then "(" ++ renderType element ++ ")" else renderType element) ++
      "[]" ++ orNull n
  | .map key value n => "Map<" ++ renderType key ++ ", " ++ renderType value ++ ">" ++ orNull n
  | .custom name [] n => name.text ++ orNull n
  | .custom name (p :: ps) n =>
    name.text ++ "<" ++ renderType p ++ renderMore ps ++ ">" ++ orNull n

/-- Further type arguments, each after a comma. -/
def renderMore : List FieldType → Text
  | [] => []
  | p :: ps => ", " ++ renderType p ++ renderMore ps
end

theorem renderMore_eq (ps : List FieldType) :
    renderMore ps = ps.flatMap fun p => (", " : Text) ++ renderType p := by
  induction ps with
  | nil => rfl
  | cons p ps ih =>
    change ", " ++ renderType p ++ renderMore ps = _
    rw [ih, List.flatMap_cons]

/-- The annotation of a field, written behind its declaration. -/
def renderTags (targets : List TagTarget) (tags : List Tag) : Text :=
  renderEntries targets tags

def renderField (targets : List TagTarget) (field : Field) : Text :=
  let declaration := field.name.text ++ ": " ++ renderType field.type ++ ";"
  if targets.isEmpty then declaration
  else declaration ++ " // " ++ renderTags targets field.tags

/-- The parts of a target between hyphens and underscores, each with its first
letter in upper case. -/
def methodSuffix (target : TagTarget) : Text :=
  ((Text.splitOn '-' target.text).flatMap (Text.splitOn '_')).flatMap Text.capitalized

def Default.render : Default → Text
  | null => "null"
  | zero => "0"
  | falseValue => "false"
  | emptyString => "\"\""
  | emptyList => "[]"
  | emptyMap key value => "new Map<" ++ renderType key ++ ", " ++ renderType value ++ ">()"
  | emptyObject type => "\x7b\x7d as " ++ renderType type

def Argument.render : Argument → Text
  | read key none => "data[\"" ++ key ++ "\"]"
  | read key (some fallback) => "data[\"" ++ key ++ "\"] ?? " ++ fallback.render
  | constant value => value.render

def Assignment.render (a : Assignment) : Text :=
  (if a.guarded then "if (this." ++ a.field.text ++ ") " else []) ++
    "out[\"" ++ a.key ++ "\"] = this." ++ a.field.text ++ ";"

/-- A line at a depth of indentation. -/
def indented (depth : Nat) (line : Text) : Text := List.replicate (4 * depth) ' ' ++ line

theorem withoutStart?_indented (depth : Nat) (line : Text) :
    Text.withoutStart? (indented depth []) (indented depth line) = some line := by
  rw [Text.withoutStart?_eq_some_iff]
  simp [indented]

def constructorLines (m : Model) : List Text :=
  let parameters := m.fields.map fun field => field.name.text ++ ": " ++ renderType field.type
  [indented 1 ("constructor(" ++ Text.joined ", " parameters ++ ") \x7b")] ++
    m.fields.map (fun field =>
      indented 2 ("this." ++ field.name.text ++ " = " ++ field.name.text ++ ";")) ++
    [indented 1 "\x7d"]

/-- The method that writes an object of a target. -/
def toLines (m : Model) (target : TagTarget) : List Text :=
  [indented 1 ("public To" ++ methodSuffix target ++ "(): Object \x7b"),
    indented 2 "const out: any = \x7b\x7d;"] ++
    (assignments m target).map (fun a => indented 2 a.render) ++
    [indented 2 "return out;", indented 1 "\x7d"]

/-- The method that reads an object of a target. -/
def fromLines (m : Model) (target : TagTarget) : List Text :=
  [indented 1 ("public static From" ++ methodSuffix target ++ "(data: any): " ++
      m.name.text ++ " \x7b"),
    indented 2 ("return new " ++ m.name.text ++ "(")] ++
    (arguments m target).map (fun a => indented 3 (a.render ++ ",")) ++
    [indented 2 ");", indented 1 "\x7d"]

def fieldLines (m : Model) : List Text :=
  let targets := m.targets
  m.fields.map fun field => indented 1 (renderField targets field)

/-- The sections of a class body, which are divided by empty lines. -/
def sections (m : Model) : List (List Text) :=
  (if m.fields.isEmpty then [] else [fieldLines m]) ++ [constructorLines m] ++
    m.targets.flatMap fun target => [toLines m target, fromLines m target]

theorem section_ne_nil {m : Model} : ∀ s ∈ sections m, s ≠ [] := by
  intro s hs
  simp only [sections, List.mem_append, List.mem_flatMap, List.mem_cons, List.not_mem_nil,
    or_false] at hs
  rcases hs with (hs | rfl) | ⟨target, -, rfl | rfl⟩
  · split at hs
    · cases hs
    · next hfields =>
      obtain rfl := List.mem_singleton.mp hs
      simpa [fieldLines] using hfields
  · simp [constructorLines]
  · simp [toLines]
  · simp [fromLines]

theorem mem_sections {m : Model} {target : TagTarget} (htarget : target ∈ m.targets) :
    toLines m target ∈ sections m ∧ fromLines m target ∈ sections m := by
  have hmem (lines : List Text) (h : lines ∈ [toLines m target, fromLines m target]) :
      lines ∈ sections m :=
    List.mem_append_right _ (List.mem_flatMap.mpr ⟨target, htarget, h⟩)
  exact ⟨hmem _ (by simp), hmem _ (by simp)⟩

/-- The targets of a model with the names of their methods. -/
def renderings (m : Model) : List Rendering :=
  m.targets.map fun target => ⟨target.text, methodSuffix target⟩

def renderModel (m : Model) : Text :=
  "export default class " ++ m.name.text ++ " \x7b\n" ++
    Text.joined "\n\n" ((sections m).map (Text.joined "\n")) ++ "\n\x7d\n"

/-- The class of a model whose targets keep apart as method names. -/
def generate (m : Model) : Except Collision Text :=
  match Collision.find? .typeScript (renderings m) with
  | some collision => .error collision
  | none => .ok (renderModel m)

end ClassSchema.TypeScript
