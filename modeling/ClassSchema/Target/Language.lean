import ClassSchema.Model

/-!
# Target languages

The languages that code is generated for, and the words that name them. No code
is generated if two names of a schema come out as the same identifier. In any
language the code annotates every field for every target of the model: first
the field's own tags in their order, then each target that it lacks, with the
key of a skipped field.
-/

namespace ClassSchema

inductive Language where
  | go | typeScript
deriving DecidableEq, Repr

namespace Language

/-- Every language, in the order they are listed. -/
def all : List Language := [go, typeScript]

/-- The words that name a language, the canonical one first. -/
def aliases : Language → List Text
  | go => ["go", "golang"]
  | typeScript => ["typescript", "ts"]

/-- The canonical word for a language. -/
def identifier : Language → Text
  | go => "go"
  | typeScript => "typescript"

/-- Extension of generated files, without the dot. -/
def extension : Language → Text
  | go => "go"
  | typeScript => "ts"

theorem dot_not_mem_extension (language : Language) : '.' ∉ language.extension := by
  cases language <;> decide

theorem length_extension (language : Language) : language.extension.length = 2 := by
  cases language <;> rfl

/-- Every word that names some language. -/
def identifiers : List Text := all.flatMap aliases

/-- The language of a word, whatever its case and the white space around it. -/
def ofIdentifier? (word : Text) : Option Language :=
  let wanted := (Text.trim word).asciiLower
  all.find? fun language => language.aliases.contains wanted

end Language

/-- Two names of a schema that a language renders alike. -/
structure Collision where
  language : Language
  first : Text
  second : Text
  identifier : Text
deriving DecidableEq, Repr

def Collision.message (c : Collision) : Text :=
  c.language.identifier ++ ": '" ++ c.first ++ "' and '" ++ c.second ++
    "' both render as '" ++ c.identifier ++ "'"

/-- A name of a schema with the identifier it is rendered as. -/
structure Rendering where
  name : Text
  identifier : Text
deriving DecidableEq, Repr

/-- The first name whose identifier an earlier name has as well. -/
def Collision.find? (language : Language) (renderings : List Rendering) : Option Collision :=
  (firstClash? Rendering.identifier renderings).map fun (first, second) =>
    ⟨language, first.name, second.name, second.identifier⟩

theorem Collision.find?_eq_none_iff {language : Language} {renderings : List Rendering} :
    Collision.find? language renderings = none ↔
      (renderings.map Rendering.identifier).Nodup := by
  rw [Collision.find?, Option.map_eq_none_iff, firstClash?_eq_none_iff]

/-- The message for a word that names no language. -/
def Language.unsupportedMessage (word : Text) : Text :=
  "unsupported language '" ++ word ++ "': expected one of " ++
    Text.joined ", " Language.identifiers

/-- An entry of an annotation: a target and its quoted text. -/
structure Entry where
  target : TagTarget
  text : Text
deriving DecidableEq

namespace Entry

/-- The modifier of a nullable tag. -/
def omitEmpty : Text := "omitempty"

def ofTag (tag : Tag) : Entry where
  target := tag.target
  text := if tag.nullable then tag.joinedValues ++ "," ++ omitEmpty else tag.joinedValues

theorem text_ofTag (tag : Tag) :
    (ofTag tag).text = tag.joinedValues ++ if tag.nullable then (",omitempty" : Text) else [] := by
  have homit : ("," : Text) ++ omitEmpty = (",omitempty" : Text) := by decide
  rw [← homit]
  cases hnullable : tag.nullable with
  | true => simp [ofTag, hnullable]
  | false => simp [ofTag, hnullable]

/-- The entry of a target for which a field has no tag. -/
def missing (target : TagTarget) : Entry := ⟨target, Tag.skipKey⟩

def render (e : Entry) : Text := e.target.text ++ ":\"" ++ e.text ++ "\""

theorem render_eq_iff (e : Entry) (text : Text) :
    e.render = e.target.text ++ ":\"" ++ text ++ "\"" ↔ e.text = text := by
  simp [Entry.render]

end Entry

/-- The entries of a field with the given tags, for the targets of its model. -/
def entries (targets : List TagTarget) (tags : List Tag) : List Entry :=
  tags.map Entry.ofTag ++
    (targets.filter fun target => !tags.any (·.target = target)).map Entry.missing

/-- The rendered entries, one space apart. -/
def renderEntries (targets : List TagTarget) (tags : List Tag) : Text :=
  Text.joined " " ((entries targets tags).map Entry.render)

end ClassSchema
