import ClassSchema.Lists
import ClassSchema.Type.Basic

/-!
# Models

A model is a class with its fields in the order of their declaration. A field
has a name, a type, and tags, each of which annotates it for one target. The
first value of a tag is the key under which the target knows the field; further
values are modifiers. The tag targets that any field uses, sorted and without
repetition, are what the columns and the generated code of a model range over.
-/

namespace ClassSchema

structure Tag where
  target : TagTarget
  /-- The field is left out for this target when it has no value. -/
  nullable : Bool
  values : List Text
deriving DecidableEq

namespace Tag

/-- A tag must have a value. -/
def make (target : TagTarget) (nullable : Bool) (values : List Text) : Except Violation Tag :=
  if values.isEmpty then .error (.noTagValues target.text) else .ok ⟨target, nullable, values⟩

/-- The key of a field that a target does not know. -/
def skipKey : Text := "-"

def key (t : Tag) : Text := t.values.headD skipKey

def isSkipped (t : Tag) : Bool := t.key == skipKey

/-- The values as they stand between the quotes. -/
def joinedValues (t : Tag) : Text := Text.joined "," t.values

theorem not_mem_joinedValues {tag : Tag} {c : Char} (hc : c ≠ ',')
    (h : ∀ v ∈ tag.values, c ∉ v) : c ∉ tag.joinedValues := by
  intro hmem
  rcases Text.mem_joined hmem with ⟨v, hv, hcv⟩ | hcomma
  · exact h v hv hcv
  · exact hc (by simpa using hcomma)

theorem mem_joinedValues_iff {tag : Tag} {c : Char} (hc : c ≠ ',') :
    c ∈ tag.joinedValues ↔ ∃ value ∈ tag.values, c ∈ value := by
  constructor
  · intro h
    rcases Text.mem_joined h with h | h
    · exact h
    · exact absurd (List.mem_singleton.mp h) hc
  · rintro ⟨value, hvalue, h⟩
    exact Text.mem_joined_of_mem hvalue h

/-- The tag as it is written in a field line. -/
def render (t : Tag) : Text :=
  t.target.text ++ (if t.nullable then "?" else "") ++ ":\"" ++ t.joinedValues ++ "\""

end Tag

structure Field where
  name : FieldName
  type : FieldType
  tags : List Tag
deriving DecidableEq

namespace Field

/-- A field may have one tag for each target. -/
def make (name : FieldName) (type : FieldType) (tags : List Tag) : Except Violation Field :=
  match firstClash? Tag.target tags with
  | some (_, tag) => .error (.repeatedTarget tag.target.text name.text)
  | none => .ok ⟨name, type, tags⟩

theorem make_eq_ok_iff {name : FieldName} {type : FieldType} {tags : List Tag} {f : Field} :
    make name type tags = .ok f ↔ f = ⟨name, type, tags⟩ ∧ (tags.map Tag.target).Nodup := by
  rw [← firstClash?_eq_none_iff]
  unfold make
  cases firstClash? Tag.target tags with
  | none => simp [eq_comm]
  | some clash => simp

def tagFor? (f : Field) (target : TagTarget) : Option Tag := f.tags.find? (·.target = target)

/-- The field on one line, with single spaces. -/
def render (f : Field) : Text :=
  f.name.text ++ " " ++ f.type.render ++ f.tags.flatMap (fun tag => ' ' :: tag.render)

end Field

structure Model where
  name : ClassName
  fields : List Field
deriving DecidableEq

namespace Model

/-- The fields of a model must differ in their names. -/
def make (name : ClassName) (fields : List Field) : Except Violation Model :=
  match firstClash? Field.name fields with
  | some (_, field) => .error (.repeatedField field.name.text)
  | none => .ok ⟨name, fields⟩

theorem make_eq_ok {fields : List Field} (h : (fields.map Field.name).Nodup) (name : ClassName) :
    make name fields = .ok ⟨name, fields⟩ := by
  simp [make, firstClash?_eq_none_iff.mpr h]

def field? (m : Model) (name : FieldName) : Option Field := m.fields.find? (·.name = name)

/-- Every tag target of the model, sorted and without repetition. -/
def targets (m : Model) : List TagTarget :=
  Sorted.ofList TagTarget.order (m.fields.flatMap fun f => f.tags.map Tag.target)

theorem mem_targets {m : Model} {target : TagTarget} :
    target ∈ m.targets ↔ ∃ f ∈ m.fields, target ∈ f.tags.map Tag.target := by
  rw [targets, Sorted.mem_ofList, List.mem_flatMap]

/-- Without targets in the model no field has tags. -/
theorem tags_eq_nil_of_targets_eq_nil {m : Model} {f : Field} (hf : f ∈ m.fields)
    (h : m.targets = []) : f.tags = [] := by
  refine List.eq_nil_iff_forall_not_mem.mpr fun tag htag => ?_
  have hmem : tag.target ∈ m.targets := mem_targets.mpr ⟨f, hf, List.mem_map_of_mem htag⟩
  simp [h] at hmem

/-- Whether some field's tag for the target is nullable. -/
def hasNullableTag (m : Model) (target : TagTarget) : Bool :=
  m.fields.any fun f => (f.tagFor? target).any Tag.nullable

/-- A field on a line of its own. -/
def renderLine (f : Field) : Text := "  " ++ f.render ++ "\n"

/-- The model with single spaces and the tags in their order. -/
def render (m : Model) : Text := m.name.text ++ ":\n" ++ m.fields.flatMap renderLine

end Model

end ClassSchema
