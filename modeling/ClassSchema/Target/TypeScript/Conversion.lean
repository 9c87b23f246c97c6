import ClassSchema.Model

/-!
# Conversion methods

For each tag target a class gets a method that writes an object of that target
and one that reads such an object. What the two do is described here as data;
the wording of the methods is left to the generator.
-/

namespace ClassSchema.TypeScript

/-- A statement of the writing method: it stores a field under a key. -/
structure Assignment where
  key : Text
  field : FieldName
  /-- The field is stored only if it has a truthy value. -/
  guarded : Bool
deriving DecidableEq

/-- The value of a field that an object does not provide. -/
inductive Default where
  | null | zero | falseValue | emptyString | emptyList
  | emptyMap (key value : FieldType)
  | emptyObject (type : FieldType)
deriving DecidableEq

/-- An argument that the reading method passes to the constructor. -/
inductive Argument where
  /-- What the object has under a key, or else the fallback. -/
  | read (key : Text) (fallback : Option Default)
  | constant (value : Default)
deriving DecidableEq

/-- The empty value of a kind of primitive. -/
def Default.ofPrimitive : Primitive → Default
  | .bool => falseValue
  | .string => emptyString
  | .integer | .long | .float | .double => zero

/-- The empty value of a type; that of a nullable one is null. -/
def Default.ofType (type : FieldType) : Default :=
  if type.nullable then null
  else
    match type with
    | .primitive p _ => ofPrimitive p
    | .list .. => emptyList
    | .map key value _ => emptyMap key value
    | .custom .. => emptyObject type

/-- The tag of a field for a target that knows the field. -/
def activeTag? (target : TagTarget) (field : Field) : Option Tag :=
  (field.tagFor? target).filter fun tag => !tag.isSkipped

/-- The statement for a field, if the target knows it. -/
def Assignment.ofField? (target : TagTarget) (field : Field) : Option Assignment :=
  (activeTag? target field).map fun tag => ⟨tag.key, field.name, tag.nullable⟩

def Argument.ofField (target : TagTarget) (field : Field) : Argument :=
  match activeTag? target field with
  | some tag =>
    .read tag.key
      (if field.type.nullable then some .null
       else if tag.nullable then some (Default.ofType field.type)
       else none)
  | none => .constant (Default.ofType field.type)

theorem argument_eq_constant_iff {f : Field} {target : TagTarget} :
    Argument.ofField target f = .constant (Default.ofType f.type) ↔
      activeTag? target f = none := by
  unfold Argument.ofField
  cases activeTag? target f <;> simp

theorem argument_eq_read {f : Field} {tag : Tag} {target : TagTarget}
    (h : activeTag? target f = some tag) :
    Argument.ofField target f = .read tag.key
      (if f.type.nullable then some .null
        else if tag.nullable then some (Default.ofType f.type) else none) := by
  rw [Argument.ofField, h]

/-- The statements of the writing method, in the order of the fields. -/
def assignments (m : Model) (target : TagTarget) : List Assignment :=
  m.fields.filterMap (Assignment.ofField? target)

theorem sublist_field_assignments (m : Model) (target : TagTarget) :
    ((assignments m target).map Assignment.field).Sublist (m.fields.map Field.name) := by
  unfold assignments
  induction m.fields with
  | nil => exact List.Sublist.slnil
  | cons f fields ih =>
    rw [List.map_cons]
    cases hassign : Assignment.ofField? target f with
    | none =>
      rw [List.filterMap_cons_none hassign]
      exact ih.cons f.name
    | some a =>
      obtain ⟨tag, -, rfl⟩ := Option.map_eq_some_iff.mp hassign
      rw [List.filterMap_cons_some hassign, List.map_cons]
      exact ih.cons_cons f.name

/-- The arguments of the reading method, one for each field. -/
def arguments (m : Model) (target : TagTarget) : List Argument :=
  m.fields.map (Argument.ofField target)

end ClassSchema.TypeScript
