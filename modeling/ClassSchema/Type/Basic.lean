import ClassSchema.Name

/-!
# Field types

A field type is a tree of primitives, lists, maps and custom types with type
parameters. Every node may be nullable. `render` writes the notation of schema
files, which has no blanks.
-/

namespace ClassSchema

inductive Primitive where
  | integer | long | float | double | bool | string
deriving DecidableEq, Repr

namespace Primitive

def all : List Primitive := [integer, long, float, double, bool, string]

def keyword : Primitive → Text
  | integer => "int"
  | long => "long"
  | float => "float"
  | double => "double"
  | bool => "bool"
  | string => "string"

theorem keyword_ne_nil (kind : Primitive) : kind.keyword ≠ [] := by
  cases kind <;> decide

theorem keyword_mem (p : Primitive) : p.keyword ∈ all.map keyword := by
  cases p <;> decide

def ofKeyword? (t : Text) : Option Primitive := all.find? (·.keyword == t)

theorem ofKeyword?_eq_none_iff {t : Text} : ofKeyword? t = none ↔ t ∉ all.map keyword := by
  simp [ofKeyword?, List.find?_eq_none]

@[simp] theorem ofKeyword?_keyword (p : Primitive) : ofKeyword? p.keyword = some p := by
  cases p <;> decide

theorem ofKeyword?_eq_some_iff {t : Text} {p : Primitive} :
    ofKeyword? t = some p ↔ t = p.keyword := by
  constructor
  · intro h
    have hkey := List.find?_some h
    exact (beq_iff_eq.mp hkey).symm
  · rintro rfl
    exact ofKeyword?_keyword p

theorem keyword_injective : Function.Injective keyword := by
  intro p q h
  have hp := ofKeyword?_keyword p
  rw [h, ofKeyword?_keyword] at hp
  exact (Option.some.inj hp).symm

def isNumeric : Primitive → Bool
  | integer | long | float | double => true
  | bool | string => false

end Primitive

inductive FieldType where
  | primitive (kind : Primitive) (nullable : Bool)
  | list (element : FieldType) (nullable : Bool)
  | map (key value : FieldType) (nullable : Bool)
  | custom (name : TypeName) (parameters : List FieldType) (nullable : Bool)

namespace FieldType

mutual
def decEq : (a b : FieldType) → Decidable (a = b)
  | primitive p n, primitive q m => decidable_of_iff (p = q ∧ n = m) (by simp)
  | list a n, list b m =>
    have := decEq a b
    decidable_of_iff (a = b ∧ n = m) (by simp)
  | map k v n, map l w m =>
    have := decEq k l
    have := decEq v w
    decidable_of_iff (k = l ∧ v = w ∧ n = m) (by simp)
  | custom a ps n, custom b qs m =>
    have := decEqAll ps qs
    decidable_of_iff (a = b ∧ ps = qs ∧ n = m) (by simp)
  | primitive .., list .. | primitive .., map .. | primitive .., custom ..
  | list .., primitive .. | list .., map .. | list .., custom ..
  | map .., primitive .. | map .., list .. | map .., custom ..
  | custom .., primitive .. | custom .., list .. | custom .., map .. => isFalse (by simp)

def decEqAll : (as bs : List FieldType) → Decidable (as = bs)
  | [], [] => isTrue rfl
  | a :: as, b :: bs =>
    have := decEq a b
    have := decEqAll as bs
    decidable_of_iff (a = b ∧ as = bs) (by simp)
  | [], _ :: _ | _ :: _, [] => isFalse (by simp)
end

instance : DecidableEq FieldType := decEq

def nullable : FieldType → Bool
  | primitive _ n | list _ n | map _ _ n | custom _ _ n => n

/-- The same type with its outermost nullable flag set as given. -/
def withNullable (n : Bool) : FieldType → FieldType
  | primitive p _ => primitive p n
  | list element _ => list element n
  | map key value _ => map key value n
  | custom name parameters _ => custom name parameters n

@[simp] theorem withNullable_withNullable (t : FieldType) (m n : Bool) :
    (t.withNullable m).withNullable n = t.withNullable n := by
  cases t <;> rfl

@[simp] theorem nullable_withNullable (n : Bool) (t : FieldType) :
    (t.withNullable n).nullable = n := by
  cases t <;> rfl

@[simp] theorem withNullable_nullable (t : FieldType) : t.withNullable t.nullable = t := by
  cases t <;> rfl

/-- A flag that is put on a type without one can be taken off again. -/
theorem withNullable_eq_iff {t t₀ : FieldType} {n : Bool} (h : t₀.nullable = false) :
    t₀.withNullable n = t ↔ n = t.nullable ∧ t₀ = t.withNullable false := by
  constructor
  · rintro rfl
    rw [nullable_withNullable, withNullable_withNullable, ← h, withNullable_nullable]
    exact ⟨rfl, rfl⟩
  · rintro ⟨rfl, rfl⟩
    rw [withNullable_withNullable, withNullable_nullable]

/-- The direct parts of a type, in the order they are written. -/
def children : FieldType → List FieldType
  | primitive .. => []
  | list element _ => [element]
  | map key value _ => [key, value]
  | custom _ parameters _ => parameters

def isNumeric : FieldType → Bool
  | primitive p _ => p.isNumeric
  | _ => false

def keyword? : FieldType → Option Text
  | primitive p _ => some p.keyword
  | _ => none

/-- The mark of a nullable type. -/
def mark (nullable : Bool) : Text := if nullable then "?" else ""

theorem isBlank_of_mem_mark {n : Bool} {c : Char} (hc : c ∈ mark n) : Text.isBlank c = false := by
  cases n with
  | false => simp [mark] at hc
  | true =>
    obtain rfl : c = '?' := by simpa [mark] using hc
    decide

mutual
/-- The notation of schema files. -/
def render : FieldType → Text
  | primitive p n => p.keyword ++ mark n
  | list element n => render element ++ "[]" ++ mark n
  | map key value n => "map[" ++ render key ++ "]" ++ render value ++ mark n
  | custom name [] n => name.text ++ mark n
  | custom name (p :: ps) n =>
    name.text ++ "[" ++ render p ++ renderMore ps ++ "]" ++ mark n

/-- Further type parameters, each after a comma. -/
def renderMore : List FieldType → Text
  | [] => []
  | p :: ps => "," ++ render p ++ renderMore ps
end

@[simp] theorem render_primitive (n : Bool) (kind : Primitive) :
    (primitive kind n).render = kind.keyword ++ mark n := rfl

@[simp] theorem render_list (n : Bool) (element : FieldType) :
    (list element n).render = element.render ++ "[]" ++ mark n := rfl

@[simp] theorem render_map (n : Bool) (key value : FieldType) :
    (map key value n).render = "map[" ++ key.render ++ "]" ++ value.render ++ mark n := rfl

@[simp] theorem render_custom_nil (n : Bool) (name : TypeName) :
    (custom name [] n).render = name.text ++ mark n := rfl

theorem render_custom_cons (n : Bool) (p : FieldType) (ps : List FieldType) (name : TypeName) :
    (custom name (p :: ps) n).render =
      name.text ++ "[" ++ p.render ++ renderMore ps ++ "]" ++ mark n := rfl

theorem render_ne_nil (t : FieldType) : t.render ≠ [] := by
  cases t with
  | primitive kind n => simp [Primitive.keyword_ne_nil]
  | list element n => simp
  | map key value n => simp
  | custom name ps n =>
    intro h
    cases ps <;> simp [render_custom_cons, name.text_ne_nil] at h

theorem renderMore_cons (p : FieldType) (ps : List FieldType) :
    renderMore (p :: ps) = "," ++ p.render ++ renderMore ps := rfl

theorem renderMore_eq (p : FieldType) (ps : List FieldType) :
    render p ++ renderMore ps = Text.joined "," ((p :: ps).map render) := by
  induction ps generalizing p with
  | nil => simp [show renderMore [] = [] from rfl]
  | cons q qs ih =>
    rw [renderMore_cons, List.map_cons, Text.joined_cons (by simp), ← ih]
    simp

theorem render_custom {ps : List FieldType} (h : ps ≠ []) (name : TypeName) (n : Bool) :
    (custom name ps n).render =
      name.text ++ ('[' :: Text.joined "," (ps.map render) ++ [']']) ++ mark n := by
  cases ps with
  | nil => exact absurd rfl h
  | cons p ps =>
    rw [render_custom_cons, ← renderMore_eq]
    simp

/-- The mark of the outermost node stands at the end. -/
theorem render_withNullable (t : FieldType) (n : Bool) :
    (t.withNullable n).render = (t.withNullable false).render ++ mark n := by
  cases t with
  | custom name ps m => cases ps <;> simp [withNullable, render_custom_cons, mark]
  | _ => simp [withNullable, mark]

mutual
/-- Number of nested lists, maps and parameter lists; a leaf has height zero. -/
def height : FieldType → Nat
  | primitive .. => 0
  | list element _ => height element + 1
  | map key value _ => max (height key) (height value) + 1
  | custom _ [] _ => 0
  | custom _ (p :: ps) _ => max (height p) (heightAll ps) + 1

/-- Largest height of a list of types. -/
def heightAll : List FieldType → Nat
  | [] => 0
  | p :: ps => max (height p) (heightAll ps)
end

theorem heightAll_cons (p : FieldType) (ps : List FieldType) :
    heightAll (p :: ps) = max p.height (heightAll ps) := rfl

@[simp] theorem height_list (n : Bool) (element : FieldType) :
    (list element n).height = element.height + 1 := rfl

@[simp] theorem height_map (n : Bool) (key value : FieldType) :
    (map key value n).height = max key.height value.height + 1 := rfl

@[simp] theorem height_custom_nil (n : Bool) (name : TypeName) :
    (custom name [] n).height = 0 := rfl

@[simp] theorem height_custom_cons (n : Bool) (name : TypeName) (p : FieldType)
    (ps : List FieldType) :
    (custom name (p :: ps) n).height = max p.height (heightAll ps) + 1 := rfl

@[simp] theorem height_withNullable (t : FieldType) (n : Bool) :
    (t.withNullable n).height = t.height := by
  cases t with
  | custom name ps m => cases ps <;> rfl
  | _ => rfl

end FieldType

end ClassSchema
