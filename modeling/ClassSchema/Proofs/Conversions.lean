import ClassSchema.Proofs.SkippedFields

/-!
# Writing an object and reading it back

The writing method of a target stores the fields of an instance in an object, and the
reading method takes them out again. If every field has a key of its own, what is read is
what was written, with two exceptions: the guard of a nullable tag leaves out every value
that is not truthy, and then a nullable type reads null and a custom type reads an empty
object. So behind a nullable tag a zero, a false or an empty string comes back only if the
type is a primitive that is not nullable.
-/

namespace ClassSchema

def FieldType.isCustom : FieldType → Bool
  | .custom .. => true
  | _ => false

namespace TypeScript

/-- The values of generated code, over some kind of numbers. -/
inductive Value (ν : Type) where
  | null
  | number (n : ν)
  | boolean (b : Bool)
  | string (s : Text)
  | list (items : List (Value ν))
  | map (entries : List (Value ν × Value ν))
  | object (properties : List (Text × Value ν))

variable {ν : Type}

/-- The values of a type. Null belongs to every nullable type, and nothing is known about
the other values of a custom type: one that is called `number` has numbers. -/
inductive HasType : Value ν → FieldType → Prop
  | null {t : FieldType} (h : t.nullable = true) : HasType .null t
  | number {p : Primitive} (h : p.isNumeric = true) (n : ν) (nullable : Bool) :
      HasType (.number n) (.primitive p nullable)
  | boolean (b nullable : Bool) : HasType (.boolean b) (.primitive .bool nullable)
  | string (s : Text) (nullable : Bool) : HasType (.string s) (.primitive .string nullable)
  | list {items : List (Value ν)} {element : FieldType} (h : ∀ v ∈ items, HasType v element)
      (nullable : Bool) : HasType (.list items) (.list element nullable)
  | map {entries : List (Value ν × Value ν)} {key value : FieldType}
      (hkeys : ∀ e ∈ entries, HasType e.1 key) (hvalues : ∀ e ∈ entries, HasType e.2 value)
      (nullable : Bool) : HasType (.map entries) (.map key value nullable)
  | custom {v : Value ν} (h : v ≠ .null) (name : TypeName) (parameters : List FieldType)
      (nullable : Bool) : HasType v (.custom name parameters nullable)

theorem HasType.nullable_of_null {t : FieldType} (h : HasType (.null : Value ν) t) :
    t.nullable = true := by
  cases h with
  | null h => exact h
  | custom h name parameters nullable => exact absurd rfl h

/-- The values of an object under its keys. A key that the object does not have is
undefined. -/
abbrev Data (ν : Type) := Text → Option (Value ν)

/-- The value, or the fallback for null and for what is undefined. -/
def Value.orElse (fallback : Value ν) : Option (Value ν) → Value ν
  | none | some .null => fallback
  | some v => v

variable [Zero ν]

def Default.value : Default → Value ν
  | null => .null
  | zero => .number 0
  | falseValue => .boolean false
  | emptyString => .string []
  | emptyList => .list []
  | emptyMap _ _ => .map []
  | emptyObject _ => .object []

def Argument.eval (data : Data ν) : Argument → Option (Value ν)
  | read key none => data key
  | read key (some fallback) => some (Value.orElse fallback.value (data key))
  | constant value => some value.value

def passed (m : Model) (target : TagTarget) (data : Data ν) : List (Option (Value ν)) :=
  (arguments m target).map (Argument.eval data)

variable {t : FieldType} {v : Value ν} {f : Field} {tag : Tag} {target : TagTarget} {data : Data ν}

theorem eval_argument_of_some (htag : activeTag? target f = some tag) (hv : HasType v f.type)
    (hdata : data tag.key = some v) : (Argument.ofField target f).eval data = some v := by
  rw [argument_eq_read htag]
  by_cases hnull : v = .null
  · subst hnull
    rw [hv.nullable_of_null, if_pos rfl, Argument.eval, hdata]
    rfl
  · have horElse (fallback : Value ν) : Value.orElse fallback (some v) = v := by
      cases v with
      | null => exact absurd rfl hnull
      | _ => rfl
    split_ifs
    · rw [Argument.eval, hdata, horElse]
    · rw [Argument.eval, hdata, horElse]
    · rw [Argument.eval, hdata]

theorem eval_argument_of_none (htag : activeTag? target f = some tag)
    (hnullable : tag.nullable = true) (hdata : data tag.key = none) :
    (Argument.ofField target f).eval data = some (Default.ofType f.type).value := by
  rw [argument_eq_read htag, if_pos hnullable]
  cases htype : f.type.nullable with
  | true =>
    have hdefault : Default.ofType f.type = .null := if_pos htype
    rw [if_pos rfl, Argument.eval, hdata, hdefault]
    rfl
  | false =>
    rw [if_neg Bool.false_ne_true, Argument.eval, hdata]
    rfl

variable [DecidableEq ν]

/-- Null, zero, false and the empty string are not truthy. -/
def Value.isTruthy : Value ν → Bool
  | null => false
  | number n => n ≠ 0
  | boolean b => b
  | string s => !s.isEmpty
  | list _ | map _ | object _ => true

/-- The object after a statement of the writing method, for an instance with the given
values. -/
def Assignment.run (this : FieldName → Value ν) (out : Data ν) (a : Assignment) : Data ν :=
  if a.guarded = true ∧ (this a.field).isTruthy = false then out
  else Function.update out a.key (some (this a.field))

def written (m : Model) (target : TagTarget) (this : FieldName → Value ν) : Data ν :=
  (assignments m target).foldl (Assignment.run this) fun _ => none

/-- What a statement of the writing method leaves under its key. -/
def Value.stored? (guarded : Bool) (v : Value ν) : Option (Value ν) :=
  if guarded = true ∧ v.isTruthy = false then none else some v

variable {this : FieldName → Value ν} {out : Data ν} {a : Assignment} {as : List Assignment}

theorem Assignment.run_of_ne {key : Text} (h : key ≠ a.key) : a.run this out key = out key := by
  unfold run
  split_ifs
  · rfl
  · exact Function.update_of_ne h _ _

theorem Assignment.run_key (h : out a.key = none) :
    a.run this out a.key = (this a.field).stored? a.guarded := by
  unfold run Value.stored?
  split_ifs
  · exact h
  · exact Function.update_self _ _ _

theorem foldl_run_of_not_mem {key : Text} (h : key ∉ as.map Assignment.key) :
    as.foldl (Assignment.run this) out key = out key := by
  induction as generalizing out with
  | nil => rfl
  | cons a as ih =>
    rw [List.map_cons, List.mem_cons, not_or] at h
    rw [List.foldl_cons, ih h.2, Assignment.run_of_ne h.1]

theorem foldl_run_of_mem (hkeys : (as.map Assignment.key).Nodup) (ha : a ∈ as)
    (hout : out a.key = none) :
    as.foldl (Assignment.run this) out a.key = (this a.field).stored? a.guarded := by
  induction as generalizing out with
  | nil => cases ha
  | cons b as ih =>
    obtain ⟨hb, hkeys⟩ := List.nodup_cons.mp hkeys
    rw [List.foldl_cons]
    rcases List.mem_cons.mp ha with rfl | ha
    · rw [foldl_run_of_not_mem hb, Assignment.run_key hout]
    · have hne : a.key ≠ b.key := by
        intro heq
        exact hb (heq ▸ List.mem_map_of_mem ha)
      exact ih hkeys ha (by rw [Assignment.run_of_ne hne, hout])

/-- A value that is not truthy is the empty value of its type, unless the type is nullable or
custom. -/
theorem HasType.eq_default_of_not_truthy (h : HasType v t) (hnullable : t.nullable = false)
    (hcustom : t.isCustom = false) (hfalsy : v.isTruthy = false) :
    (Default.ofType t).value = v := by
  cases h with
  | null h =>
    rw [h] at hnullable
    cases hnullable
  | @number p hp n nullable =>
    obtain rfl : nullable = false := hnullable
    obtain rfl : n = 0 := by simpa [Value.isTruthy] using hfalsy
    cases p with
    | bool => cases hp
    | string => cases hp
    | _ => rfl
  | boolean b nullable =>
    obtain rfl : nullable = false := hnullable
    obtain rfl : b = false := hfalsy
    rfl
  | string s nullable =>
    obtain rfl : nullable = false := hnullable
    obtain rfl : s = [] := by simpa [Value.isTruthy] using hfalsy
    rfl
  | list h nullable => cases hfalsy
  | map hkeys hvalues nullable => cases hfalsy
  | custom h name parameters nullable => cases hcustom

theorem isTruthy_default_of_isCustom (hnullable : t.nullable = false)
    (hcustom : t.isCustom = true) :
    ((Default.ofType t).value : Value ν).isTruthy = true := by
  cases t with
  | custom name parameters nullable =>
    obtain rfl : nullable = false := hnullable
    rfl
  | _ => cases hcustom

/-- The empty value of a type takes the place of a value that is not truthy. It is that value
exactly if the value is null or the type has a zero of its own. -/
theorem HasType.default_eq_iff (h : HasType v t) (hfalsy : v.isTruthy = false) :
    (Default.ofType t).value = v ↔ (t.nullable = true ∨ t.isCustom = true → v = .null) := by
  cases hnullable : t.nullable with
  | true =>
    have hdefault : Default.ofType t = .null := if_pos hnullable
    rw [hdefault]
    exact ⟨fun heq _ => heq.symm, fun himp => (himp (.inl rfl)).symm⟩
  | false =>
    cases hcustom : t.isCustom with
    | false => simp [h.eq_default_of_not_truthy hnullable hcustom hfalsy]
    | true =>
      have hne : (Default.ofType t).value ≠ v := by
        rintro rfl
        rw [isTruthy_default_of_isCustom hnullable hcustom] at hfalsy
        cases hfalsy
      have hnull : v ≠ .null := by
        rintro rfl
        exact Bool.false_ne_true (hnullable.symm.trans h.nullable_of_null)
      simp [hne, hnull]

/-- A field is read back as what was written, except that a guard replaces what is not truthy
by null in a nullable type and by an empty object in a custom one. -/
theorem eval_argument_eq_iff (htag : activeTag? target f = some tag) (hv : HasType v f.type)
    (hdata : data tag.key = v.stored? tag.nullable) :
    (Argument.ofField target f).eval data = some v ↔
      (tag.nullable = true → f.type.nullable = true ∨ f.type.isCustom = true →
        v = .null ∨ v.isTruthy = true) := by
  by_cases hguard : tag.nullable = true ∧ v.isTruthy = false
  · obtain ⟨hnullable, hfalsy⟩ := hguard
    rw [Value.stored?, if_pos ⟨hnullable, hfalsy⟩] at hdata
    rw [eval_argument_of_none htag hnullable hdata, Option.some.injEq, hv.default_eq_iff hfalsy]
    simp [hnullable, hfalsy]
  · rw [Value.stored?, if_neg hguard] at hdata
    refine iff_of_true (eval_argument_of_some htag hv hdata) fun hnullable _ => Or.inr ?_
    simpa [hnullable] using hguard

theorem assignments_eq_map {m : Model} {tag : Field → Tag}
    (h : ∀ f ∈ m.fields, activeTag? target f = some (tag f)) :
    assignments m target = m.fields.map fun f => ⟨(tag f).key, f.name, (tag f).nullable⟩ := by
  unfold assignments
  rw [← List.filterMap_eq_map]
  refine List.filterMap_congr fun f hf => ?_
  rw [Assignment.ofField?, h f hf]
  rfl

theorem activeTag?_eq_some_iff (hnodup : (f.tags.map Tag.target).Nodup) :
    activeTag? target f = some tag ↔
      tag ∈ f.tags ∧ tag.target = target ∧ tag.isSkipped = false := by
  rw [activeTag?, Option.filter_eq_some_iff, Field.tagFor?_eq_some_iff hnodup, and_assoc,
    Bool.not_eq_true']

/-- Where every field has a tag for the target with a key of its own, the reading method
gets back the values that the writing method was given, exactly if behind no nullable tag a
field of a nullable or custom type is zero, false or the empty string. -/
theorem passed_written_eq_iff {strict : Bool} {source : Text} {m : Model} {tag : Field → Tag}
    (h : Model.read strict source = .ok m)
    (htags : ∀ f ∈ m.fields,
      tag f ∈ f.tags ∧ (tag f).target = target ∧ (tag f).isSkipped = false)
    (hkeys : (m.fields.map fun f => (tag f).key).Nodup)
    (htypes : ∀ f ∈ m.fields, HasType (this f.name) f.type) :
    passed m target (written m target this) = m.fields.map (fun f => some (this f.name)) ↔
      ∀ f ∈ m.fields, (tag f).nullable = true → f.type.nullable = true ∨ f.type.isCustom = true →
        this f.name = .null ∨ (this f.name).isTruthy = true := by
  have hmodel := Model.wellFormed_of_read h
  have hactive : ∀ f ∈ m.fields, activeTag? target f = some (tag f) := by
    intro f hf
    exact (activeTag?_eq_some_iff (hmodel.fields f hf).targets_nodup).mpr (htags f hf)
  have hstatements := assignments_eq_map hactive
  have hnodup : ((assignments m target).map Assignment.key).Nodup := by
    rw [hstatements, List.map_map]
    exact hkeys
  have hdata : ∀ f ∈ m.fields,
      written m target this (tag f).key = (this f.name).stored? (tag f).nullable := by
    intro f hf
    have hmem : (⟨(tag f).key, f.name, (tag f).nullable⟩ : Assignment) ∈ assignments m target := by
      rw [hstatements]
      exact List.mem_map_of_mem hf
    exact foldl_run_of_mem hnodup hmem rfl
  rw [passed, arguments, List.map_map, List.map_inj_left]
  refine forall₂_congr fun f hf => ?_
  exact eval_argument_eq_iff (hactive f hf) (htypes f hf) (hdata f hf)

/-- Types that are nullable, custom or neither, behind tags that are nullable or not, with
values that are not truthy wherever that is harmless. -/
theorem passed_written_eq_mixed :
    let source : Text :=
      "User:\n  id int json:\"i\"\n  age int? json?:\"a\"\n  name string json?:\"n\"\n" ++
        "  ok bool? json:\"o\"\n  size number json:\"s\"\n  rank number json?:\"r\"\n"
    let target : TagTarget := ⟨"json", rfl⟩
    let this (name : FieldName) : Value ℤ :=
      if name.text = ("id" : Text) then .number 0
      else if name.text = ("age" : Text) then .number 7
      else if name.text = ("name" : Text) then .string []
      else if name.text = ("ok" : Text) then .boolean false
      else if name.text = ("size" : Text) then .number 0
      else .number 5
    ∃ m, Model.read false source = .ok m ∧
      passed m target (written m target this) =
        [some (.number 0), some (.number 7), some (.string []), some (.boolean false),
          some (.number 0), some (.number 5)] := by
  intro source target this
  let number : FieldType := .custom ⟨"number", rfl⟩ [] false
  let id : Field := ⟨⟨"id", rfl⟩, .primitive .integer false, [⟨target, false, ["i"]⟩]⟩
  let age : Field := ⟨⟨"age", rfl⟩, .primitive .integer true, [⟨target, true, ["a"]⟩]⟩
  let name : Field := ⟨⟨"name", rfl⟩, .primitive .string false, [⟨target, true, ["n"]⟩]⟩
  let ok : Field := ⟨⟨"ok", rfl⟩, .primitive .bool true, [⟨target, false, ["o"]⟩]⟩
  let size : Field := ⟨⟨"size", rfl⟩, number, [⟨target, false, ["s"]⟩]⟩
  let rank : Field := ⟨⟨"rank", rfl⟩, number, [⟨target, true, ["r"]⟩]⟩
  let m : Model := ⟨⟨"User", rfl⟩, [id, age, name, ok, size, rank]⟩
  let tag (f : Field) : Tag := f.tags.headD ⟨target, false, []⟩
  have hread : Model.read false source = .ok m := toOption_eq_some_iff.mp (by decide +kernel)
  have htags : ∀ f ∈ m.fields,
      tag f ∈ f.tags ∧ (tag f).target = target ∧ (tag f).isSkipped = false := by
    decide +kernel
  have hkeys : (m.fields.map fun f => (tag f).key).Nodup := by decide +kernel
  have hnumber (n : ℤ) : Value.number n ≠ .null := nofun
  have htypes : ∀ f ∈ m.fields, HasType (this f.name) f.type := by
    simp only [m, List.forall_mem_cons, List.not_mem_nil, false_implies, implies_true, and_true]
    exact ⟨.number rfl 0 false, .number rfl 7 true, .string [] false, .boolean false true,
      .custom (hnumber 0) _ _ _, .custom (hnumber 5) _ _ _⟩
  have htruthy : ∀ f ∈ m.fields, (tag f).nullable = true →
      f.type.nullable = true ∨ f.type.isCustom = true → (this f.name).isTruthy = true := by
    decide +kernel
  refine ⟨m, hread, (passed_written_eq_iff hread htags hkeys htypes).mpr ?_⟩
  exact fun f hf hnullable htype => .inr (htruthy f hf hnullable htype)

/-- Two zeros behind nullable tags: null is read back for the nullable type and an empty object
for the custom one. -/
theorem passed_written_zero_eq_default :
    let source : Text := "User:\n  age int? json?:\"a\"\n  rank number json?:\"r\"\n"
    let target : TagTarget := ⟨"json", rfl⟩
    let this (_ : FieldName) : Value ℤ := .number 0
    ∃ m, ∃ tag : Field → Tag, Model.read false source = .ok m ∧
      (∀ f ∈ m.fields, tag f ∈ f.tags ∧ (tag f).target = target ∧ (tag f).isSkipped = false) ∧
      (m.fields.map fun f => (tag f).key).Nodup ∧
      (∀ f ∈ m.fields, HasType (this f.name) f.type) ∧
      passed m target (written m target this) = [some .null, some (.object [])] ∧
      passed m target (written m target this) ≠ m.fields.map (fun f => some (this f.name)) := by
  intro source target this
  let age : Field := ⟨⟨"age", rfl⟩, .primitive .integer true, [⟨target, true, ["a"]⟩]⟩
  let rank : Field := ⟨⟨"rank", rfl⟩, .custom ⟨"number", rfl⟩ [] false, [⟨target, true, ["r"]⟩]⟩
  let m : Model := ⟨⟨"User", rfl⟩, [age, rank]⟩
  let tag (f : Field) : Tag := f.tags.headD ⟨target, false, []⟩
  have hread : Model.read false source = .ok m := toOption_eq_some_iff.mp (by decide +kernel)
  have htags : ∀ f ∈ m.fields,
      tag f ∈ f.tags ∧ (tag f).target = target ∧ (tag f).isSkipped = false := by
    decide +kernel
  have hkeys : (m.fields.map fun f => (tag f).key).Nodup := by decide +kernel
  have hnumber (n : ℤ) : Value.number n ≠ .null := nofun
  have htypes : ∀ f ∈ m.fields, HasType (this f.name) f.type := by
    simp only [m, List.forall_mem_cons, List.not_mem_nil, false_implies, implies_true, and_true]
    exact ⟨.number rfl 0 true, .custom (hnumber 0) _ _ _⟩
  have hpassed : passed m target (written m target this) = [some .null, some (.object [])] := rfl
  refine ⟨m, tag, hread, htags, hkeys, htypes, hpassed, ?_⟩
  rw [hpassed]
  intro heq
  cases heq

end TypeScript

end ClassSchema
