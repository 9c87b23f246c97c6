import ClassSchema.Json.Form
import ClassSchema.Proofs.FieldLine

/-!
# The JSON forms of models

Many values stand for the same type, tag, field or model: a record may be an object,
with members that do not count, or an array, and parts that say nothing may be left
out. `TypeForm` and its like describe these values by the thing they stand for. A value
is read as a thing exactly if it is one of its forms, and what is written is one of
them, so that reading undoes writing.
-/

namespace ClassSchema.Json

open Value

variable {v kind data : Value} {members : Members} {t : FieldType} {n : Bool} {word : Text}

theorem mapM_eq_some_iff {α : Type} {decode : Value → Option α} {Form : α → Value → Prop}
    {as : List α} {items : List Value}
    (h : ∀ a ∈ as, ∀ v, decode v = some a ↔ Form a v) :
    items.mapM decode = some as ↔ List.Forall₂ Form as items := by
  induction items generalizing as with
  | nil => simp
  | cons v items ih =>
    rw [List.mapM_cons, List.forall₂_cons_right_iff]
    simp only [Option.bind_eq_bind, Option.bind_eq_some_iff, Option.pure_def, Option.some.injEq]
    constructor
    · rintro ⟨a, ha, as, has, rfl⟩
      have htail := ih fun b hb => h b (List.mem_cons_of_mem a hb)
      exact ⟨a, as, (h a List.mem_cons_self v).mp ha, htail.mp has, rfl⟩
    · rintro ⟨a, as, ha, has, rfl⟩
      have htail := ih fun b hb => h b (List.mem_cons_of_mem a hb)
      exact ⟨a, (h a List.mem_cons_self v).mpr ha, as, htail.mpr has, rfl⟩

/-- A value that stands for a type has a kind and perhaps a flag. -/
def IsNode (v kind : Value) (nullable : Bool) : Prop :=
  ∃ flag, parts? ["kind", "nullable"] v = some [some kind, flag] ∧ flag? flag = some nullable

/-- A kind is given by a word and perhaps data, which only an object may lack. -/
def HasWord (kind : Value) (word : Text) (data : Option Value) : Prop :=
  parts? ["type", "data"] kind = some [some (string word), data] ∧
    (data = none → ∃ members, kind = object members)

def IsNodeOf (wanted : Text → Option Value → Prop) (nullable : Bool) (v : Value) : Prop :=
  ∃ kind word data, IsNode v kind nullable ∧ HasWord kind word data ∧ wanted word data

mutual
/-- The words and data that stand for a type, apart from its flag. -/
def DataForm : FieldType → Text → Option Value → Prop
  | .primitive p _, word, data => word = primitiveWord p ∧ ∀ d ∈ data, d = null
  | .list element _, word, data =>
    word = "List" ∧ ∃ d, data = some d ∧ IsNodeOf (DataForm element) element.nullable d
  | .map key value _, word, data =>
    word = "Map" ∧ ∃ members k w, data = some (object members) ∧
      Members.get? members "key" = some k ∧ IsNodeOf (DataForm key) key.nullable k ∧
      Members.get? members "value" = some w ∧ IsNodeOf (DataForm value) value.nullable w
  | .custom name parameters _, word, data =>
    word = "Custom" ∧ ∃ members text items, data = some (object members) ∧
      Members.get? members "name" = some (string text) ∧ TypeName.ofText text = .ok name ∧
      list? (Members.get? members "generics") = some items ∧ ParameterForms parameters items

/-- The lists of values that stand for some types. -/
def ParameterForms : List FieldType → List Value → Prop
  | [], items => items = []
  | p :: ps, items =>
    ∃ v vs, items = v :: vs ∧ IsNodeOf (DataForm p) p.nullable v ∧ ParameterForms ps vs
end

def TypeForm (t : FieldType) (v : Value) : Prop := IsNodeOf (DataForm t) t.nullable v

theorem parameterForms_iff {ps : List FieldType} {items : List Value} :
    ParameterForms ps items ↔ List.Forall₂ TypeForm ps items := by
  induction ps generalizing items with
  | nil => rw [List.forall₂_nil_left_iff, ParameterForms]
  | cons p ps ih =>
    rw [List.forall₂_cons_left_iff, ParameterForms]
    constructor
    · rintro ⟨v, vs, rfl, hv, hvs⟩
      exact ⟨v, vs, hv, ih.mp hvs, rfl⟩
    · rintro ⟨v, vs, hv, hvs, rfl⟩
      exact ⟨v, vs, rfl, hv, ih.mpr hvs⟩

def TagForm (tag : Tag) (v : Value) : Prop :=
  ∃ target flag, parts? ["target", "nullable", "values"] v =
      some [some (string target), flag, some (array (tag.values.map string))] ∧
    TagTarget.ofText target = .ok tag.target ∧ flag? flag = some tag.nullable

/-- The values that stand for a field. -/
def FieldForm (field : Field) (v : Value) : Prop :=
  ∃ name type tags items, parts? ["name", "type", "tags"] v =
      some [some (string name), some type, tags] ∧
    FieldName.ofText name = .ok field.name ∧ TypeForm field.type type ∧
    list? tags = some items ∧ List.Forall₂ TagForm field.tags items

def ModelForm (m : Model) (v : Value) : Prop :=
  ∃ name items, parts? ["name", "fields"] v = some [some (string name), some (array items)] ∧
    ClassName.ofText name = .ok m.name ∧ List.Forall₂ FieldForm m.fields items

theorem decodeKindAt_eq (members : Members) :
    decodeKindAt members = (Members.get? members "kind").bind decodeKind := by
  induction members with
  | nil => rfl
  | cons member members ih =>
    obtain ⟨key, v⟩ := member
    rw [Members.get?_cons, decodeKindAt, ih]
    split_ifs <;> rfl

theorem decodeTypeAt_eq (wanted : Text) (members : Members) :
    decodeTypeAt wanted members = (Members.get? members wanted).bind decodeType := by
  induction members with
  | nil => rfl
  | cons member members ih =>
    obtain ⟨key, v⟩ := member
    rw [Members.get?_cons, decodeTypeAt, ih]
    split_ifs <;> rfl

theorem decodeParametersAt_eq (members : Members) :
    decodeParametersAt members =
      (list? (Members.get? members "generics")).bind (·.mapM decodeType) := by
  induction members with
  | nil => rfl
  | cons member members ih =>
    obtain ⟨key, v⟩ := member
    rw [Members.get?_cons, decodeParametersAt, ih]
    split_ifs
    · cases v with
      | array items => exact decodeTypes_eq items
      | _ => rfl
    · rfl

/-- What the word and the data of a kind are read as. -/
def decodeData (word : Text) : Option Value → Option FieldType
  | none => (primitiveOfWord? word).map (.primitive · false)
  | some data =>
    kindOf? word data (fun _ => decodeType data) (fun _ => decodeMap data)
      fun _ => decodeCustom data

theorem decodeDataAt_eq (word : Text) (members : Members) :
    decodeDataAt word members = decodeData word (Members.get? members "data") := by
  induction members with
  | nil => rfl
  | cons member members ih =>
    obtain ⟨key, v⟩ := member
    rw [Members.get?_cons, decodeDataAt, ih]
    split_ifs <;> rfl

theorem hasWord_object_iff {data : Option Value} :
    HasWord (object members) word data ↔
      Members.get? members "type" = some (string word) ∧ Members.get? members "data" = data := by
  simp [HasWord, parts?]

theorem hasWord_array_iff {items : List Value} {data : Option Value} :
    HasWord (array items) word data ↔ ∃ d, items = [string word, d] ∧ data = some d := by
  unfold HasWord parts?
  rcases items with _ | ⟨w, _ | ⟨d, _ | ⟨_, _⟩⟩⟩
  · simp [List.range_succ]
  · simp +contextual [List.range_succ, eq_comm]
  · simp +contextual [List.range_succ, eq_comm]
  · simp

/-- A kind is read from its word and its data. -/
theorem decodeKind_eq_some_iff :
    decodeKind kind = some t ↔
      ∃ word data, HasWord kind word data ∧ decodeData word data = some t := by
  cases kind with
  | object members =>
    simp only [decodeKind, Option.bind_eq_bind, Option.bind_eq_some_iff, asText?_eq_some_iff,
      decodeDataAt_eq, hasWord_object_iff]
    constructor
    · rintro ⟨word, ⟨w, hw, rfl⟩, ht⟩
      exact ⟨word, _, ⟨hw, rfl⟩, ht⟩
    · rintro ⟨word, data, ⟨hw, rfl⟩, ht⟩
      exact ⟨word, ⟨_, hw, rfl⟩, ht⟩
  | array items =>
    simp only [hasWord_array_iff]
    rcases items with _ | ⟨w, _ | ⟨d, _ | ⟨_, _⟩⟩⟩
    · simp [decodeKind]
    · simp [decodeKind]
    · simp only [decodeKind, Option.bind_eq_bind, Option.bind_eq_some_iff, asText?_eq_some_iff]
      constructor
      · rintro ⟨word, rfl, ht⟩
        exact ⟨word, some d, ⟨d, rfl, rfl⟩, ht⟩
      · rintro ⟨word, data, ⟨d, hitems, rfl⟩, ht⟩
        cases hitems
        exact ⟨word, rfl, ht⟩
    · simp [decodeKind]
  | _ => simp [decodeKind, HasWord, parts?]

theorem isNode_object_iff :
    IsNode (object members) kind n ↔
      Members.get? members "kind" = some kind ∧
        flag? (Members.get? members "nullable") = some n := by
  simp [IsNode, parts?]

theorem isNode_array_iff {items : List Value} :
    IsNode (array items) kind n ↔
      (items = [kind] ∧ n = false) ∨ ∃ flag, items = [kind, flag] ∧ asBool? flag = some n := by
  unfold IsNode parts?
  rcases items with _ | ⟨k, _ | ⟨flag, _ | ⟨_, _⟩⟩⟩
  · simp [List.range_succ]
  · simp [List.range_succ, flag?, eq_comm]
  · simp [List.range_succ, flag?]
  · simp

theorem decodeMap_eq_some_iff :
    decodeMap data = some t ↔ ∃ members k w key value, data = object members ∧
      (Members.get? members "key" = some k ∧ decodeType k = some key ∧
      Members.get? members "value" = some w ∧ decodeType w = some value) ∧
      t = .map key value false := by
  cases data with
  | object members =>
    simp only [decodeMap, decodeTypeAt_eq, Option.bind_eq_bind, Option.bind_eq_some_iff,
      Option.pure_def, Option.some.injEq, object.injEq]
    constructor
    · rintro ⟨key, ⟨k, hk, hkey⟩, value, ⟨w, hw, hvalue⟩, rfl⟩
      exact ⟨members, k, w, key, value, rfl, ⟨hk, hkey, hw, hvalue⟩, rfl⟩
    · rintro ⟨_, k, w, key, value, rfl, ⟨hk, hkey, hw, hvalue⟩, rfl⟩
      exact ⟨key, ⟨k, hk, hkey⟩, value, ⟨w, hw, hvalue⟩, rfl⟩
  | _ => simp [decodeMap]

theorem decodeCustom_eq_some_iff :
    decodeCustom data = some t ↔ ∃ members word name items parameters, data = object members ∧
      (Members.get? members "name" = some (string word) ∧ TypeName.ofText word = .ok name ∧
      list? (Members.get? members "generics") = some items ∧
      items.mapM decodeType = some parameters) ∧ t = .custom name parameters false := by
  cases data with
  | object members =>
    simp only [decodeCustom, decodeParametersAt_eq, Option.bind_eq_bind, Option.bind_eq_some_iff,
      Option.pure_def, Option.some.injEq, object.injEq, asText?_eq_some_iff, toOption_eq_some_iff]
    constructor
    · rintro ⟨word, ⟨_, hword, rfl⟩, name, hname, parameters, ⟨items, hitems, hps⟩, rfl⟩
      exact ⟨members, word, name, items, parameters, rfl, ⟨hword, hname, hitems, hps⟩, rfl⟩
    · rintro ⟨_, word, name, items, parameters, rfl, ⟨hword, hname, hitems, hps⟩, rfl⟩
      exact ⟨word, ⟨_, hword, rfl⟩, name, hname, parameters, ⟨items, hitems, hps⟩, rfl⟩
  | _ => simp [decodeCustom]

/-- A kind is that of a primitive without data, or its word says how its data is read. -/
theorem decodeData_eq_some_iff {data : Option Value} :
    decodeData word data = some t ↔
      (∃ p, t = .primitive p false ∧ word = primitiveWord p ∧ ∀ d ∈ data, d = null) ∨
      (∃ element, t = .list element false ∧ word = "List" ∧
        ∃ d, data = some d ∧ decodeType d = some element) ∨
      (∃ key value, t = .map key value false ∧ word = "Map" ∧
        ∃ members k w, data = some (object members) ∧
          Members.get? members "key" = some k ∧ decodeType k = some key ∧
          Members.get? members "value" = some w ∧ decodeType w = some value) ∨
      ∃ name parameters, t = .custom name parameters false ∧ word = "Custom" ∧
        ∃ members text items, data = some (object members) ∧
          Members.get? members "name" = some (string text) ∧ TypeName.ofText text = .ok name ∧
          list? (Members.get? members "generics") = some items ∧
          items.mapM decodeType = some parameters := by
  constructor
  · intro h
    cases data with
    | none =>
      obtain ⟨p, hp, rfl⟩ := Option.map_eq_some_iff.mp h
      exact .inl ⟨p, rfl, primitiveOfWord?_eq_some_iff.mp hp, by simp⟩
    | some d =>
      simp only [decodeData, kindOf?] at h
      split_ifs at h with hlist hmap hcustom hnull
      · obtain ⟨element, helement, rfl⟩ := Option.map_eq_some_iff.mp h
        exact .inr (.inl ⟨element, rfl, hlist, d, rfl, helement⟩)
      · obtain ⟨members, k, w, key, value, rfl, hparts, rfl⟩ := decodeMap_eq_some_iff.mp h
        exact .inr (.inr (.inl ⟨key, value, rfl, hmap, members, k, w, rfl, hparts⟩))
      · obtain ⟨members, text, name, items, parameters, rfl, hparts, rfl⟩ :=
          decodeCustom_eq_some_iff.mp h
        exact .inr (.inr (.inr ⟨name, parameters, rfl, hcustom, members, text, items, rfl, hparts⟩))
      · obtain ⟨p, hp, rfl⟩ := Option.map_eq_some_iff.mp h
        refine .inl ⟨p, rfl, primitiveOfWord?_eq_some_iff.mp hp, ?_⟩
        simpa using isNull_iff.mp hnull
  · rintro (⟨p, rfl, rfl, hnull⟩ | ⟨element, rfl, rfl, d, rfl, helement⟩ |
      ⟨key, value, rfl, rfl, members, k, w, rfl, hparts⟩ |
      ⟨name, parameters, rfl, rfl, members, text, items, rfl, hparts⟩)
    · cases data with
      | none => simp [decodeData]
      | some d =>
        obtain rfl := hnull d rfl
        cases p <;> rfl
    · exact congrArg (Option.map (FieldType.list · false)) helement
    · exact decodeMap_eq_some_iff.mpr ⟨members, k, w, key, value, rfl, hparts, rfl⟩
    · exact decodeCustom_eq_some_iff.mpr
        ⟨members, text, name, items, parameters, rfl, hparts, rfl⟩

theorem nullable_of_decodeKind (h : decodeKind kind = some t) : t.nullable = false := by
  obtain ⟨word, data, -, h⟩ := decodeKind_eq_some_iff.mp h
  rcases decodeData_eq_some_iff.mp h with ⟨_, rfl, -⟩ | ⟨_, rfl, -⟩ | ⟨_, _, rfl, -⟩ |
    ⟨_, _, rfl, -⟩
  all_goals rfl

/-- A type is read from its kind and its flag. -/
theorem decodeType_eq_some_iff :
    decodeType v = some t ↔
      ∃ kind, IsNode v kind t.nullable ∧ decodeKind kind = some (t.withNullable false) := by
  have hflagged : ∀ {kind : Value} {flag : Option Bool},
      ((decodeKind kind).bind fun t₀ => flag.bind fun n => some (t₀.withNullable n)) = some t ↔
        flag = some t.nullable ∧ decodeKind kind = some (t.withNullable false) := by
    intro kind flag
    simp only [Option.bind_eq_some_iff, Option.some.injEq]
    constructor
    · rintro ⟨t₀, hkind, n, hflag, ht⟩
      obtain ⟨rfl, rfl⟩ := (FieldType.withNullable_eq_iff (nullable_of_decodeKind hkind)).mp ht
      exact ⟨hflag, hkind⟩
    · rintro ⟨hflag, hkind⟩
      refine ⟨_, hkind, _, hflag, ?_⟩
      rw [FieldType.withNullable_withNullable, FieldType.withNullable_nullable]
  cases v with
  | object members =>
    simp only [isNode_object_iff, decodeType, decodeKindAt_eq, Option.bind_eq_bind,
      Option.bind_assoc, Option.pure_def]
    rw [Option.bind_eq_some_iff]
    simp only [hflagged, and_assoc]
  | array items =>
    simp only [isNode_array_iff]
    rcases items with _ | ⟨k, _ | ⟨flag, _ | ⟨_, _⟩⟩⟩
    · simp [decodeType]
    · constructor
      · intro h
        have hplain := nullable_of_decodeKind h
        refine ⟨k, .inl ⟨rfl, hplain⟩, ?_⟩
        rwa [← hplain, FieldType.withNullable_nullable]
      · rintro ⟨kind, ⟨hitems, hplain⟩ | ⟨_, hitems, -⟩, h⟩
        · cases hitems
          rwa [← hplain, FieldType.withNullable_nullable] at h
        · cases hitems
    · simp only [decodeType, Option.bind_eq_bind, Option.pure_def, hflagged]
      simp
    · simp [decodeType]
  | _ => simp [decodeType, IsNode, parts?]

theorem decodeType_eq_some_iff_isNodeOf {wanted : Text → Option Value → Prop}
    (h : ∀ word data, decodeData word data = some (t.withNullable false) ↔ wanted word data) :
    decodeType v = some t ↔ IsNodeOf wanted t.nullable v := by
  simp only [decodeType_eq_some_iff, decodeKind_eq_some_iff, h, IsNodeOf, exists_and_left]

/-- A word and data are read as a kind exactly if they are one of its forms. -/
theorem decodeData_eq_some_iff_dataForm (word : Text) (data : Option Value) :
    decodeData word data = some (t.withNullable false) ↔ DataForm t word data := by
  induction t generalizing word data with
  | primitive p n =>
    rw [decodeData_eq_some_iff]
    simp [FieldType.withNullable, DataForm]
  | list element n ih =>
    rw [decodeData_eq_some_iff]
    simp [FieldType.withNullable, DataForm, decodeType_eq_some_iff_isNodeOf ih]
  | map key value n ihkey ihvalue =>
    rw [decodeData_eq_some_iff]
    simp [FieldType.withNullable, DataForm, decodeType_eq_some_iff_isNodeOf ihkey,
      decodeType_eq_some_iff_isNodeOf ihvalue]
  | custom name parameters n ih =>
    have hparameters (items : List Value) :
        items.mapM decodeType = some parameters ↔ ParameterForms parameters items := by
      rw [parameterForms_iff]
      exact mapM_eq_some_iff fun p hp v => decodeType_eq_some_iff_isNodeOf (ih p hp)
    rw [decodeData_eq_some_iff]
    simp [FieldType.withNullable, DataForm, hparameters]

theorem decodeType_eq_some_iff_typeForm : decodeType v = some t ↔ TypeForm t v :=
  decodeType_eq_some_iff_isNodeOf decodeData_eq_some_iff_dataForm

theorem mapM_asText?_eq_some_iff {items : List Value} {ts : List Text} :
    items.mapM asText? = some ts ↔ items = ts.map string := by
  have hitem : ∀ t ∈ ts, ∀ v, asText? v = some t ↔ string t = v := by
    intro t _ v
    rw [asText?_eq_some_iff, eq_comm]
  rw [mapM_eq_some_iff hitem, ← List.forall₂_map_left_iff, List.forall₂_eq_eq_eq, eq_comm]

theorem decodeTag_eq_some_iff {tag : Tag} : decodeTag v = some tag ↔ TagForm tag v := by
  unfold decodeTag TagForm
  rw [Option.bind_eq_bind, Option.bind_eq_some_iff]
  constructor
  · rintro ⟨parts, hparts, h⟩
    split at h
    · simp only [Option.bind_eq_bind, Option.bind_eq_some_iff, Option.pure_def,
        Option.some.injEq, asText?_eq_some_iff, asArray?_eq_some_iff, toOption_eq_some_iff,
        mapM_asText?_eq_some_iff] at h
      obtain ⟨text, ⟨_, rfl, rfl⟩, target, htarget, _, ⟨_, rfl, rfl⟩, n, hflag, ts, rfl, rfl⟩ := h
      exact ⟨text, _, hparts, htarget, hflag⟩
    · cases h
  · rintro ⟨text, flag, hparts, htarget, hflag⟩
    have hvalues : (tag.values.map string).mapM asText? = some tag.values :=
      mapM_asText?_eq_some_iff.mpr rfl
    refine ⟨_, hparts, ?_⟩
    simp [asText?, asArray?, htarget, hflag, hvalues, Except.toOption, -List.mapM_map]

theorem decodeField_eq_some_iff {field : Field} :
    decodeField v = some field ↔ FieldForm field v := by
  have htags {items : List Value} {tags : List Tag} :
      items.mapM decodeTag = some tags ↔ List.Forall₂ TagForm tags items :=
    mapM_eq_some_iff fun _ _ _ => decodeTag_eq_some_iff
  unfold decodeField FieldForm
  rw [Option.bind_eq_bind, Option.bind_eq_some_iff]
  constructor
  · rintro ⟨parts, hparts, h⟩
    split at h
    · simp only [Option.bind_eq_bind, Option.bind_eq_some_iff, Option.pure_def,
        Option.some.injEq, asText?_eq_some_iff, toOption_eq_some_iff, htags,
        decodeType_eq_some_iff_typeForm] at h
      obtain ⟨text, ⟨_, rfl, rfl⟩, name, hname, items, hitems, t, ⟨v, rfl, ht⟩, h⟩ := h
      obtain ⟨tags, hforms, rfl⟩ := h
      exact ⟨text, v, _, items, hparts, hname, ht, hitems, hforms⟩
    · cases h
  · rintro ⟨text, type, tags, items, hparts, hname, htype, hitems, hforms⟩
    refine ⟨_, hparts, ?_⟩
    simp [asText?, hname, hitems, Except.toOption, decodeType_eq_some_iff_typeForm.mpr htype,
      htags.mpr hforms]

theorem decodeModel_eq_some_iff {m : Model} : decodeModel v = some m ↔ ModelForm m v := by
  have hfields {items : List Value} {fields : List Field} :
      items.mapM decodeField = some fields ↔ List.Forall₂ FieldForm fields items :=
    mapM_eq_some_iff fun _ _ _ => decodeField_eq_some_iff
  unfold decodeModel ModelForm
  rw [Option.bind_eq_bind, Option.bind_eq_some_iff]
  constructor
  · rintro ⟨parts, hparts, h⟩
    split at h
    · simp only [Option.bind_eq_bind, Option.bind_eq_some_iff, Option.pure_def,
        Option.some.injEq, asText?_eq_some_iff, asArray?_eq_some_iff, toOption_eq_some_iff,
        hfields] at h
      obtain ⟨text, ⟨_, rfl, rfl⟩, name, hname, items, ⟨_, rfl, rfl⟩, fields, hforms, rfl⟩ := h
      exact ⟨text, items, hparts, hname, hforms⟩
    · cases h
  · rintro ⟨text, items, hparts, hname, hforms⟩
    refine ⟨_, hparts, ?_⟩
    simp [asText?, asArray?, hname, Except.toOption, hfields.mpr hforms]

theorem isNode_typeObject (kind : Value) (n : Bool) : IsNode (typeObject kind n) kind n := by
  have hkind : ¬ (("kind" : String).toList = "nullable".toList) := by decide
  rw [typeObject, isNode_object_iff, Members.get?_cons, Members.get?_cons, if_pos rfl, if_neg hkind]
  exact ⟨rfl, flag?_nullableMember n⟩

theorem forall₂_map_of_forall {α : Type} {Form : α → Value → Prop} {encode : α → Value}
    {as : List α} (h : ∀ a ∈ as, Form a (encode a)) : List.Forall₂ Form as (as.map encode) := by
  rw [List.forall₂_map_right_iff, List.forall₂_same]
  exact h

theorem typeForm_encodeType (t : FieldType) : TypeForm t (encodeType t) := by
  induction t with
  | primitive p n =>
    refine ⟨_, _, none, isNode_typeObject _ n, hasWord_object_iff.mpr ⟨rfl, rfl⟩, rfl, ?_⟩
    simp
  | list element n ih =>
    exact ⟨_, _, _, isNode_typeObject _ n, hasWord_object_iff.mpr ⟨rfl, rfl⟩, rfl, _, rfl, ih⟩
  | map key value n ihkey ihvalue =>
    exact ⟨_, _, _, isNode_typeObject _ n, hasWord_object_iff.mpr ⟨rfl, rfl⟩, rfl, _, _, _, rfl,
      rfl, ihkey, rfl, ihvalue⟩
  | custom name parameters n ih =>
    have hname := TypeName.ofText_text name
    have hforms := forall₂_map_of_forall ih
    cases parameters with
    | nil =>
      exact ⟨_, _, _, isNode_typeObject _ n, hasWord_object_iff.mpr ⟨rfl, rfl⟩, rfl, _, _, _, rfl,
        rfl, hname, rfl, rfl⟩
    | cons p ps =>
      refine ⟨_, _, _, isNode_typeObject _ n, hasWord_object_iff.mpr ⟨rfl, rfl⟩, rfl, _, _, _, rfl,
        rfl, hname, rfl, ?_⟩
      rw [encodeTypes_eq]
      exact parameterForms_iff.mpr hforms

theorem tagForm_encodeTag (tag : Tag) : TagForm tag (encodeTag tag) :=
  ⟨_, _, rfl, TagTarget.ofText_text tag.target, rfl⟩

theorem fieldForm_encodeField (field : Field) : FieldForm field (encodeField field) := by
  have htags := forall₂_map_of_forall fun tag (_ : tag ∈ field.tags) => tagForm_encodeTag tag
  have hname := FieldName.ofText_text field.name
  have htype := typeForm_encodeType field.type
  obtain ⟨name, type, tags⟩ := field
  cases tags with
  | nil => exact ⟨_, _, _, _, rfl, hname, htype, rfl, .nil⟩
  | cons tag tags => exact ⟨_, _, _, _, rfl, hname, htype, rfl, htags⟩

theorem modelForm_encodeModel (m : Model) : ModelForm m (encodeModel m) :=
  ⟨_, _, rfl, ClassName.ofText_text m.name,
    forall₂_map_of_forall fun field _ => fieldForm_encodeField field⟩

/-- Reading gives back what was written. It accepts the forms and nothing else, and
what it accepts may as well be written again. -/
structure Faithful {α : Type} (encode : α → Value) (decode : Value → Option α)
    (Form : α → Value → Prop) : Prop where
  decode_encode (a : α) : decode (encode a) = some a
  decode_eq_some_iff (a : α) (v : Value) : decode v = some a ↔ Form a v
  decode_encode_of_decode (a : α) (v : Value) : decode v = some a → decode (encode a) = decode v

theorem faithful_of_forms {α : Type} {encode : α → Value} {decode : Value → Option α}
    {Form : α → Value → Prop} (hread : ∀ a v, decode v = some a ↔ Form a v)
    (hwritten : ∀ a, Form a (encode a)) : Faithful encode decode Form := by
  have hback (a : α) : decode (encode a) = some a := (hread a _).mpr (hwritten a)
  refine ⟨hback, hread, ?_⟩
  intro a v h
  rw [hback, h]

/-- Types, tags, fields and models are read back as they were written, whatever repeats
in them. The values that are accepted are their forms, in which the constructor of each
name accepts the text that stands for it. -/
theorem faithful_types_tags_fields_models :
    Faithful encodeType decodeType TypeForm ∧ Faithful encodeTag decodeTag TagForm ∧
      Faithful encodeField decodeField FieldForm ∧ Faithful encodeModel decodeModel ModelForm :=
  ⟨faithful_of_forms (fun _ _ => decodeType_eq_some_iff_typeForm) typeForm_encodeType,
    faithful_of_forms (fun _ _ => decodeTag_eq_some_iff) tagForm_encodeTag,
    faithful_of_forms (fun _ _ => decodeField_eq_some_iff) fieldForm_encodeField,
    faithful_of_forms (fun _ _ => decodeModel_eq_some_iff) modelForm_encodeModel⟩

-- An object may have members that do not count, and an array may lack its flag.
example :
    decodeType (object [("nullable", bool false), ("extra", null),
      ("kind", object [("type", string "Bool"), ("data", null)])]) = some (.primitive .bool false) ∧
    decodeType (array [array [string "Bool", null]]) = some (.primitive .bool false) := by
  decide +kernel

end ClassSchema.Json
