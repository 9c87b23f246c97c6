import ClassSchema.Proofs.TypeTree
import ClassSchema.Target.Go

/-!
# Types in a struct can be told apart

The text of a type begins with a word, which may be empty. The word says what kind of
type it is, and a bracket or nothing follows it, so that the text is decoded from left to
right. The text shows everything about a type but the flags of its lists and maps.
-/

namespace ClassSchema

namespace Go

variable {t u : FieldType}

/-- What the word at the head of a type says. -/
inductive Head where
  | primitive (kind : Primitive) (nullable : Bool)
  | list
  | map
  | custom (name : Text) (nullable : Bool)
deriving DecidableEq

def Head.ofType : FieldType → Head
  | .primitive p n => primitive p n
  | .list .. => list
  | .map .. => map
  | .custom name _ n => custom name.text n

def Head.word : Head → Text
  | primitive p n => pointer n ++ keyword p
  | list => []
  | map => "map"
  | custom name n => pointer n ++ name

/-- What follows the word at the head of a type. -/
def tail : FieldType → Text
  | .primitive .. => []
  | .list element _ => "[]" ++ renderType element
  | .map key value _ => "[" ++ renderType key ++ "]" ++ renderType value
  | .custom _ [] _ => []
  | .custom _ (p :: ps) _ => "[" ++ renderType p ++ renderMore ps ++ "]"

theorem renderType_eq (t : FieldType) : renderType t = (Head.ofType t).word ++ tail t := by
  cases t with
  | primitive p n => exact (List.append_nil _).symm
  | list element n => rfl
  | map key value n => rfl
  | custom name ps n =>
    cases ps with
    | nil => exact (List.append_nil _).symm
    | cons p ps =>
      rw [renderType_custom_cons, Head.ofType, Head.word, tail]
      simp only [List.append_assoc]

/-- A name that is not taken for another word at the head of a type. -/
def IsOwnName (name : TypeName) : Prop :=
  name.text.head? ≠ some '*' ∧
    name.text ∉ (["int", "int64", "float32", "float64", "bool", "string", "map"] : List Text)

def ofKeyword? (t : Text) : Option Primitive := Primitive.all.find? (keyword · == t)

def Head.ofName (name : Text) (nullable : Bool) : Head :=
  match ofKeyword? name with
  | some p => primitive p nullable
  | none => custom name nullable

/-- What a word says at the head of a type. -/
def Head.ofWord (word : Text) : Head :=
  if word = [] then list
  else if word = "map" then map
  else
    match Text.withoutStart? "*" word with
    | some name => ofName name true
    | none => ofName word false

theorem Head.ofWord_pointer {name : Text} (hne : name ≠ []) (hmap : name ≠ "map")
    (hstar : name.head? ≠ some '*') (n : Bool) : ofWord (pointer n ++ name) = ofName name n := by
  cases n with
  | true =>
    have hword : pointer true ++ name = '*' :: name := rfl
    have hstart : Text.withoutStart? "*" ('*' :: name) = some name := Text.withoutStart?_append ..
    rw [hword, ofWord, if_neg (by simp), if_neg (by simp), hstart]
  | false =>
    have hstart : Text.withoutStart? "*" name = none := by
      rw [Text.withoutStart?_eq_none_iff]
      rintro ⟨rest, rfl⟩
      exact hstar rfl
    change ofWord name = _
    rw [ofWord, if_neg hne, if_neg hmap, hstart]

theorem Head.ofWord_word (h : ∀ name ∈ t.names, IsOwnName name) :
    ofWord (ofType t).word = ofType t := by
  cases t with
  | primitive p n => cases p <;> cases n <;> decide
  | list element n => rfl
  | map key value n => rfl
  | custom name ps n =>
    obtain ⟨hstar, hreserved⟩ := h name (by simp)
    have hmap : name.text ≠ "map" := by
      intro heq
      simp [heq] at hreserved
    have hkeyword : ofKeyword? name.text = none := by
      rw [ofKeyword?, List.find?_eq_none]
      intro p _ hp
      apply hreserved
      rw [← beq_iff_eq.mp hp]
      cases p <;> decide
    rw [ofType, word, ofWord_pointer name.text_ne_nil hmap hstar, ofName, hkeyword]

theorem Head.isTypePunctuation_of_mem_word {c : Char} (hc : c ∈ (ofType t).word) :
    isTypePunctuation c = false := by
  have hplain {w : Text} (hw : w.all (!isTypePunctuation ·) = true) (hc : c ∈ w) :
      isTypePunctuation c = false := by
    simpa using List.all_eq_true.mp hw c hc
  cases t with
  | primitive p n =>
    refine hplain ?_ hc
    cases p <;> cases n <;> decide
  | list element n => cases hc
  | map key value n => exact hplain (w := "map") (by decide) hc
  | custom name ps n =>
    rcases List.mem_append.mp hc with hc | hc
    · refine hplain ?_ hc
      cases n <;> decide
    · by_contra hpunctuation
      exact name.not_mem_text (by simpa using hpunctuation) hc

def Closes (rest : Text) : Prop := ∀ c ∈ rest.head?, c = ']' ∨ c = ','

theorem closes_bracket (rest : Text) : Closes ("]" ++ rest) := by
  rintro c ⟨⟩
  exact .inl rfl

theorem not_closes_bracket (rest : Text) : ¬ Closes ('[' :: rest) := by
  intro h
  rcases h '[' rfl with h | h <;> exact absurd h (by decide)

theorem closes_renderMore (ps : List FieldType) (rest : Text) :
    Closes (renderMore ps ++ ("]" ++ rest)) := by
  cases ps with
  | nil => exact closes_bracket rest
  | cons p ps =>
    rintro c ⟨⟩
    exact .inr rfl

theorem isTypePunctuation_of_tail (t : FieldType) {rest : Text} (h : Closes rest) :
    ∀ c ∈ (tail t ++ rest).head?, isTypePunctuation c = true := by
  have hrest : ∀ c ∈ rest.head?, isTypePunctuation c = true := by
    intro c hc
    rcases h c hc with rfl | rfl <;> decide
  have hopen (s : Text) : ∀ c ∈ ('[' :: s).head?, isTypePunctuation c = true := by
    rintro c ⟨⟩
    decide
  cases t with
  | primitive p n => exact hrest
  | list element n => exact hopen _
  | map key value n => exact hopen _
  | custom name ps n =>
    cases ps with
    | nil => exact hrest
    | cons p ps => exact hopen _

theorem head_and_tail_of_append_eq {rest rest' : Text} (ht : ∀ name ∈ t.names, IsOwnName name)
    (hu : ∀ name ∈ u.names, IsOwnName name) (hrest : Closes rest) (hrest' : Closes rest')
    (h : renderType t ++ rest = renderType u ++ rest') :
    Head.ofType t = Head.ofType u ∧ tail t ++ rest = tail u ++ rest' := by
  rw [renderType_eq, renderType_eq, List.append_assoc, List.append_assoc] at h
  obtain ⟨hword, htail⟩ := Text.word_append_inj
    (fun _ => Head.isTypePunctuation_of_mem_word) (fun _ => Head.isTypePunctuation_of_mem_word)
    (isTypePunctuation_of_tail t hrest) (isTypePunctuation_of_tail u hrest') h
  exact ⟨by rw [← Head.ofWord_word ht, hword, Head.ofWord_word hu], htail⟩

def cleared (t : FieldType) : FieldType := t.relabel id fun _ => false

theorem cleared_custom (name : TypeName) (ps : List FieldType) (n : Bool) :
    cleared (.custom name ps n) = .custom name (ps.map cleared) n :=
  FieldType.relabel_custom ..

/-- The text of the type tells it from every other one, and where it ends. -/
def Decodes (t : FieldType) : Prop :=
  ∀ u rest rest', (∀ name ∈ u.names, IsOwnName name) → Closes rest → Closes rest' →
    renderType t ++ rest = renderType u ++ rest' → cleared t = cleared u ∧ rest = rest'

theorem renderMore_append_inj {ps qs : List FieldType} {rest rest' : Text}
    (hps : ∀ p ∈ ps, Decodes p) (hqs : ∀ q ∈ qs, ∀ name ∈ q.names, IsOwnName name)
    (h : renderMore ps ++ ("]" ++ rest) = renderMore qs ++ ("]" ++ rest')) :
    ps.map cleared = qs.map cleared ∧ rest = rest' := by
  induction ps generalizing qs with
  | nil =>
    cases qs with
    | nil => exact ⟨rfl, List.append_cancel_left h⟩
    | cons q qs => exact absurd (List.cons.inj h).1 (by decide)
  | cons p ps ih =>
    cases qs with
    | nil => exact absurd (List.cons.inj h).1 (by decide)
    | cons q qs =>
      obtain ⟨hp, hps⟩ := List.forall_mem_cons.mp hps
      obtain ⟨hq, hqs⟩ := List.forall_mem_cons.mp hqs
      have hparts : renderType p ++ (renderMore ps ++ ("]" ++ rest)) =
          renderType q ++ (renderMore qs ++ ("]" ++ rest')) := by
        simpa [renderMore_eq] using h
      obtain ⟨hpq, hmore⟩ :=
        hp q _ _ hq (closes_renderMore ps rest) (closes_renderMore qs rest') hparts
      obtain ⟨hmaps, hrest⟩ := ih hps hqs hmore
      exact ⟨by rw [List.map_cons, List.map_cons, hpq, hmaps], hrest⟩

/-- The parameters of a custom type, if there are any, stand between brackets. -/
theorem parameters_append_inj {name name' : TypeName} {ps qs : List FieldType} {n n' : Bool}
    {rest rest' : Text} (hps : ∀ p ∈ ps, Decodes p)
    (hqs : ∀ q ∈ qs, ∀ name ∈ q.names, IsOwnName name) (hrest : Closes rest)
    (hrest' : Closes rest')
    (h : tail (.custom name ps n) ++ rest = tail (.custom name' qs n') ++ rest') :
    ps.map cleared = qs.map cleared ∧ rest = rest' := by
  cases ps with
  | nil =>
    cases qs with
    | nil => exact ⟨rfl, h⟩
    | cons q qs =>
      obtain rfl : rest = _ := h
      exact absurd hrest (not_closes_bracket _)
  | cons p ps =>
    cases qs with
    | nil =>
      obtain rfl : _ = rest' := h
      exact absurd hrest' (not_closes_bracket _)
    | cons q qs =>
      -- A comma in the place of the opening bracket makes further parameters of them all.
      have hmore : renderMore (p :: ps) ++ ("]" ++ rest) =
          renderMore (q :: qs) ++ ("]" ++ rest') := by
        simpa [tail, renderMore_eq] using h
      exact renderMore_append_inj hps hqs hmore

theorem decodes (ht : ∀ name ∈ t.names, IsOwnName name) : Decodes t := by
  induction t with
  | primitive p n =>
    intro u rest rest' hu hrest hrest' h
    obtain ⟨hhead, htail⟩ := head_and_tail_of_append_eq ht hu hrest hrest' h
    cases u with
    | primitive q m =>
      cases hhead
      exact ⟨rfl, htail⟩
    | _ => cases hhead
  | list element n ih =>
    intro u rest rest' hu hrest hrest' h
    obtain ⟨hhead, htail⟩ := head_and_tail_of_append_eq ht hu hrest hrest' h
    cases u with
    | list element' m =>
      have helement : renderType element ++ rest = renderType element' ++ rest' := by
        simpa [tail] using htail
      obtain ⟨heq, hrest⟩ := ih ht element' rest rest' hu hrest hrest' helement
      exact ⟨congrArg (FieldType.list · false) heq, hrest⟩
    | _ => cases hhead
  | map key value n ihk ihv =>
    intro u rest rest' hu hrest hrest' h
    obtain ⟨hhead, htail⟩ := head_and_tail_of_append_eq ht hu hrest hrest' h
    cases u with
    | map key' value' m =>
      rw [FieldType.names_map, List.forall_mem_append] at ht hu
      have hkey : renderType key ++ ("]" ++ (renderType value ++ rest)) =
          renderType key' ++ ("]" ++ (renderType value' ++ rest')) := by
        simpa [tail] using htail
      obtain ⟨heq, hvalue⟩ :=
        ihk ht.1 key' _ _ hu.1 (closes_bracket _) (closes_bracket _) hkey
      obtain ⟨heq', hrest⟩ :=
        ihv ht.2 value' rest rest' hu.2 hrest hrest' (List.append_cancel_left hvalue)
      exact ⟨congrArg₂ (FieldType.map · · false) heq heq', hrest⟩
    | _ => cases hhead
  | custom name ps n ih =>
    intro u rest rest' hu hrest hrest' h
    obtain ⟨hhead, htail⟩ := head_and_tail_of_append_eq ht hu hrest hrest' h
    cases u with
    | custom name' qs m =>
      obtain ⟨hname, rfl⟩ := Head.custom.inj hhead
      obtain rfl : name = name' := TypeName.text_injective hname
      rw [FieldType.names_custom, List.forall_mem_cons, List.forall_mem_flatMap] at ht hu
      have hps : ∀ p ∈ ps, Decodes p := fun p hp => ih p hp (ht.2 p hp)
      obtain ⟨hmaps, hrest⟩ := parameters_append_inj hps hu.2 hrest hrest' htail
      refine ⟨?_, hrest⟩
      rw [cleared_custom, cleared_custom, hmaps]
    | _ => cases hhead

theorem renderType_cleared (t : FieldType) : renderType (cleared t) = renderType t := by
  induction t with
  | primitive p n => rfl
  | list element n ih => exact congrArg (("[]" : Text) ++ ·) ih
  | map key value n ihk ihv =>
    exact congrArg₂ (fun k v : Text => ("map[" : Text) ++ k ++ "]" ++ v) ihk ihv
  | custom name ps n ih =>
    rw [cleared_custom]
    cases ps with
    | nil => rfl
    | cons p ps =>
      obtain ⟨hp, hps⟩ := List.forall_mem_cons.mp ih
      have hmore : renderMore (ps.map cleared) = renderMore ps := by
        rw [renderMore_eq, renderMore_eq, List.flatMap_map]
        exact List.flatMap_congr fun q hq => congrArg ((", " : Text) ++ ·) (hps q hq)
      rw [List.map_cons, renderType_custom_cons, hp, hmore, renderType_custom_cons]

/-- Types whose names are told from the other words have the same text exactly if they differ
in nothing but the flags of their lists and maps. -/
theorem renderType_eq_iff_cleared (ht : ∀ name ∈ t.names, IsOwnName name)
    (hu : ∀ name ∈ u.names, IsOwnName name) :
    renderType t = renderType u ↔ cleared t = cleared u := by
  constructor
  · intro h
    have hclosed : Closes [] := by simp [Closes]
    exact (decodes ht u [] [] hu hclosed hclosed (congrArg (· ++ []) h)).1
  · intro h
    rw [← renderType_cleared t, h, renderType_cleared]

/-- A map of lists of pointers, with and without flags on the map and the lists, and with a
pointer in the place of a plain parameter. -/
theorem renderType_eq_iff_cleared_nested :
    let pair : TypeName := ⟨"Pair*", rfl⟩
    let type (flag inner : Bool) : FieldType :=
      .map (.primitive .string false)
        (.list (.custom pair [.primitive .long inner, .list (.primitive .bool false) flag] true)
          flag) flag
    (∀ flag inner, ∀ name ∈ (type flag inner).names, IsOwnName name) ∧
      renderType (type true false) = "map[string][]*Pair*[int64, []bool]" ∧
      renderType (type true false) = renderType (type false false) ∧
      renderType (type false false) ≠ renderType (type false true) := by
  intro pair type
  have hpair : IsOwnName pair := ⟨by decide, by decide⟩
  have hown : ∀ flag inner, ∀ name ∈ (type flag inner).names, IsOwnName name := by
    intro flag inner name hname
    obtain rfl : name = pair := by simpa [type] using hname
    exact hpair
  refine ⟨hown, by decide, ?_, ?_⟩
  · rw [renderType_eq_iff_cleared (hown true false) (hown false false)]
    decide
  · rw [ne_eq, renderType_eq_iff_cleared (hown false false) (hown false true)]
    decide

end Go

end ClassSchema
