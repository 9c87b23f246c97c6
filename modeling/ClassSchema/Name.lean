import ClassSchema.Text.Blank

/-!
# Names

A class or field name is a bare word. The name of a custom type is a bare word
without the punctuation of type expressions, and a tag target is an identifier
of ASCII letters, digits, underscores and hyphens. Each kind of name is a type
of its own that carries the proof of its rule. A violation says which rule a
name, a tag, a field or a model breaks.
-/

namespace ClassSchema

inductive Violation where
  | className (text : Text)
  | fieldName (text : Text)
  | typeName (text : Text)
  | tagTarget (text : Text)
  /-- A tag without any value. -/
  | noTagValues (target : Text)
  /-- Two tags of one field for the same target. -/
  | repeatedTarget (target field : Text)
  /-- Two fields of one model with the same name. -/
  | repeatedField (name : Text)
deriving DecidableEq, Repr

namespace Violation

def message : Violation → Text
  | className t => "invalid class name '" ++ t ++ "': must be non-empty without whitespace"
  | fieldName t => "invalid field name '" ++ t ++ "': must be non-empty without whitespace"
  | typeName t =>
    "invalid type name '" ++ t ++
      "': must be non-empty and contain none of '[', ']', ',', '?' or whitespace"
  | tagTarget t => "invalid tag target '" ++ t ++ "': must match [A-Za-z][A-Za-z0-9_-]*"
  | noTagValues target => "tag '" ++ target ++ "' must have at least one value"
  | repeatedTarget target field =>
    "duplicate tag target '" ++ target ++ "' on field '" ++ field ++ "'"
  | repeatedField name => "duplicate field name '" ++ name ++ "'"

end Violation

open Text

/-- Some text without white space. -/
def isBareWord (t : Text) : Bool := !t.isEmpty && t.all (!isBlank ·)

theorem isBareWord_iff {t : Text} :
    isBareWord t = true ↔ t ≠ [] ∧ ∀ c ∈ t, Text.isBlank c = false := by
  simp [isBareWord]

theorem isBlank_head?_append {word : Text} (hword : isBareWord word = true) (rest : Text) :
    ∀ c ∈ (word ++ rest).head?, isBlank c = false := by
  obtain ⟨hne, hblank⟩ := isBareWord_iff.mp hword
  cases word with
  | nil => exact absurd rfl hne
  | cons d word =>
    intro c hc
    obtain rfl : d = c := by simpa using hc
    exact hblank d List.mem_cons_self

/-- The characters with a meaning of their own in type expressions. -/
def isTypePunctuation (c : Char) : Bool := c == '[' || c == ']' || c == ',' || c == '?'

def isTypeName (t : Text) : Bool :=
  !t.isEmpty && t.all fun c => !isBlank c && !isTypePunctuation c

/-- Characters of a tag target behind its first one, which is a letter. -/
def isTargetChar (c : Char) : Bool := c.isAlphanum || c == '_' || c == '-'

theorem utf8Size_of_isTargetChar {c : Char} (h : isTargetChar c = true) : c.utf8Size = 1 := by
  have hcases : ((decide (c.val ≥ 'A'.val ∧ c.val ≤ 'Z'.val) ||
      (decide (c.val ≥ 'a'.val) && decide (c.val ≤ 'z'.val))) ||
      (decide (c.val ≥ '0'.val) && decide (c.val ≤ '9'.val)) || c == '_' || c == '-') = true := h
  simp only [Bool.or_eq_true, Bool.and_eq_true, decide_eq_true_eq, beq_iff_eq] at hcases
  apply Char.utf8Size_eq_one_iff.mpr
  rcases hcases with (((⟨-, hc⟩ | ⟨-, hc⟩) | ⟨-, hc⟩) | rfl) | rfl
  · exact UInt32.le_trans hc (by decide : 'Z'.val ≤ 127)
  · exact UInt32.le_trans hc (by decide : 'z'.val ≤ 127)
  · exact UInt32.le_trans hc (by decide : '9'.val ≤ 127)
  · decide
  · decide

/-- What can be checked for the first 128 characters holds of all target characters. -/
theorem of_isTargetChar {p : Char → Prop}
    (h : ∀ n < 128, isTargetChar (Char.ofNat n) = true → p (Char.ofNat n)) {c : Char}
    (hc : isTargetChar c = true) : p c := by
  have hsmall : c.toNat < 128 := by
    have hsize := Char.utf8Size_eq_one_iff.mp (utf8Size_of_isTargetChar hc)
    exact Nat.lt_succ_of_le (UInt32.le_iff_toNat_le.mp hsize)
  have hchar := h c.toNat hsmall
  rw [Char.ofNat_toNat] at hchar
  exact hchar hc

theorem isBlank_of_isTargetChar {c : Char} (h : isTargetChar c = true) :
    Text.isBlank c = false := by
  have hall : ∀ n < 128, isTargetChar (Char.ofNat n) = true →
      Text.isBlank (Char.ofNat n) = false := by
    decide +kernel
  exact of_isTargetChar (p := fun c => Text.isBlank c = false) hall h

def isTagTarget : Text → Bool
  | [] => false
  | c :: t => c.isAlpha && t.all isTargetChar

theorem isTagTarget_concat {c : Char} {t : Text} (h : isTagTarget t = true)
    (hc : isTargetChar c = true) :
    isTagTarget (t ++ [c]) = true := by
  cases t with
  | nil => simp [isTagTarget] at h
  | cons d t =>
    simp only [isTagTarget, List.cons_append, List.all_append, Bool.and_eq_true] at h ⊢
    exact ⟨h.1, h.2, by simpa using hc⟩

structure ClassName where
  text : Text
  valid : isBareWord text = true
deriving DecidableEq

theorem ClassName.newline_not_mem (name : ClassName) : '\n' ∉ name.text :=
  Text.newline_not_mem_of_forall (isBareWord_iff.mp name.valid).2

structure FieldName where
  text : Text
  valid : isBareWord text = true
deriving DecidableEq

theorem FieldName.text_injective : Function.Injective FieldName.text := by
  rintro ⟨t, ht⟩ ⟨u, hu⟩ h
  cases h
  rfl

theorem FieldName.newline_not_mem (name : FieldName) : '\n' ∉ name.text :=
  Text.newline_not_mem_of_forall (isBareWord_iff.mp name.valid).2

structure TypeName where
  text : Text
  valid : isTypeName text = true
deriving DecidableEq

theorem TypeName.text_ne_nil (name : TypeName) : name.text ≠ [] := by
  have h := name.valid
  unfold isTypeName at h
  intro hnil
  simp [hnil] at h

theorem TypeName.isBlank_eq_false (name : TypeName) {c : Char} (hc : c ∈ name.text) :
    Text.isBlank c = false := by
  have h := name.valid
  simp only [isTypeName, Bool.and_eq_true, List.all_eq_true] at h
  simpa using (h.2 c hc).1

theorem TypeName.not_mem_text (name : TypeName) {c : Char} (hc : isTypePunctuation c = true) :
    c ∉ name.text := by
  intro hmem
  have h := name.valid
  simp only [isTypeName, Bool.and_eq_true, List.all_eq_true] at h
  simpa [hc] using (h.2 c hmem).2

theorem TypeName.text_injective : Function.Injective TypeName.text := by
  rintro ⟨text, _⟩ ⟨text', _⟩ h
  cases h
  rfl

theorem TypeName.newline_not_mem (name : TypeName) : '\n' ∉ name.text :=
  Text.newline_not_mem_of_forall fun _ => name.isBlank_eq_false

structure TagTarget where
  text : Text
  valid : isTagTarget text = true
deriving DecidableEq

theorem TagTarget.text_injective : Function.Injective TagTarget.text := by
  rintro ⟨t, ht⟩ ⟨u, hu⟩ h
  simpa using h

theorem TagTarget.isTargetChar_of_mem (target : TagTarget) {c : Char} (hc : c ∈ target.text) :
    isTargetChar c = true := by
  obtain ⟨text, hvalid⟩ := target
  cases text with
  | nil => simp at hc
  | cons d t =>
    simp only [isTagTarget, Bool.and_eq_true, List.all_eq_true] at hvalid
    rcases List.mem_cons.mp hc with rfl | hc
    · simp [isTargetChar, Char.isAlphanum, hvalid.1]
    · exact hvalid.2 c hc

theorem TagTarget.newline_not_mem (target : TagTarget) : '\n' ∉ target.text := by
  intro hmem
  exact absurd (target.isTargetChar_of_mem hmem) (by decide)

/-- A text that is taken only when it is valid is taken as it is. -/
theorem validated_eq_ok_iff {ε α : Type} {valid : Text → Bool}
    {make : (t : Text) → valid t = true → α} {text : α → Text} {fault : ε} {t : Text} {a : α}
    (htext : ∀ t h, text (make t h) = t) (hmake : ∀ a, ∃ h, make (text a) h = a) :
    (if h : valid t = true then Except.ok (make t h) else .error fault) = .ok a ↔ t = text a := by
  constructor
  · intro h
    split at h
    · cases h
      exact (htext t _).symm
    · cases h
  · rintro rfl
    obtain ⟨hvalid, ha⟩ := hmake a
    rw [dif_pos hvalid, ha]

def ClassName.ofText (t : Text) : Except Violation ClassName :=
  if h : isBareWord t = true then .ok ⟨t, h⟩ else .error (.className t)

theorem ClassName.ofText_eq_ok_iff {t : Text} {name : ClassName} :
    ClassName.ofText t = .ok name ↔ t = name.text :=
  validated_eq_ok_iff (fun _ _ => rfl) fun name => ⟨name.valid, rfl⟩

theorem ClassName.ofText_eq_error {t : Text} {cause : Violation}
    (h : ClassName.ofText t = .error cause) : cause = .className t := by
  unfold ClassName.ofText at h
  split at h
  · cases h
  · cases h
    rfl

def FieldName.ofText (t : Text) : Except Violation FieldName :=
  if h : isBareWord t = true then .ok ⟨t, h⟩ else .error (.fieldName t)

theorem FieldName.ofText_eq_ok_iff {t : Text} {name : FieldName} :
    FieldName.ofText t = .ok name ↔ t = name.text :=
  validated_eq_ok_iff (fun _ _ => rfl) fun name => ⟨name.valid, rfl⟩

def TypeName.ofText (t : Text) : Except Violation TypeName :=
  if h : isTypeName t = true then .ok ⟨t, h⟩ else .error (.typeName t)

theorem TypeName.ofText_eq_ok_iff {t : Text} {name : TypeName} :
    TypeName.ofText t = .ok name ↔ t = name.text :=
  validated_eq_ok_iff (fun _ _ => rfl) fun name => ⟨name.valid, rfl⟩

theorem TypeName.isTypeName_of_ofText_error {t : Text} {cause : Violation}
    (h : TypeName.ofText t = .error cause) : isTypeName t = false := by
  unfold TypeName.ofText at h
  split at h
  · cases h
  · next hvalid => simpa using hvalid

def TagTarget.ofText (t : Text) : Except Violation TagTarget :=
  if h : isTagTarget t = true then .ok ⟨t, h⟩ else .error (.tagTarget t)

theorem TagTarget.ofText_eq_ok_iff {t : Text} {target : TagTarget} :
    TagTarget.ofText t = .ok target ↔ t = target.text :=
  validated_eq_ok_iff (fun _ _ => rfl) fun target => ⟨target.valid, rfl⟩

@[simp] theorem ClassName.ofText_text (n : ClassName) : ClassName.ofText n.text = .ok n := by
  simp [ofText, n.valid]

@[simp] theorem FieldName.ofText_text (n : FieldName) : FieldName.ofText n.text = .ok n := by
  simp [ofText, n.valid]

@[simp] theorem TypeName.ofText_text (n : TypeName) : TypeName.ofText n.text = .ok n := by
  simp [ofText, n.valid]

@[simp] theorem TagTarget.ofText_text (n : TagTarget) : TagTarget.ofText n.text = .ok n := by
  simp [ofText, n.valid]

def TagTarget.order (a b : TagTarget) : Ordering := Text.order a.text b.text

instance : Std.TransCmp TagTarget.order where
  eq_swap {a b} := (Std.OrientedCmp.eq_swap : Text.order a.text b.text = _)
  isLE_trans {a _ c} h k :=
    (Std.TransCmp.isLE_trans h k : (Text.order a.text c.text).isLE = true)

instance : Std.LawfulEqCmp TagTarget.order where
  compare_self {a} := (Std.ReflCmp.compare_self : Text.order a.text a.text = _)
  eq_of_compare {a b} h := by
    have htext : Text.order a.text b.text = .eq := h
    exact TagTarget.text_injective (Std.LawfulEqCmp.eq_of_compare htext)

end ClassSchema
