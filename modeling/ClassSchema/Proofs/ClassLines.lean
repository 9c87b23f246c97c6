import ClassSchema.Proofs.Annotations
import ClassSchema.Target.Generate

/-!
# The lines of a class

Nothing that goes into a class has a newline: names, types, keys and entries stand on one
line each. So the lines of the code are the lines that it was put together from.
-/

namespace ClassSchema

variable {m : Model} {f : Field} {target : TagTarget}

/-- The lines of some parts, with an empty line between neighbours. -/
def separated (parts : List (List Text)) : List Text := ([[]] : List Text).intercalate parts

theorem separated_cons {parts : List (List Text)} (h : parts ≠ []) (part : List Text) :
    separated (part :: parts) = part ++ [] :: separated parts := by
  unfold separated
  rw [List.intercalate_cons_of_ne_nil h, List.append_assoc, List.singleton_append]

@[simp] theorem separated_singleton (part : List Text) : separated [part] = part := by
  simp [separated]

theorem separated_ne_nil {parts : List (List Text)} (hne : parts ≠ [])
    (h : ∀ part ∈ parts, part ≠ []) : separated parts ≠ [] := by
  obtain ⟨part, parts, rfl⟩ := List.exists_cons_of_ne_nil hne
  have hpart := h part List.mem_cons_self
  by_cases hnil : parts = []
  · subst hnil
    simpa using hpart
  · simp [separated_cons hnil]

theorem mem_separated {parts : List (List Text)} {l : Text} (h : l ∈ separated parts) :
    l = [] ∨ ∃ part ∈ parts, l ∈ part := by
  induction parts with
  | nil => cases h
  | cons part parts ih =>
    by_cases hnil : parts = []
    · subst hnil
      exact .inr ⟨part, List.mem_cons_self, by simpa using h⟩
    · rw [separated_cons hnil, List.mem_append, List.mem_cons] at h
      rcases h with h | h | h
      · exact .inr ⟨part, List.mem_cons_self, h⟩
      · exact .inl h
      · exact (ih h).imp_right fun ⟨p, hp, hl⟩ => ⟨p, List.mem_cons_of_mem part hp, hl⟩

theorem mem_separated_of_mem {parts : List (List Text)} {part : List Text} {l : Text}
    (hpart : part ∈ parts) (hl : l ∈ part) : l ∈ separated parts := by
  induction parts with
  | nil => cases hpart
  | cons p parts ih =>
    by_cases hnil : parts = []
    · subst hnil
      obtain rfl := List.mem_singleton.mp hpart
      simpa using hl
    · rw [separated_cons hnil, List.mem_append, List.mem_cons]
      rcases List.mem_cons.mp hpart with rfl | hpart
      · exact .inl hl
      · exact .inr (.inr (ih hpart))

theorem filterMap_separated {α : Type} {g : Text → Option α} (hg : g [] = none)
    (parts : List (List Text)) :
    (separated parts).filterMap g = parts.flatMap (·.filterMap g) := by
  induction parts with
  | nil => rfl
  | cons part parts ih =>
    by_cases hnil : parts = []
    · subst hnil
      simp
    · rw [separated_cons hnil, List.filterMap_append, List.filterMap_cons_none hg, ih,
        List.flatMap_cons]

theorem joined_separated {parts : List (List Text)} (h : ∀ part ∈ parts, part ≠ []) :
    Text.joined "\n\n" (parts.map (Text.joined "\n")) = Text.joined "\n" (separated parts) := by
  induction parts with
  | nil => rfl
  | cons part parts ih =>
    obtain ⟨hpart, hparts⟩ := List.forall_mem_cons.mp h
    by_cases hnil : parts = []
    · subst hnil
      simp
    · have hmap : parts.map (Text.joined "\n") ≠ [] := by simpa using hnil
      rw [List.map_cons, Text.joined_cons hmap, ih hparts, separated_cons hnil,
        Text.joined_append hpart (List.cons_ne_nil _ _),
        Text.joined_cons (separated_ne_nil hnil hparts)]
      simp

theorem Entry.newline_not_mem_render {tags : List Tag} {targets : List TagTarget}
    (h : ∀ tag ∈ tags, tag.Writable) :
    ∀ e ∈ entries targets tags, '\n' ∉ e.render := by
  intro e he
  rw [entries_eq] at he
  rcases List.mem_append.mp he with he | he
  · obtain ⟨tag, htag, rfl⟩ := List.mem_map.mp he
    have hvalues : '\n' ∉ tag.joinedValues :=
      Tag.not_mem_joinedValues (by decide) fun v hv => ((h tag htag).2 v hv).2.2
    have homit : '\n' ∉ Entry.omitEmpty := by decide
    cases hnullable : tag.nullable <;>
      simp [Entry.render, Entry.ofTag, hnullable, hvalues, homit, tag.target.newline_not_mem]
  · obtain ⟨target, -, rfl⟩ := List.mem_map.mp he
    simp [Entry.render, Entry.missing, Tag.skipKey, target.newline_not_mem]

theorem newline_not_mem_renderEntries {tags : List Tag} (targets : List TagTarget)
    (h : ∀ tag ∈ tags, tag.Writable) : '\n' ∉ renderEntries targets tags := by
  apply Text.not_mem_joined (by decide)
  intro t ht
  obtain ⟨e, he, rfl⟩ := List.mem_map.mp ht
  exact Entry.newline_not_mem_render h e he

namespace TypeScript

/-- The characters of types and of empty values, apart from those of names. -/
def isWording (c : Char) : Bool :=
  c.isAlphanum || ("|<>()[]\x7b\x7d,\" " : Text).contains c

section Wording

variable {c : Char} (hc : isWording c = false)
include hc

theorem not_mem_of_isWording {t : Text} (h : t.all isWording = true) : c ∉ t := by
  intro hmem
  rw [List.all_eq_true.mp h c hmem] at hc
  cases hc

theorem not_mem_orNull (n : Bool) : c ∉ orNull n := by
  apply not_mem_of_isWording hc
  cases n <;> decide

theorem not_mem_keyword (p : Primitive) : c ∉ keyword p := by
  apply not_mem_of_isWording hc
  cases p <;> decide

theorem not_mem_renderMore {ps : List FieldType} (h : ∀ p ∈ ps, c ∉ renderType p) :
    c ∉ renderMore ps := by
  have hcomma : c ∉ (", " : Text) := not_mem_of_isWording hc (by decide)
  induction ps with
  | nil => exact List.not_mem_nil
  | cons p ps ih =>
    obtain ⟨hp, hps⟩ := List.forall_mem_cons.mp h
    simp only [renderMore, List.mem_append, hcomma, hp, ih hps, or_self, not_false_eq_true]

/-- Apart from the wording there are only names in a type. -/
theorem not_mem_renderType (hname : ∀ name : TypeName, c ∉ name.text) (t : FieldType) :
    c ∉ renderType t := by
  have hnull := not_mem_orNull hc
  have hword {t : Text} (h : t.all isWording = true) : c ∉ t := not_mem_of_isWording hc h
  induction t with
  | primitive p n =>
    change c ∉ keyword p ++ orNull n
    simp [not_mem_keyword hc, hnull]
  | list element n ih =>
    change c ∉ (if element.nullable then "(" ++ renderType element ++ ")"
      else renderType element) ++ "[]" ++ orNull n
    have hopen : c ∉ ("(" : Text) := hword (by decide)
    have hclose : c ∉ (")" : Text) := hword (by decide)
    have hlist : c ∉ ("[]" : Text) := hword (by decide)
    split_ifs <;>
      simp only [List.mem_append, ih, hnull, hopen, hclose, hlist, or_self, not_false_eq_true]
  | map key value n ihkey ihvalue =>
    change c ∉ ("Map<" : Text) ++ renderType key ++ ", " ++ renderType value ++ ">" ++ orNull n
    have hopen : c ∉ ("Map<" : Text) := hword (by decide)
    have hcomma : c ∉ (", " : Text) := hword (by decide)
    have hclose : c ∉ (">" : Text) := hword (by decide)
    simp only [List.mem_append, ihkey, ihvalue, hnull, hopen, hcomma, hclose, or_self,
      not_false_eq_true]
  | custom name parameters n ih =>
    cases parameters with
    | nil =>
      change c ∉ name.text ++ orNull n
      simp [hname, hnull]
    | cons p ps =>
      change c ∉ name.text ++ "<" ++ renderType p ++ renderMore ps ++ ">" ++ orNull n
      obtain ⟨hp, hps⟩ := List.forall_mem_cons.mp ih
      have hopen : c ∉ ("<" : Text) := hword (by decide)
      have hclose : c ∉ (">" : Text) := hword (by decide)
      simp only [List.mem_append, hname, hp, not_mem_renderMore hc hps, hnull, hopen, hclose,
        or_self, not_false_eq_true]

theorem not_mem_default (hname : ∀ name : TypeName, c ∉ name.text) (d : Default) :
    c ∉ d.render := by
  have htype := not_mem_renderType hc hname
  have hword {t : Text} (h : t.all isWording = true) : c ∉ t := not_mem_of_isWording hc h
  cases d with
  | emptyMap key value =>
    change c ∉ ("new Map<" : Text) ++ renderType key ++ ", " ++ renderType value ++ ">()"
    have hopen : c ∉ ("new Map<" : Text) := hword (by decide)
    have hcomma : c ∉ (", " : Text) := hword (by decide)
    have hclose : c ∉ (">()" : Text) := hword (by decide)
    simp only [List.mem_append, htype, hopen, hcomma, hclose, or_self, not_false_eq_true]
  | emptyObject type =>
    change c ∉ ("\x7b\x7d as " : Text) ++ renderType type
    have hopen : c ∉ ("\x7b\x7d as " : Text) := hword (by decide)
    simp only [List.mem_append, htype, hopen, or_self, not_false_eq_true]
  | _ => exact hword (by decide)

end Wording

theorem newline_not_mem_renderType (t : FieldType) : '\n' ∉ renderType t :=
  not_mem_renderType (by decide) TypeName.newline_not_mem t

theorem newline_not_mem_renderField (h : f.WellFormed) (targets : List TagTarget) :
    '\n' ∉ renderField targets f := by
  unfold renderField renderTags
  split_ifs <;>
    simp [f.name.newline_not_mem, newline_not_mem_renderType,
      newline_not_mem_renderEntries targets h.writable]

theorem newline_not_mem_default (d : Default) : '\n' ∉ d.render :=
  not_mem_default (by decide) TypeName.newline_not_mem d

theorem newline_not_mem_read {key : Text} (h : '\n' ∉ key) (fallback : Option Default) :
    '\n' ∉ (Argument.read key fallback).render := by
  cases fallback with
  | none =>
    change '\n' ∉ ("data[\"" : Text) ++ key ++ "\"]"
    simp only [List.mem_append, h, or_false]
    decide
  | some fallback =>
    change '\n' ∉ ("data[\"" : Text) ++ key ++ "\"] ?? " ++ fallback.render
    simp only [List.mem_append, h, newline_not_mem_default, or_false]
    decide

theorem newline_not_mem_key {tag : Tag} (h : tag.Writable) : '\n' ∉ tag.key := by
  obtain ⟨v, vs, hvalues⟩ := List.exists_cons_of_ne_nil h.1
  have hv := (h.2 v (by simp [hvalues])).2.2
  rwa [Tag.key, hvalues, List.headD_cons]

theorem writable_of_activeTag? (h : f.WellFormed) {tag : Tag}
    (hactive : activeTag? target f = some tag) : tag.Writable :=
  h.writable_tagFor? (Option.eq_some_of_filter_eq_some hactive)

theorem newline_not_mem_assignment (h : m.WellFormed) {a : Assignment}
    (ha : a ∈ assignments m target) : '\n' ∉ a.render := by
  obtain ⟨f, hf, hassign⟩ := List.mem_filterMap.mp ha
  obtain ⟨tag, htag, rfl⟩ := Option.map_eq_some_iff.mp hassign
  have hkey := newline_not_mem_key (writable_of_activeTag? (h.fields f hf) htag)
  unfold Assignment.render
  split_ifs
  all_goals
    simp only [List.mem_append, f.name.newline_not_mem, hkey, or_false]
    decide

theorem newline_not_mem_argument (h : m.WellFormed) {a : Argument}
    (ha : a ∈ arguments m target) : '\n' ∉ a.render := by
  obtain ⟨f, hf, rfl⟩ := List.mem_map.mp ha
  unfold Argument.ofField
  cases htag : activeTag? target f with
  | none => exact newline_not_mem_default _
  | some tag =>
    exact newline_not_mem_read (newline_not_mem_key (writable_of_activeTag? (h.fields f hf) htag)) _

theorem isTargetChar_of_mem_upperOf {c d : Char} (hc : isTargetChar c = true)
    (hd : d ∈ Text.upperOf c) : isTargetChar d = true := by
  have hall : ∀ n < 128, isTargetChar (Char.ofNat n) = true →
      (Text.upperOf (Char.ofNat n)).all isTargetChar = true := by
    decide +kernel
  have hupper : (Text.upperOf c).all isTargetChar = true :=
    of_isTargetChar (p := fun c => (Text.upperOf c).all isTargetChar = true) hall hc
  exact List.all_eq_true.mp hupper d hd

theorem isTargetChar_of_mem_methodSuffix {c : Char} (hc : c ∈ methodSuffix target) :
    isTargetChar c = true := by
  obtain ⟨part, hpart, hc⟩ := List.mem_flatMap.mp hc
  obtain ⟨piece, hpiece, hpart⟩ := List.mem_flatMap.mp hpart
  have hchars : ∀ d ∈ part, isTargetChar d = true := by
    intro d hd
    have hmem := (Text.mem_of_mem_splitOn hpart hd).1
    exact target.isTargetChar_of_mem (Text.mem_of_mem_splitOn hpiece hmem).1
  cases part with
  | nil => cases hc
  | cons d part =>
    obtain ⟨hd, hpart⟩ := List.forall_mem_cons.mp hchars
    rcases List.mem_append.mp hc with hc | hc
    · exact isTargetChar_of_mem_upperOf hd hc
    · exact hpart c hc

theorem not_mem_methodSuffix {c : Char} (hc : isTargetChar c = false) (target : TagTarget) :
    c ∉ methodSuffix target := by
  intro hmem
  rw [isTargetChar_of_mem_methodSuffix hmem] at hc
  cases hc

theorem newline_not_mem_indented {line : Text} (h : '\n' ∉ line) (depth : ℕ) :
    '\n' ∉ indented depth line := by
  simp [indented, h]

theorem newline_not_mem_fieldLines (h : m.WellFormed) : ∀ l ∈ fieldLines m, '\n' ∉ l := by
  intro l hl
  obtain ⟨f, hf, rfl⟩ := List.mem_map.mp hl
  exact newline_not_mem_indented (newline_not_mem_renderField (h.fields f hf) _) 1

theorem newline_not_mem_constructorLines (m : Model) : ∀ l ∈ constructorLines m, '\n' ∉ l := by
  have hparameters : '\n' ∉ Text.joined ", "
      (m.fields.map fun field => field.name.text ++ ": " ++ renderType field.type) := by
    apply Text.not_mem_joined (by decide)
    intro t ht
    obtain ⟨f, -, rfl⟩ := List.mem_map.mp ht
    simp [f.name.newline_not_mem, newline_not_mem_renderType]
  intro l hl
  simp only [constructorLines, List.mem_append, List.mem_singleton, List.mem_map] at hl
  rcases hl with (rfl | ⟨f, -, rfl⟩) | rfl
  all_goals apply newline_not_mem_indented
  · simp only [List.mem_append, hparameters, or_false]
    decide
  · simp only [List.mem_append, f.name.newline_not_mem, or_false]
    decide
  · decide

theorem newline_not_mem_toLines (h : m.WellFormed) (target : TagTarget) :
    ∀ l ∈ toLines m target, '\n' ∉ l := by
  have hsuffix : '\n' ∉ methodSuffix target := not_mem_methodSuffix (by decide) target
  intro l hl
  simp only [toLines, List.mem_append, List.mem_cons, List.mem_map, List.not_mem_nil,
    or_false] at hl
  rcases hl with ((rfl | rfl) | ⟨a, ha, rfl⟩) | rfl | rfl
  all_goals apply newline_not_mem_indented
  · simp only [List.mem_append, hsuffix, or_false]
    decide
  · decide
  · exact newline_not_mem_assignment h ha
  · decide
  · decide

theorem newline_not_mem_fromLines (h : m.WellFormed) (target : TagTarget) :
    ∀ l ∈ fromLines m target, '\n' ∉ l := by
  have hsuffix : '\n' ∉ methodSuffix target := not_mem_methodSuffix (by decide) target
  intro l hl
  simp only [fromLines, List.mem_append, List.mem_cons, List.mem_map, List.not_mem_nil,
    or_false] at hl
  rcases hl with ((rfl | rfl) | ⟨a, ha, rfl⟩) | rfl | rfl
  all_goals apply newline_not_mem_indented
  · simp only [List.mem_append, hsuffix, m.name.newline_not_mem, or_false]
    decide
  · simp only [List.mem_append, m.name.newline_not_mem, or_false]
    decide
  · simp only [List.mem_append, newline_not_mem_argument h ha, false_or]
    decide
  · decide
  · decide

theorem newline_not_mem_sections (h : m.WellFormed) :
    ∀ s ∈ sections m, ∀ l ∈ s, '\n' ∉ l := by
  intro s hs
  simp only [sections, List.mem_append, List.mem_flatMap, List.mem_cons, List.not_mem_nil,
    or_false] at hs
  rcases hs with (hs | rfl) | ⟨target, -, rfl | rfl⟩
  · split_ifs at hs
    · cases hs
    · obtain rfl := List.mem_singleton.mp hs
      exact newline_not_mem_fieldLines h
  · exact newline_not_mem_constructorLines m
  · exact newline_not_mem_toLines h target
  · exact newline_not_mem_fromLines h target

def codeLines (m : Model) : List Text :=
  let top : Text := "export default class " ++ m.name.text ++ " \x7b"
  let bottom : Text := "\x7d"
  top :: (separated (sections m) ++ [bottom, []])

theorem renderModel_eq_joined (m : Model) : renderModel m = Text.joined "\n" (codeLines m) := by
  have hne : separated (sections m) ≠ [] := separated_ne_nil (by simp [sections]) section_ne_nil
  have htop : (" \x7b\n" : Text) = (" \x7b" : Text) ++ ("\n" : Text) := by decide
  have hbottom : ("\n\x7d\n" : Text) = ("\n" : Text) ++ ("\x7d" : Text) ++ ("\n" : Text) := by
    decide
  unfold renderModel codeLines
  rw [joined_separated section_ne_nil, Text.joined_cons (by simp),
    Text.joined_append hne (List.cons_ne_nil _ _), Text.joined_cons (List.cons_ne_nil _ _),
    Text.joined_singleton, htop, hbottom]
  simp only [List.append_assoc, List.append_nil]

theorem newline_not_mem_codeLines (h : m.WellFormed) : ∀ l ∈ codeLines m, '\n' ∉ l := by
  intro l hl
  simp only [codeLines, List.mem_append, List.mem_cons, List.not_mem_nil, or_false] at hl
  rcases hl with rfl | hl | rfl | rfl
  · simp only [List.mem_append, m.name.newline_not_mem, or_false]
    decide
  · rcases mem_separated hl with rfl | ⟨s, hs, hl⟩
    · exact List.not_mem_nil
    · exact newline_not_mem_sections h s hs l hl
  · decide
  · exact List.not_mem_nil

theorem splitOn_renderModel (h : m.WellFormed) :
    Text.splitOn '\n' (renderModel m) = codeLines m := by
  rw [renderModel_eq_joined]
  exact Text.splitOn_joined (List.cons_ne_nil _ _) (newline_not_mem_codeLines h)

end TypeScript

end ClassSchema
