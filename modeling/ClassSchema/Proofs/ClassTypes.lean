import ClassSchema.Proofs.TypeTree
import ClassSchema.Target.TypeScript.Class

/-!
# Types in a class can be told apart

The marks of lists and of nullable types stand behind a type, so its text is decoded from
right to left. At each step the end of the text says what kind of type it is: a closing
bracket, a closing angle, the alternative of a nullable type, or the end of a word. What
stands in front of a type ends with a separator that no type ends with. The text shows
everything about a type but which kind of number it has.
-/

namespace ClassSchema.TypeScript

variable {t u : FieldType} {front front' : Text}

/-- The element of a list; a nullable one is written in parentheses. -/
def elementText (element : FieldType) : Text :=
  if element.nullable then "(" ++ renderType element ++ ")" else renderType element

/-- What the text of a type says in front of the alternative. A map is written as a custom
type with parameters. -/
inductive Stem where
  | word (text : Text)
  | list (element : FieldType)
  | generic (name : Text) (parameters : List FieldType)

namespace Stem

def ofType : FieldType → Stem
  | .primitive p _ => word (keyword p)
  | .list element _ => list element
  | .map key value _ => generic "Map" [key, value]
  | .custom name [] _ => word name.text
  | .custom name (p :: ps) _ => generic name.text (p :: ps)

def parts : Stem → List FieldType
  | word _ => []
  | list element => [element]
  | generic _ parameters => parameters

def render : Stem → Text
  | word text => text
  | list element => elementText element ++ "[]"
  | generic name parameters =>
    name ++ "<" ++ Text.joined ", " (parameters.map renderType) ++ ">"

theorem parts_ofType (t : FieldType) : (ofType t).parts = t.children := by
  cases t with
  | custom name ps n => cases ps <;> rfl
  | _ => rfl

end Stem

theorem renderType_eq (t : FieldType) :
    renderType t = (Stem.ofType t).render ++ orNull t.nullable := by
  cases t with
  | primitive p n => rfl
  | list element n => rfl
  | map key value n =>
    change "Map<" ++ renderType key ++ ", " ++ renderType value ++ ">" ++ orNull n =
      "Map" ++ "<" ++ Text.joined ", " [renderType key, renderType value] ++ ">" ++ orNull n
    rw [Text.joined_cons_eq_flatMap]
    simp
  | custom name ps n =>
    cases ps with
    | nil => rfl
    | cons p ps =>
      change name.text ++ "<" ++ renderType p ++ renderMore ps ++ ">" ++ orNull n =
        name.text ++ "<" ++ Text.joined ", " (renderType p :: ps.map renderType) ++ ">" ++ orNull n
      rw [Text.joined_cons_eq_flatMap, renderMore_eq, List.flatMap_map]
      simp only [List.append_assoc]

def IsOwnName (name : TypeName) : Prop :=
  (∀ c ∈ name.text, c ∉ ("<>()|" : Text)) ∧
    name.text ∉ (["number", "boolean", "string", "Map"] : List Text)

def isSeparator (c : Char) : Bool := isTypePunctuation c || ("<>()| " : Text).contains c

def IsWord (w : Text) : Prop := w ≠ [] ∧ ∀ c ∈ w, isSeparator c = false

theorem isWord_of_all {w : Text} (hne : w ≠ []) (h : w.all (!isSeparator ·) = true) : IsWord w :=
  ⟨hne, fun c hc => by simpa using List.all_eq_true.mp h c hc⟩

theorem isWord_keyword (p : Primitive) : IsWord (keyword p) := by
  cases p <;> exact isWord_of_all (by decide) (by decide)

theorem IsOwnName.isWord {name : TypeName} (h : IsOwnName name) : IsWord name.text := by
  refine ⟨name.text_ne_nil, fun c hc => ?_⟩
  have hpunctuation : isTypePunctuation c = false := by
    by_contra hpunctuation
    exact name.not_mem_text (by simpa using hpunctuation) hc
  have hspace : c ≠ ' ' := Ne.symm (Text.ne_of_isBlank (by decide) (name.isBlank_eq_false hc))
  have hseparators : ("<>()| " : Text) = ("<>()|" : Text) ++ [' '] := by decide
  rw [isSeparator, hpunctuation, Bool.false_or, List.contains_eq_mem, decide_eq_false_iff_not,
    hseparators, List.mem_append, List.mem_singleton]
  exact not_or.mpr ⟨h.1 c hc, hspace⟩

/-- The words of a stem are words, and a generic type has parameters. -/
def Stem.Plain : Stem → Prop
  | word text => IsWord text
  | list _ => True
  | generic name parameters => IsWord name ∧ parameters ≠ []

theorem Stem.plain_ofType (h : ∀ name ∈ t.names, IsOwnName name) : (ofType t).Plain := by
  cases t with
  | primitive p n => exact isWord_keyword p
  | list element n => trivial
  | map key value n => exact ⟨isWord_of_all (by decide) (by decide), by simp⟩
  | custom name ps n =>
    have hname := (h name (by simp)).isWord
    cases ps with
    | nil => exact hname
    | cons p ps => exact ⟨hname, by simp⟩

/-- Nothing, or a text that ends with what may stand in front of a type. -/
inductive Opens : Text → Prop
  | start : Opens []
  | angle (t : Text) : Opens (t ++ "<")
  | paren (t : Text) : Opens (t ++ "(")
  | comma (t : Text) : Opens (t ++ ", ")

theorem Opens.isSeparator (h : Opens front) : ∀ c ∈ front.getLast?, isSeparator c = true := by
  intro c hc
  cases h with
  | start => cases hc
  | _ t =>
    rw [List.getLast?_append_of_ne_nil _ (by simp)] at hc
    cases hc
    decide

theorem not_opens_bar (t : Text) : ¬ Opens (t ++ " | ") := by
  intro h
  generalize hfront : t ++ (" | " : Text) = front at h
  cases h with
  | start => simp at hfront
  | angle t' | paren t' => simpa using congrArg List.getLast? hfront
  | comma t' =>
    have hends : (t ++ " ") ++ ['|', ' '] = t' ++ [',', ' '] := by simpa using hfront
    obtain ⟨-, hlast⟩ := List.append_inj' hends rfl
    exact absurd (List.cons.inj hlast).1 (by decide)

def Stem.ending : Stem → Option Char
  | word _ => none
  | list _ => some ']'
  | generic _ _ => some '>'

theorem Stem.ending_eq {s : Stem} (h : s.Plain) (front : Text) :
    (front ++ s.render).getLast?.filter isSeparator = s.ending := by
  cases s with
  | word text =>
    have hlast : (front ++ text).getLast? = some (text.getLast h.1) := by
      rw [List.getLast?_append_of_ne_nil _ h.1, List.getLast?_eq_getLast_of_ne_nil h.1]
    rw [render, hlast, Option.filter_some, h.2 _ (List.getLast_mem h.1)]
    rfl
  | list element =>
    rw [render, ← List.append_assoc, List.getLast?_append_of_ne_nil _ (by simp)]
    rfl
  | generic name ps =>
    rw [render, ← List.append_assoc, List.getLast?_append_of_ne_nil _ (by simp)]
    rfl

theorem Stem.not_orNull_suffix {s : Stem} (h : s.Plain) (hfront : Opens front) :
    ¬ orNull true <:+ front ++ s.render := by
  rintro ⟨rest, hrest⟩
  have hending : s.ending = none := by
    rw [← ending_eq h front, ← hrest, List.getLast?_append_of_ne_nil _ (by decide)]
    rfl
  cases s with
  | word text =>
    -- The type `null` does not stand behind a bar.
    have hnull : IsWord "null" := isWord_of_all (by decide) (by decide)
    have hbar : ∀ c ∈ (rest ++ (" | " : Text)).getLast?, isSeparator c = true := by
      rw [List.getLast?_append_of_ne_nil _ (by simp)]
      rintro c ⟨⟩
      decide
    have hwords : (rest ++ " | ") ++ "null" = front ++ text := by
      rw [List.append_assoc]
      exact hrest
    obtain ⟨rfl, -⟩ := Text.append_word_inj hnull.2 h.2 hbar hfront.isSeparator hwords
    exact not_opens_bar rest hfront
  | _ => cases hending

theorem Stem.orNull_suffix_iff {s : Stem} (h : s.Plain) (hfront : Opens front) (n : Bool) :
    orNull true <:+ front ++ s.render ++ orNull n ↔ n = true := by
  cases n with
  | false => simpa [orNull] using not_orNull_suffix h hfront
  | true => exact iff_of_true (List.suffix_append ..) rfl

theorem getLast?_renderType_ne (ht : ∀ name ∈ t.names, IsOwnName name) (front : Text) :
    (front ++ renderType t).getLast? ≠ some ')' := by
  intro hlast
  rw [renderType_eq, ← List.append_assoc] at hlast
  cases hn : t.nullable with
  | true =>
    rw [hn, List.getLast?_append_of_ne_nil _ (by decide)] at hlast
    exact absurd hlast (by decide)
  | false =>
    have hnull : orNull false = [] := rfl
    have hending := Stem.ending_eq (Stem.plain_ofType ht) front
    rw [hn, hnull, List.append_nil] at hlast
    rw [hlast] at hending
    cases hstem : Stem.ofType t <;> simp [hstem, Stem.ending, isSeparator] at hending

theorem getLast?_elementText_iff (h : ∀ name ∈ t.names, IsOwnName name) (front : Text) :
    (front ++ elementText t).getLast? = some ')' ↔ t.nullable = true := by
  unfold elementText
  cases t.nullable with
  | true =>
    refine iff_of_true ?_ rfl
    rw [if_pos rfl, ← List.append_assoc]
    exact List.getLast?_concat
  | false => simpa using getLast?_renderType_ne h front

def mergeKind (p : Primitive) : Primitive := if p.isNumeric then .integer else p

def merged (t : FieldType) : FieldType := t.relabel mergeKind id

theorem merged_custom (name : TypeName) (ps : List FieldType) (n : Bool) :
    merged (.custom name ps n) = .custom name (ps.map merged) n :=
  FieldType.relabel_custom ..

namespace Stem

def merged : Stem → Stem
  | word text => word text
  | list element => list (TypeScript.merged element)
  | generic name parameters => generic name (parameters.map TypeScript.merged)

def toMap? (n : Bool) : List FieldType → Option FieldType
  | [key, value] => some (.map key value n)
  | _ => none

/-- The type with the given stem, which may be nullable. -/
def toType? (n : Bool) : Stem → Option FieldType
  | word text =>
    match Primitive.all.find? (keyword · == text) with
    | some p => some (.primitive p n)
    | none => (TypeName.ofText text).toOption.map (.custom · [] n)
  | list element => some (.list element n)
  | generic name parameters =>
    if name = "Map" then toMap? n parameters
    else (TypeName.ofText name).toOption.map (.custom · parameters n)

/-- A type with one kind of number is known from its stem and its flag. -/
theorem toType?_merged (h : ∀ name ∈ t.names, IsOwnName name) :
    (ofType t).merged.toType? t.nullable = some (TypeScript.merged t) := by
  cases t with
  | primitive p n => cases p <;> rfl
  | list element n => rfl
  | map key value n => rfl
  | custom name ps n =>
    obtain ⟨-, hreserved⟩ := h name (by simp)
    cases ps with
    | nil =>
      have hkeyword : Primitive.all.find? (keyword · == name.text) = none := by
        rw [List.find?_eq_none]
        intro p _ hp
        apply hreserved
        rw [← beq_iff_eq.mp hp]
        cases p <;> decide
      rw [ofType, merged, toType?, hkeyword, TypeName.ofText_text, merged_custom]
      rfl
    | cons p ps =>
      have hmap : name.text ≠ "Map" := by
        intro heq
        simp [heq] at hreserved
      rw [ofType, merged, toType?, if_neg hmap, TypeName.ofText_text, merged_custom]
      rfl

end Stem

theorem merged_eq_of_stem (ht : ∀ name ∈ t.names, IsOwnName name)
    (hu : ∀ name ∈ u.names, IsOwnName name)
    (hstem : (Stem.ofType t).merged = (Stem.ofType u).merged) (hn : t.nullable = u.nullable) :
    merged t = merged u := by
  have htype := Stem.toType?_merged ht
  rw [hstem, hn, Stem.toType?_merged hu] at htype
  exact (Option.some.inj htype).symm

/-- The text of the type tells it from every other one, and where it begins. -/
def Decodes (t : FieldType) : Prop :=
  ∀ u front front', (∀ name ∈ u.names, IsOwnName name) → Opens front → Opens front' →
    front ++ renderType t = front' ++ renderType u → merged t = merged u ∧ front = front'

theorem elementText_append_inj (hdecodes : Decodes t) (ht : ∀ name ∈ t.names, IsOwnName name)
    (hu : ∀ name ∈ u.names, IsOwnName name) (hfront : Opens front) (hfront' : Opens front')
    (h : front ++ elementText t = front' ++ elementText u) :
    merged t = merged u ∧ front = front' := by
  have hn : t.nullable = u.nullable := by
    rw [Bool.eq_iff_iff, ← getLast?_elementText_iff ht front, h, getLast?_elementText_iff hu]
  unfold elementText at h
  cases hnullable : u.nullable with
  | true =>
    have helement : front ++ "(" ++ renderType t = front' ++ "(" ++ renderType u := by
      rw [← List.append_left_inj [')']]
      simpa [hn, hnullable] using h
    obtain ⟨heq, hfronts⟩ := hdecodes u _ _ hu (.paren front) (.paren front') helement
    exact ⟨heq, List.append_cancel_right hfronts⟩
  | false =>
    rw [hn, hnullable] at h
    exact hdecodes u front front' hu hfront hfront' h

/-- The text in front of the last parameter, which the others precede. -/
def lead (front : Text) (ps : List FieldType) : Text :=
  if ps = [] then front ++ "<"
  else front ++ "<" ++ Text.joined ", " (ps.map renderType) ++ ", "

theorem joined_concat (front : Text) (ps : List FieldType) (p : FieldType) :
    front ++ "<" ++ Text.joined ", " ((ps ++ [p]).map renderType) =
      lead front ps ++ renderType p := by
  rw [List.map_append, List.map_singleton, lead]
  split_ifs with hps
  · simp [hps]
  · rw [Text.joined_append (by simpa using hps) (by simp), Text.joined_singleton]
    simp only [List.append_assoc]

theorem opens_lead (front : Text) (ps : List FieldType) : Opens (lead front ps) := by
  unfold lead
  split_ifs
  · exact .angle front
  · exact .comma _

theorem getLast?_lead_iff (front : Text) (ps : List FieldType) :
    (lead front ps).getLast? = some '<' ↔ ps = [] := by
  unfold lead
  split_ifs with hps
  · exact iff_of_true (by simp) hps
  · refine iff_of_false ?_ hps
    rw [List.getLast?_append_of_ne_nil _ (by simp)]
    decide

/-- Parameters are decoded from the last one on. -/
theorem joined_append_inj {ps qs : List FieldType} (hps : ps ≠ []) (hqs : qs ≠ [])
    (hdecodes : ∀ p ∈ ps, Decodes p) (hnames : ∀ q ∈ qs, ∀ name ∈ q.names, IsOwnName name)
    (h : front ++ "<" ++ Text.joined ", " (ps.map renderType) =
      front' ++ "<" ++ Text.joined ", " (qs.map renderType)) :
    ps.map merged = qs.map merged ∧ front = front' := by
  induction ps using List.reverseRecOn generalizing qs with
  | nil => exact absurd rfl hps
  | append_singleton ps p ih =>
    obtain ⟨qs, q, rfl⟩ := (List.eq_nil_or_concat' qs).resolve_left hqs
    rw [List.forall_mem_append, List.forall_mem_singleton] at hdecodes hnames
    rw [joined_concat, joined_concat] at h
    obtain ⟨hlast, hlead⟩ :=
      hdecodes.2 q _ _ hnames.2 (opens_lead front ps) (opens_lead front' qs) h
    have hnil : ps = [] ↔ qs = [] := by
      rw [← getLast?_lead_iff front, hlead, getLast?_lead_iff]
    rw [List.map_append, List.map_append, List.map_singleton, List.map_singleton, hlast]
    by_cases hps : ps = []
    · have hqs := hnil.mp hps
      rw [lead, lead, if_pos hps, if_pos hqs] at hlead
      exact ⟨by rw [hps, hqs], List.append_cancel_right hlead⟩
    · have hqs : qs ≠ [] := fun hqs => hps (hnil.mpr hqs)
      rw [lead, lead, if_neg hps, if_neg hqs] at hlead
      obtain ⟨hmaps, hfronts⟩ :=
        ih hps hqs hdecodes.1 hnames.1 (List.append_cancel_right hlead)
      exact ⟨by rw [hmaps], hfronts⟩

theorem Stem.append_inj {s s' : Stem} (hs : s.Plain) (hs' : s'.Plain)
    (hdecodes : ∀ p ∈ s.parts, Decodes p)
    (hnames : ∀ p ∈ s.parts, ∀ name ∈ p.names, IsOwnName name)
    (hnames' : ∀ p ∈ s'.parts, ∀ name ∈ p.names, IsOwnName name)
    (hfront : Opens front) (hfront' : Opens front')
    (h : front ++ s.render = front' ++ s'.render) : s.merged = s'.merged ∧ front = front' := by
  have hending : s.ending = s'.ending := by rw [← ending_eq hs front, h, ending_eq hs' front']
  have hopen := hfront.isSeparator
  have hopen' := hfront'.isSeparator
  cases s with
  | word text =>
    cases s' with
    | word text' =>
      obtain ⟨rfl, rfl⟩ := Text.append_word_inj hs.2 hs'.2 hopen hopen' h
      exact ⟨rfl, rfl⟩
    | _ => cases hending
  | list element =>
    cases s' with
    | list element' =>
      rw [render, render, ← List.append_assoc, ← List.append_assoc] at h
      obtain ⟨heq, rfl⟩ := elementText_append_inj (hdecodes element List.mem_cons_self)
        (hnames element List.mem_cons_self) (hnames' element' List.mem_cons_self)
        hfront hfront' (List.append_cancel_right h)
      exact ⟨congrArg list heq, rfl⟩
    | _ => cases hending
  | generic name ps =>
    cases s' with
    | generic name' qs =>
      have hjoined : (front ++ name) ++ "<" ++ Text.joined ", " (ps.map renderType) =
          (front' ++ name') ++ "<" ++ Text.joined ", " (qs.map renderType) := by
        rw [← List.append_left_inj ['>']]
        simpa [render] using h
      obtain ⟨hmaps, hwords⟩ := joined_append_inj hs.2 hs'.2 hdecodes hnames' hjoined
      obtain ⟨rfl, rfl⟩ := Text.append_word_inj hs.1.2 hs'.1.2 hopen hopen' hwords
      exact ⟨congrArg (generic name) hmaps, rfl⟩
    | _ => cases hending

theorem decodes (ht : ∀ name ∈ t.names, IsOwnName name) : Decodes t := by
  induction t using FieldType.partsInduction with
  | node t ih =>
    intro u front front' hu hfront hfront' h
    have hnames {t : FieldType} (ht : ∀ name ∈ t.names, IsOwnName name) :
        ∀ p ∈ (Stem.ofType t).parts, ∀ name ∈ p.names, IsOwnName name := by
      intro p hp name hname
      rw [Stem.parts_ofType] at hp
      exact ht name (FieldType.mem_names_of_mem_children hp hname)
    have hdecodes : ∀ p ∈ (Stem.ofType t).parts, Decodes p := fun p hp =>
      ih p (Stem.parts_ofType t ▸ hp) (hnames ht p hp)
    have hs := Stem.plain_ofType ht
    have hs' := Stem.plain_ofType hu
    rw [renderType_eq, renderType_eq, ← List.append_assoc, ← List.append_assoc] at h
    have hn : t.nullable = u.nullable := by
      rw [Bool.eq_iff_iff, ← Stem.orNull_suffix_iff hs hfront, h,
        Stem.orNull_suffix_iff hs' hfront']
    rw [hn] at h
    obtain ⟨hstem, rfl⟩ := Stem.append_inj hs hs' hdecodes (hnames ht) (hnames hu) hfront hfront'
      (List.append_cancel_right h)
    exact ⟨merged_eq_of_stem ht hu hstem hn, rfl⟩

theorem nullable_merged (t : FieldType) : (merged t).nullable = t.nullable := by
  cases t <;> rfl

theorem Stem.ofType_merged (t : FieldType) : ofType (TypeScript.merged t) = (ofType t).merged := by
  cases t with
  | primitive p n => cases p <;> rfl
  | list element n => rfl
  | map key value n => rfl
  | custom name ps n =>
    rw [merged_custom]
    cases ps <;> rfl

theorem Stem.render_merged {s : Stem}
    (h : ∀ p ∈ s.parts, renderType (TypeScript.merged p) = renderType p) :
    s.merged.render = s.render := by
  cases s with
  | word text => rfl
  | list element =>
    have helement := h element List.mem_cons_self
    rw [merged, render, render, elementText, elementText, nullable_merged, helement]
  | generic name ps =>
    have hparameters : ps.map (renderType ∘ TypeScript.merged) = ps.map renderType :=
      List.map_congr_left h
    rw [merged, render, render, List.map_map, hparameters]

theorem renderType_merged (t : FieldType) : renderType (merged t) = renderType t := by
  induction t using FieldType.partsInduction with
  | node t ih =>
    rw [← Stem.parts_ofType] at ih
    rw [renderType_eq, Stem.ofType_merged, Stem.render_merged ih, nullable_merged, ← renderType_eq]

/-- Types whose names are told from the other parts of a type have the same text exactly if
they differ in nothing but their kinds of numbers. -/
theorem renderType_eq_iff_merged (ht : ∀ name ∈ t.names, IsOwnName name)
    (hu : ∀ name ∈ u.names, IsOwnName name) :
    renderType t = renderType u ↔ merged t = merged u := by
  constructor
  · intro h
    exact (decodes ht u [] [] hu .start .start h).1
  · intro h
    rw [← renderType_merged t, h, renderType_merged]

/-- A nullable map of lists, with two kinds of numbers, and with the flag of an element on
its list or on a parameter. The custom types have names that look like parts of a type. -/
theorem renderType_eq_iff_merged_nested :
    let null : TypeName := ⟨"null", rfl⟩
    let type (kind : Primitive) (element listed inner : Bool) : FieldType :=
      .map (.primitive kind false)
        (.list (.custom null [.custom null [] inner, .primitive .bool false] element) listed) true
    (∀ kind element listed inner, ∀ name ∈ (type kind element listed inner).names,
      IsOwnName name) ∧
      renderType (type .long true false false) =
        "Map<number, (null<null, boolean> | null)[]> | null" ∧
      renderType (type .long true false false) = renderType (type .float true false false) ∧
      renderType (type .long true false false) ≠ renderType (type .long false true false) ∧
      renderType (type .long true false false) ≠ renderType (type .long false false true) := by
  intro null type
  have hnull : IsOwnName null := ⟨by simp [null], by decide⟩
  have hown : ∀ kind element listed inner, ∀ name ∈ (type kind element listed inner).names,
      IsOwnName name := by
    intro kind element listed inner name hname
    obtain rfl : name = null := by simpa [type] using hname
    exact hnull
  refine ⟨hown, by decide, ?_, ?_, ?_⟩
  · rw [renderType_eq_iff_merged (hown _ _ _ _) (hown _ _ _ _)]
    decide
  · rw [ne_eq, renderType_eq_iff_merged (hown _ _ _ _) (hown _ _ _ _)]
    decide
  · rw [ne_eq, renderType_eq_iff_merged (hown _ _ _ _) (hown _ _ _ _)]
    decide

end ClassSchema.TypeScript
