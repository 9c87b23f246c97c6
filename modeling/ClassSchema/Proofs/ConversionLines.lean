import ClassSchema.Proofs.ClassLines
import ClassSchema.Proofs.Conversions

/-!
# The lines of a pair of conversion methods

The statements of a writing method and the arguments of a reading method can be read off
their lines, whatever the keys are. The two methods know the same fields under the same
keys, and what is passed for a field stands where the constructor has its parameter.
-/

namespace ClassSchema

variable {m : Model} {f : Field} {target : TagTarget}

/-- The text up to the last occurrence of a character, and the text behind it. -/
def Text.cutBehind (c : Char) (t : Text) : Text × Text :=
  (t.rdropWhile (· != c), t.rtakeWhile (· != c))

theorem Text.cutBehind_append {c : Char} {t : Text} (h : c ∉ t) (u : Text) :
    cutBehind c (u ++ c :: t) = (u ++ [c], t) := by
  have hreverse : (u ++ c :: t).reverse = t.reverse ++ c :: u.reverse := by simp
  have ht : c ∉ t.reverse := by simpa using h
  rw [cutBehind, List.rdropWhile, List.rtakeWhile, hreverse, dropWhile_ne_append ht,
    takeWhile_ne_append ht]
  simp

namespace TypeScript

/-- The statement that stores a field at the given place, which may be guarded. -/
def Assignment.ofPlace? (field : FieldName) (place : Text) : Option Assignment :=
  match Text.withoutStart? "out[\"" place with
  | some key => some ⟨key, field, false⟩
  | none =>
    (Text.withoutStart? ("if (this." ++ field.text ++ ") out[\"") place).map (⟨·, field, true⟩)

/-- The statement on a line of a writing method. Its last word has the field. -/
def Assignment.ofLine? (line : Text) : Option Assignment := do
  let body ← Text.withoutStart? (indented 2 []) line
  let (front, word) := Text.cutBehind ' ' body
  let name ← (Text.withoutStart? "this." word).bind (Text.withoutEnding? ";")
  let field ← (FieldName.ofText name).toOption
  let place ← Text.withoutEnding? "\"] = " front
  ofPlace? field place

def statementsOf (lines : List Text) : List Assignment := lines.filterMap Assignment.ofLine?

/-- The place where a statement stores a field, up to the end of the key. -/
def Assignment.place (a : Assignment) : Text :=
  (if a.guarded then "if (this." ++ a.field.text ++ ") " else []) ++ "out[\"" ++ a.key

theorem Assignment.ofPlace?_place (a : Assignment) : ofPlace? a.field a.place = some a := by
  obtain ⟨key, field, guarded⟩ := a
  cases guarded with
  | false =>
    have hplace : (mk key field false).place = "out[\"" ++ key := rfl
    rw [hplace, ofPlace?, Text.withoutStart?_append]
  | true =>
    have hplace : (mk key field true).place = ("if (this." ++ field.text ++ ") out[\"") ++ key := by
      have hguard : (") out[\"" : Text) = ") " ++ "out[\"" := by decide
      simp only [place, if_true, hguard, List.append_assoc]
    have hguarded : Text.withoutStart? "out[\"" (mk key field true).place = none := rfl
    rw [ofPlace?, hguarded, hplace, Text.withoutStart?_append, Option.map_some]

theorem Assignment.ofLine?_render (a : Assignment) :
    Assignment.ofLine? (indented 2 a.render) = some a := by
  have hspace : ' ' ∉ ("this." : Text) ++ (a.field.text ++ ";") := by
    have hname : ' ' ∉ a.field.text := by
      intro hmem
      exact absurd ((isBareWord_iff.mp a.field.valid).2 ' ' hmem) (by decide)
    simp only [List.mem_append, hname, false_or]
    decide
  have hbody : a.render = (a.place ++ "\"] =") ++ ' ' :: ("this." ++ (a.field.text ++ ";")) := by
    have hmiddle : ("\"] = this." : Text) = "\"] =" ++ ' ' :: "this." := by decide
    rw [Assignment.render, hmiddle]
    simp only [place, List.append_assoc, List.cons_append]
  have hfront : a.place ++ "\"] =" ++ [' '] = a.place ++ "\"] = " := by
    rw [List.append_assoc]
    rfl
  unfold ofLine?
  rw [withoutStart?_indented, hbody, Option.bind_eq_bind, Option.bind_some,
    Text.cutBehind_append hspace, hfront]
  simp only [Text.withoutStart?_append, Text.withoutEnding?_append, Option.bind_eq_bind,
    Option.bind_some, FieldName.ofText_text, Except.toOption, ofPlace?_place]

theorem statementsOf_toLines (m : Model) (target : TagTarget) :
    statementsOf (toLines m target) = assignments m target := by
  have hlines : ((assignments m target).map fun a => indented 2 a.render).filterMap
      Assignment.ofLine? = assignments m target := by
    rw [List.filterMap_map]
    exact (List.filterMap_congr fun a _ => a.ofLine?_render).trans List.filterMap_some
  unfold statementsOf toLines
  rw [List.filterMap_append, List.filterMap_append, hlines]
  have hopen : Assignment.ofLine? (indented 1 ("public To" ++ methodSuffix target ++
    "(): Object \x7b")) = none := rfl
  have hconst : Assignment.ofLine? (indented 2 "const out: any = \x7b\x7d;") = none := rfl
  have hreturn : Assignment.ofLine? (indented 2 "return out;") = none := rfl
  have hclose : Assignment.ofLine? (indented 1 "\x7d") = none := rfl
  rw [List.filterMap_cons_none hopen, List.filterMap_cons_none hconst,
    List.filterMap_cons_none hreturn, List.filterMap_cons_none hclose]
  simp

inductive ArgumentText where
  | read (key : Text) (fallback : Option Text)
  | constant (value : Text)
deriving DecidableEq

def Argument.text : Argument → ArgumentText
  | read key fallback => .read key (fallback.map Default.render)
  | constant value => .constant value.render

/-- The argument that reads an object, behind the quotation mark that opens the key. Only a
key can end with a bracket behind a quotation mark, and no fallback has a question mark. -/
def ArgumentText.ofAccess? (rest : Text) : Option ArgumentText :=
  match Text.withoutEnding? "\"]" rest with
  | some key => some (.read key none)
  | none => do
    let (front, behind) := Text.cutBehind '?' rest
    let key ← Text.withoutEnding? "\"] ??" front
    let fallback ← Text.withoutStart? " " behind
    some (.read key (some fallback))

def ArgumentText.ofWording? (wording : Text) : Option ArgumentText :=
  match Text.withoutStart? "data[\"" wording with
  | some rest => ofAccess? rest
  | none => some (.constant wording)

def ArgumentText.ofLine? (line : Text) : Option ArgumentText := do
  let body ← Text.withoutStart? (indented 3 []) line
  let wording ← Text.withoutEnding? "," body
  ofWording? wording

def argumentsOf (lines : List Text) : List ArgumentText := lines.filterMap ArgumentText.ofLine?

def ClosesNoKey (t : Text) : Prop := ∀ u, ¬ ("\"]" : Text) <:+ u ++ t

theorem ClosesNoKey.append {t : Text} (h : ClosesNoKey t) (u : Text) : ClosesNoKey (u ++ t) := by
  intro v
  rw [← List.append_assoc]
  exact h (v ++ u)

theorem closesNoKey_of_getLast? {t : Text} {c : Char} (h : t.getLast? = some c) (hc : c ≠ ']') :
    ClosesNoKey t := by
  obtain ⟨front, rfl⟩ := List.getLast?_eq_some_iff.mp h
  rintro u ⟨v, hv⟩
  have hlast : (v ++ ['"']) ++ [']'] = (u ++ front) ++ [c] := by
    rw [List.append_assoc, List.append_assoc]
    exact hv
  obtain ⟨-, hlast⟩ := List.append_inj' hlast rfl
  exact hc (List.cons.inj hlast).1.symm

theorem closesNoKey_brackets : ClosesNoKey "[]" := by
  rintro u ⟨v, hv⟩
  have hends : v ++ ['"', ']'] = u ++ ['[', ']'] := hv
  obtain ⟨-, hlast⟩ := List.append_inj' hends rfl
  exact absurd (List.cons.inj hlast).1 (by decide)

theorem closesNoKey_name (name : TypeName) : ClosesNoKey name.text := by
  have hlast := List.getLast?_eq_getLast_of_ne_nil name.text_ne_nil
  refine closesNoKey_of_getLast? hlast ?_
  intro heq
  exact name.not_mem_text (by decide) (heq ▸ List.getLast_mem name.text_ne_nil)

theorem closesNoKey_renderType (t : FieldType) : ClosesNoKey (renderType t) := by
  have hnull (t : Text) : ClosesNoKey (t ++ orNull true) :=
    (closesNoKey_of_getLast? rfl (by decide)).append t
  have hangle (t : Text) : ClosesNoKey (t ++ ">" ++ orNull false) := by
    rw [List.append_assoc]
    exact (closesNoKey_of_getLast? rfl (by decide)).append t
  cases t with
  | primitive p n =>
    cases n with
    | true => exact hnull (keyword p)
    | false => cases p <;> exact closesNoKey_of_getLast? rfl (by decide)
  | list element n =>
    change ClosesNoKey ((if element.nullable then "(" ++ renderType element ++ ")"
      else renderType element) ++ "[]" ++ orNull n)
    cases n with
    | true => exact hnull _
    | false =>
      rw [List.append_assoc]
      exact closesNoKey_brackets.append _
  | map key value n =>
    cases n with
    | true => exact hnull ("Map<" ++ renderType key ++ ", " ++ renderType value ++ ">")
    | false => exact hangle ("Map<" ++ renderType key ++ ", " ++ renderType value)
  | custom name parameters n =>
    cases parameters with
    | nil =>
      cases n with
      | true => exact hnull name.text
      | false =>
        change ClosesNoKey (name.text ++ [])
        rw [List.append_nil]
        exact closesNoKey_name name
    | cons p ps =>
      cases n with
      | true => exact hnull (name.text ++ "<" ++ renderType p ++ renderMore ps ++ ">")
      | false => exact hangle (name.text ++ "<" ++ renderType p ++ renderMore ps)

theorem closesNoKey_default (d : Default) : ClosesNoKey d.render := by
  cases d with
  | emptyList => exact closesNoKey_brackets
  | emptyMap key value =>
    exact (closesNoKey_of_getLast? rfl (by decide) : ClosesNoKey ">()").append
      ("new Map<" ++ renderType key ++ ", " ++ renderType value)
  | emptyObject type => exact (closesNoKey_renderType type).append "\x7b\x7d as "
  | _ => exact closesNoKey_of_getLast? rfl (by decide)

theorem ArgumentText.ofAccess?_key (key : Text) :
    ofAccess? (key ++ "\"]") = some (.read key none) := by
  rw [ofAccess?, Text.withoutEnding?_append]

theorem ArgumentText.ofAccess?_fallback (key : Text) (d : Default) :
    ofAccess? (key ++ "\"] ?? " ++ d.render) = some (.read key (some d.render)) := by
  have hopen : Text.withoutEnding? "\"]" (key ++ "\"] ?? " ++ d.render) = none :=
    Text.withoutEnding?_eq_none_iff.mpr (closesNoKey_default d _)
  have hquestion : '?' ∉ (" " : Text) ++ d.render := by
    have hdefault : '?' ∉ d.render :=
      not_mem_default (by decide) (fun name => name.not_mem_text (by decide)) d
    simp only [List.mem_append, hdefault, or_false]
    decide
  have hcut : key ++ "\"] ?? " ++ d.render = (key ++ "\"] ?") ++ '?' :: (" " ++ d.render) := by
    have hmiddle : ("\"] ?? " : Text) = "\"] ?" ++ '?' :: " " := by decide
    rw [hmiddle]
    simp only [List.append_assoc, List.cons_append]
  have hfront : key ++ "\"] ?" ++ ['?'] = key ++ "\"] ??" := by
    rw [List.append_assoc]
    rfl
  rw [ofAccess?, hopen, hcut, Text.cutBehind_append hquestion, hfront]
  simp only [Text.withoutEnding?_append, Text.withoutStart?_append, Option.bind_eq_bind,
    Option.bind_some]

theorem ArgumentText.ofWording?_render (a : Argument) : ofWording? a.render = some a.text := by
  unfold ofWording?
  cases a with
  | constant value =>
    have hconstant : Text.withoutStart? "data[\"" (Argument.constant value).render = none := by
      cases value <;> rfl
    rw [hconstant]
    rfl
  | read key fallback =>
    cases fallback with
    | none =>
      have hrender : (Argument.read key none).render = "data[\"" ++ (key ++ "\"]") :=
        List.append_assoc _ _ _
      rw [hrender, Text.withoutStart?_append]
      exact ofAccess?_key key
    | some fallback =>
      have hrender : (Argument.read key (some fallback)).render =
          "data[\"" ++ (key ++ "\"] ?? " ++ fallback.render) := by
        rw [← List.append_assoc, ← List.append_assoc]
        rfl
      rw [hrender, Text.withoutStart?_append]
      exact ofAccess?_fallback key fallback

theorem ArgumentText.ofLine?_render (a : Argument) :
    ArgumentText.ofLine? (indented 3 (a.render ++ ",")) = some a.text := by
  rw [ofLine?, withoutStart?_indented, Option.bind_eq_bind, Option.bind_some,
    Text.withoutEnding?_append, Option.bind_some, ofWording?_render]

theorem argumentsOf_fromLines (m : Model) (target : TagTarget) :
    argumentsOf (fromLines m target) = (arguments m target).map Argument.text := by
  have hlines : ((arguments m target).map fun a => indented 3 (a.render ++ ",")).filterMap
      ArgumentText.ofLine? = (arguments m target).map Argument.text := by
    rw [List.filterMap_map, ← List.filterMap_eq_map]
    exact List.filterMap_congr fun a _ => ArgumentText.ofLine?_render a
  have hopen : ArgumentText.ofLine? (indented 1 ("public static From" ++ methodSuffix target ++
    "(data: any): " ++ m.name.text ++ " \x7b")) = none := rfl
  have hnew : ArgumentText.ofLine? (indented 2 ("return new " ++ m.name.text ++ "(")) = none := rfl
  have hend : ArgumentText.ofLine? (indented 2 ");") = none := rfl
  have hclose : ArgumentText.ofLine? (indented 1 "\x7d") = none := rfl
  unfold argumentsOf fromLines
  rw [List.filterMap_append, List.filterMap_append, hlines, List.filterMap_cons_none hopen,
    List.filterMap_cons_none hnew, List.filterMap_cons_none hend, List.filterMap_cons_none hclose]
  simp

/-- What the methods of a target do with the field at a position. -/
structure Agree (statements : List Assignment) (passed : List ArgumentText) (target : TagTarget)
    (i : ℕ) (f : Field) : Prop where
  /-- The field is stored under the key of its tag, unless the tag skips it. -/
  stored_iff_tagged (key : Text) :
    (∃ a ∈ statements, a.field = f.name ∧ a.key = key) ↔
      ∃ tag ∈ f.tags, tag.target = target ∧ tag.isSkipped = false ∧ tag.key = key
  /-- The key under which the field is stored is the one that is read for it. -/
  stored_iff_read (key : Text) :
    (∃ a ∈ statements, a.field = f.name ∧ a.key = key) ↔
      ∃ fallback, passed[i]? = some (.read key fallback)
  /-- A statement is guarded exactly if the tag is nullable. -/
  guarded_iff (a : Assignment) (ha : a ∈ statements) (hfield : a.field = f.name) (tag : Tag)
    (htag : tag ∈ f.tags) (htarget : tag.target = target) :
    a.guarded = true ↔ tag.nullable = true
  /-- There is a fallback exactly if the type or the tag is nullable. -/
  fallback_iff (key : Text) (fallback : Option Text)
    (hread : passed[i]? = some (.read key fallback)) (tag : Tag) (htag : tag ∈ f.tags)
    (htarget : tag.target = target) :
    fallback.isSome = true ↔ f.type.nullable = true ∨ tag.nullable = true

theorem exists_mem_assignments_iff (hnames : (m.fields.map Field.name).Nodup) (hf : f ∈ m.fields)
    {key : Text} :
    (∃ a ∈ assignments m target, a.field = f.name ∧ a.key = key) ↔
      ∃ tag, activeTag? target f = some tag ∧ tag.key = key := by
  constructor
  · rintro ⟨a, ha, hname, rfl⟩
    obtain ⟨tag, htag, rfl⟩ := (mem_assignments_iff hnames hf).mp ⟨ha, hname⟩
    exact ⟨tag, htag, rfl⟩
  · rintro ⟨tag, htag, rfl⟩
    obtain ⟨ha, hname⟩ := (mem_assignments_iff hnames hf).mpr ⟨tag, htag, rfl⟩
    exact ⟨_, ha, hname, rfl⟩

theorem text_argument_eq_read_iff {key : Text} {fallback : Option Text} :
    (Argument.ofField target f).text = .read key fallback ↔
      ∃ tag, activeTag? target f = some tag ∧ tag.key = key ∧
        (if f.type.nullable then some Default.null
          else if tag.nullable then some (Default.ofType f.type) else none).map Default.render =
            fallback := by
  cases htag : activeTag? target f with
  | none =>
    rw [Argument.ofField, htag]
    simp [Argument.text]
  | some tag =>
    rw [argument_eq_read htag]
    simp [Argument.text]

theorem eq_of_activeTag? (hnodup : (f.tags.map Tag.target).Nodup) {tag other : Tag}
    (hactive : activeTag? target f = some tag) (hmem : other ∈ f.tags)
    (htarget : other.target = target) : tag = other := by
  obtain ⟨htag, rfl, -⟩ := (activeTag?_eq_some_iff hnodup).mp hactive
  exact List.inj_on_of_nodup_map hnodup htag hmem htarget.symm

theorem agree_of_nodup {i : ℕ} (hnames : (m.fields.map Field.name).Nodup)
    (htags : (f.tags.map Tag.target).Nodup) (hf : m.fields[i]? = some f) :
    Agree (assignments m target) ((arguments m target).map Argument.text) target i f := by
  have hmem := List.mem_of_getElem? hf
  have hargument (a : ArgumentText) : ((arguments m target).map Argument.text)[i]? = some a ↔
      (Argument.ofField target f).text = a := by
    rw [arguments, List.map_map, List.getElem?_map, hf, Option.map_some, Option.some.injEq]
    rfl
  refine ⟨fun key => ?_, fun key => ?_, ?_, ?_⟩
  · rw [exists_mem_assignments_iff hnames hmem]
    simp only [activeTag?_eq_some_iff htags, and_assoc]
  · rw [exists_mem_assignments_iff hnames hmem]
    simp only [hargument, text_argument_eq_read_iff]
    constructor
    · rintro ⟨tag, htag, hkey⟩
      exact ⟨_, tag, htag, hkey, rfl⟩
    · rintro ⟨-, tag, htag, hkey, -⟩
      exact ⟨tag, htag, hkey⟩
  · intro a ha hfield tag htag htarget
    obtain ⟨active, hactive, rfl⟩ := (mem_assignments_iff hnames hmem).mp ⟨ha, hfield⟩
    rw [eq_of_activeTag? htags hactive htag htarget]
  · intro key fallback hread tag htag htarget
    obtain ⟨active, hactive, -, rfl⟩ := text_argument_eq_read_iff.mp ((hargument _).mp hread)
    rw [eq_of_activeTag? htags hactive htag htarget]
    cases f.type.nullable <;> cases tag.nullable <;> simp

/-- A class has a writing and a reading method for each of its targets. The reading method
passes one argument for each parameter of the constructor, the writing method stores a field
at most once, in the order of the fields, and the two agree about the field at each position. -/
theorem methods_agree (hnames : (m.fields.map Field.name).Nodup)
    (htags : ∀ f ∈ m.fields, (f.tags.map Tag.target).Nodup) (htarget : target ∈ m.targets) :
    toLines m target ∈ sections m ∧ fromLines m target ∈ sections m ∧
      (constructorLines m).head? = some (indented 1 ("constructor(" ++ Text.joined ", "
        (m.fields.map fun f => f.name.text ++ ": " ++ renderType f.type) ++ ") \x7b")) ∧
      (argumentsOf (fromLines m target)).length = m.fields.length ∧
      ((statementsOf (toLines m target)).map Assignment.field).Nodup ∧
      ((statementsOf (toLines m target)).map Assignment.field).Sublist
        (m.fields.map Field.name) ∧
      ∀ i f, m.fields[i]? = some f →
        Agree (statementsOf (toLines m target)) (argumentsOf (fromLines m target)) target i f := by
  obtain ⟨hto, hfrom⟩ := mem_sections htarget
  have hsublist := sublist_field_assignments m target
  rw [statementsOf_toLines, argumentsOf_fromLines]
  refine ⟨hto, hfrom, rfl, ?_, hsublist.nodup hnames, hsublist, ?_⟩
  · rw [arguments, List.length_map, List.length_map]
  · intro i f hf
    exact agree_of_nodup hnames (htags f (List.mem_of_getElem? hf)) hf

/-- Tags that are missing, skipped, nullable and plain, in front of nullable and other types. -/
theorem methods_agree_mixed :
    let json : TagTarget := ⟨"json", rfl⟩
    let id : Field := ⟨⟨"id", rfl⟩, .primitive .integer false, [⟨json, false, ["i", "x"]⟩]⟩
    let note : Field := ⟨⟨"note", rfl⟩, .primitive .string false, []⟩
    let age : Field := ⟨⟨"age", rfl⟩, .primitive .integer true, [⟨json, true, ["a"]⟩]⟩
    let sets : Field := ⟨⟨"sets", rfl⟩, .list (.primitive .long false) false,
      [⟨⟨"db", rfl⟩, false, ["s"]⟩, ⟨json, true, ["the sets"]⟩]⟩
    let last : Field := ⟨⟨"last", rfl⟩, .primitive .bool true, [⟨json, false, ["l"]⟩]⟩
    let hidden : Field := ⟨⟨"hidden", rfl⟩, .primitive .bool false, [⟨json, false, ["-"]⟩]⟩
    let m : Model := ⟨⟨"User", rfl⟩, [id, note, age, sets, last, hidden]⟩
    (m.fields.map Field.name).Nodup ∧ (∀ f ∈ m.fields, (f.tags.map Tag.target).Nodup) ∧
      json ∈ m.targets ∧
      statementsOf (toLines m json) =
        [⟨"i", id.name, false⟩, ⟨"a", age.name, true⟩, ⟨"the sets", sets.name, true⟩,
          ⟨"l", last.name, false⟩] ∧
      argumentsOf (fromLines m json) =
        [.read "i" none, .constant "\"\"", .read "a" (some "null"),
          .read "the sets" (some "[]"), .read "l" (some "null"), .constant "false"] ∧
      Agree (statementsOf (toLines m json)) (argumentsOf (fromLines m json)) json 3 sets := by
  intro json id note age sets last hidden m
  have hnames : (m.fields.map Field.name).Nodup := by decide +kernel
  have htags : ∀ f ∈ m.fields, (f.tags.map Tag.target).Nodup := by decide +kernel
  have htarget : json ∈ m.targets := by decide +kernel
  obtain ⟨-, -, -, -, -, -, hagree⟩ := methods_agree hnames htags htarget
  exact ⟨hnames, htags, htarget, by decide +kernel, by decide +kernel, hagree 3 sets rfl⟩

end TypeScript

end ClassSchema
