import ClassSchema.Proofs.Alignment
import ClassSchema.Proofs.ClassLines
import ClassSchema.Proofs.StructTypes

/-!
# The lines of a struct

A struct has a header, one line for each field, and a closing brace. The columns of types
and tags are known from the widths of all fields, so they are the same on every line.
Upper case makes no white space, hence every cell ends in a word, and cutting a line at
the columns gives back the cells that the unaligned line of the field is made of.
-/

namespace ClassSchema

variable {m : Model} {f : Field}

namespace Text

theorem isBlank_of_mem_upperOf {c d : Char} (hc : isBlank c = false) (hd : d ∈ upperOf c) :
    isBlank d = false := by
  -- Both tables are checked as they stand; the rest is which entry the character has.
  have hsequences : caseSequences.all (·.2.all fun n => !isBlank (Char.ofNat n)) = true := by
    decide +kernel
  have hruns : caseRuns.all (fun r => (List.range (r.last - r.first + 1)).all fun k =>
      !isBlank (Char.ofNat (r.upper + k))) = true := by
    decide +kernel
  unfold upperOf at hd
  cases hsequence : caseSequences.lookup c.toNat with
  | some sequence =>
    rw [hsequence] at hd
    obtain ⟨n, hn, rfl⟩ := List.mem_map.mp hd
    obtain ⟨front, rest, heq, -⟩ := List.lookup_eq_some_iff.mp hsequence
    have hmem := List.all_eq_true.mp hsequences (c.toNat, sequence) (by simp [heq])
    simpa using List.all_eq_true.mp hmem n hn
  | none =>
    rw [hsequence] at hd
    cases hrun : caseRuns.find? (·.covers c.toNat) with
    | some run =>
      simp only [hrun] at hd
      obtain rfl := List.mem_singleton.mp hd
      have hcovers := List.find?_some hrun
      have hmem := List.all_eq_true.mp hruns run (List.mem_of_find?_eq_some hrun)
      have hoffset : c.toNat - run.first ∈ List.range (run.last - run.first + 1) := by
        simp only [CaseRun.covers, Bool.and_eq_true, decide_eq_true_eq] at hcovers
        rw [List.mem_range]
        omega
      simpa using List.all_eq_true.mp hmem _ hoffset
    | none =>
      simp only [hrun] at hd
      obtain rfl := List.mem_singleton.mp hd
      exact hc

theorem isBareWord_capitalized {t : Text} (h : isBareWord t = true) :
    isBareWord (capitalized t) = true := by
  obtain ⟨hne, hword⟩ := isBareWord_iff.mp h
  obtain ⟨c, t, rfl⟩ := List.exists_cons_of_ne_nil hne
  obtain ⟨hc, ht⟩ := List.forall_mem_cons.mp hword
  refine isBareWord_iff.mpr ⟨by simp [capitalized, upperOf_ne_nil], ?_⟩
  exact List.forall_mem_append.mpr ⟨fun d => isBlank_of_mem_upperOf hc, ht⟩

end Text

namespace Go

theorem isBareWord_exported (name : FieldName) : isBareWord (exported name) = true :=
  Text.isBareWord_capitalized name.valid

theorem endsInWord_exported (name : FieldName) : (exported name).EndsInWord := by
  obtain ⟨hne, hword⟩ := isBareWord_iff.mp (isBareWord_exported name)
  exact Text.endsInWord_of_forall hne hword

theorem newline_not_mem_exported (name : FieldName) : '\n' ∉ exported name :=
  Text.newline_not_mem_of_forall (isBareWord_iff.mp (isBareWord_exported name)).2

theorem endsInWord_renderType (t : FieldType) : (renderType t).EndsInWord := by
  induction t with
  | primitive p n =>
    have hne : keyword p ≠ [] := by cases p <;> decide
    have hplain : (keyword p).all (!Text.isBlank ·) = true := by cases p <;> decide
    have hword := Text.endsInWord_of_forall hne fun _ => Text.isBlank_eq_false_of_all hplain
    exact hword.append _
  | list element n ih => exact ih.append _
  | map key value n ihk ihv => exact ihv.append _
  | custom name ps n ih =>
    cases ps with
    | nil =>
      have hname := Text.endsInWord_of_forall name.text_ne_nil fun _ => name.isBlank_eq_false
      exact hname.append _
    | cons p ps => exact ⟨_, ']', rfl, by decide⟩

theorem newline_not_mem_renderType (t : FieldType) : '\n' ∉ renderType t := by
  have hpointer (n : Bool) : '\n' ∉ pointer n := by cases n <;> decide
  induction t with
  | primitive p n =>
    have hkeyword : '\n' ∉ keyword p := by cases p <;> decide
    exact List.not_mem_append (hpointer n) hkeyword
  | list element n ih => exact List.not_mem_append (by decide) ih
  | map key value n ihk ihv =>
    change '\n' ∉ ("map[" : Text) ++ renderType key ++ "]" ++ renderType value
    simp only [List.mem_append, ihk, ihv, or_false]
    decide
  | custom name ps n ih =>
    have hname := name.newline_not_mem
    cases ps with
    | nil => exact List.not_mem_append (hpointer n) hname
    | cons p ps =>
      obtain ⟨hp, hps⟩ := List.forall_mem_cons.mp ih
      have hmore : '\n' ∉ renderMore ps := by
        rw [renderMore_eq, List.mem_flatMap]
        rintro ⟨q, hq, hmem⟩
        exact List.not_mem_append (by decide) (hps q hq) hmem
      rw [renderType_custom_cons]
      simp only [List.mem_append, hpointer, hname, hp, hmore, or_false]
      decide

theorem endsInWord_renderTags {targets : List TagTarget} (h : targets ≠ []) (tags : List Tag) :
    (renderTags targets tags).EndsInWord := by
  rw [renderTags_eq h]
  exact ⟨'\x60' :: renderEntries targets tags, '\x60', rfl, by decide⟩

theorem newline_not_mem_renderTags {tags : List Tag} (targets : List TagTarget)
    (h : ∀ tag ∈ tags, tag.Writable) : '\n' ∉ renderTags targets tags := by
  by_cases htargets : targets = []
  · simp [renderTags, htargets]
  · simp [renderTags_eq htargets, newline_not_mem_renderEntries targets h]

def nameWidth (m : Model) : ℕ := Text.maxLength (m.fields.map fun f => exported f.name)

def typeWidth (m : Model) : ℕ := Text.maxLength (m.fields.map fun f => renderType f.type)

def nameColumn : ℕ := 4

def typeColumn (m : Model) : ℕ := nameColumn + nameWidth m + 1

def tagColumn (m : Model) : ℕ := typeColumn m + typeWidth m + 1

/-- What follows the type of a field on its line: nothing in a model without tags. -/
def ending (targets : List TagTarget) (width : ℕ) (f : Field) : Text :=
  if targets = [] then []
  else List.replicate (width - (renderType f.type).length + 1) ' ' ++ renderTags targets f.tags

theorem trimEnd_gap_renderTags (targets : List TagTarget) (width : ℕ) (f : Field) :
    Text.trimEnd (List.replicate (width - (renderType f.type).length + 1) ' ' ++
      renderTags targets f.tags) = ending targets width f := by
  unfold ending
  split_ifs with htargets
  · rw [renderTags, if_pos (by simpa using htargets), List.append_nil]
    exact List.rdropWhile_eq_nil_iff.mpr fun _ => Text.isBlank_of_mem_replicate
  · exact ((endsInWord_renderTags htargets f.tags).append _).trimEnd_eq

theorem line_ofField (targets : List TagTarget) (width width' : ℕ) (f : Field) :
    (Row.ofField targets f).line width width' =
      Text.padRight width (exported f.name) ++ " " ++ renderType f.type ++
        ending targets width' f := by
  let head : Text := Text.padRight width (exported f.name) ++ " "
  have hline : (Row.ofField targets f).line width width' =
      Text.trimEnd (head ++ renderType f.type ++
        (List.replicate (width' - (renderType f.type).length + 1) ' ' ++
          renderTags targets f.tags)) := by
    simp [Row.line, Row.ofField, Text.padRight, head, List.replicate_succ']
  rw [hline, ((endsInWord_renderType f.type).append head).trimEnd_append, trimEnd_gap_renderTags]

theorem renderField_eq_joined (targets : List TagTarget) (f : Field) :
    renderField targets f =
      Text.joined " " ([exported f.name, renderType f.type, renderTags targets f.tags].filter
        (!·.isEmpty)) := by
  have hname : exported f.name ≠ [] := (endsInWord_exported f.name).ne_nil
  have htype : renderType f.type ≠ [] := (endsInWord_renderType f.type).ne_nil
  rw [renderField, line_ofField, ending]
  split_ifs with htargets
  · simp [renderTags, htargets, hname, htype, Text.padRight, Text.joined_cons]
  · simp [renderTags_eq htargets, hname, htype, Text.padRight, Text.joined_cons]

def lead (m : Model) (f : Field) : Text :=
  "    " ++ Text.padRight (nameWidth m) (exported f.name) ++ " "

theorem lead_eq_padRight (m : Model) (f : Field) :
    lead m f = "    " ++ Text.padRight (nameWidth m) (exported f.name) ++ [' '] := rfl

/-- The line of a field in the struct of a model, without the newline. -/
def structLine (m : Model) (f : Field) : Text :=
  lead m f ++ (renderType f.type ++ ending m.targets (typeWidth m) f)

/-- The part of a line between two columns, without the padding at its end. -/
def cell (line : Text) (first last : ℕ) : Text := Text.trimEnd ((line.take last).drop first)

/-- A line cut at the columns of a struct, with one space between neighbouring cells. -/
def unpadded (m : Model) (line : Text) : Text :=
  Text.joined " " ([cell line nameColumn (typeColumn m), cell line (typeColumn m) (tagColumn m),
    line.drop (tagColumn m)].filter (!·.isEmpty))

/-- A line shows a field in the columns of the struct of a model. -/
structure Shows (m : Model) (f : Field) (line : Text) : Prop where
  name : ∃ rest : Text, line = "    " ++ exported f.name ++ rest ∧ rest.StartsBlank
  type : (renderType f.type).StandsAt line (typeColumn m)
  tags : m.targets ≠ [] → (renderTags m.targets f.tags).StandsAt line (tagColumn m)
  unpadded_eq : unpadded m line = renderField m.targets f

theorem cell_eq {before part after : Text} {n last : ℕ} (hpart : part.EndsInWord)
    (hle : before.length + part.length + n ≤ last)
    (hafter : after = [] ∨ before.length + part.length + n = last) :
    cell (before ++ part ++ List.replicate n ' ' ++ after) before.length last = part := by
  have htake : (before ++ part ++ List.replicate n ' ' ++ after).take last =
      before ++ (part ++ List.replicate n ' ') := by
    rw [List.append_assoc before]
    rcases hafter with rfl | hlast
    · rw [List.append_nil, List.take_of_length_le (by simpa [Nat.add_assoc] using hle)]
    · exact List.take_left' (by simpa [Nat.add_assoc] using hlast)
  rw [cell, htake, List.drop_left]
  exact hpart.trimEnd_append_blanks fun _ => Text.isBlank_of_mem_replicate

theorem lead_eq (m : Model) (f : Field) :
    lead m f = "    " ++ exported f.name ++
      List.replicate (nameWidth m - (exported f.name).length + 1) ' ' := by
  rw [lead_eq_padRight, Text.padRight, List.replicate_succ']
  simp only [List.append_assoc]

theorem name_startsLine (m : Model) (f : Field) : ∃ rest : Text,
    structLine m f = "    " ++ exported f.name ++ rest ∧ rest.StartsBlank := by
  refine ⟨_, by rw [structLine, lead_eq, List.append_assoc], ?_⟩
  rintro c ⟨⟩
  decide

section Lines

variable (hf : f ∈ m.fields)
include hf

theorem length_exported_le : (exported f.name).length ≤ nameWidth m :=
  Text.length_le_maxLength (List.mem_map_of_mem hf)

theorem length_renderType_le : (renderType f.type).length ≤ typeWidth m :=
  Text.length_le_maxLength (List.mem_map_of_mem hf)

theorem length_lead : (lead m f).length = typeColumn m := by
  have hname := length_exported_le hf
  have hindent : ("    " : Text).length = nameColumn := rfl
  rw [lead_eq, List.length_append, List.length_append, List.length_replicate, hindent, typeColumn]
  omega

theorem cell_name : cell (structLine m f) nameColumn (typeColumn m) = exported f.name := by
  have hindent : nameColumn = ("    " : Text).length := rfl
  have hcolumn := length_lead hf
  rw [lead_eq, List.length_append, List.length_append, List.length_replicate] at hcolumn
  rw [structLine, lead_eq, hindent]
  exact cell_eq (endsInWord_exported f.name) hcolumn.le (.inr hcolumn)

theorem length_lead_type :
    (lead m f).length + (renderType f.type).length +
      (typeWidth m - (renderType f.type).length + 1) = tagColumn m := by
  have htype := length_renderType_le hf
  rw [length_lead hf, tagColumn]
  omega

theorem cell_type :
    cell (structLine m f) (typeColumn m) (tagColumn m) = renderType f.type := by
  have hword := endsInWord_renderType f.type
  have hcolumn := length_lead_type hf
  rw [← length_lead hf, structLine, ending]
  split_ifs
  · have hle : (lead m f).length + (renderType f.type).length + 0 ≤ tagColumn m := by omega
    simpa using cell_eq hword hle (.inl rfl)
  · rw [← List.append_assoc, ← List.append_assoc]
    exact cell_eq hword hcolumn.le (.inr hcolumn)

theorem drop_tagColumn : (structLine m f).drop (tagColumn m) = renderTags m.targets f.tags := by
  have hcolumn := length_lead_type hf
  rw [structLine, ending]
  split_ifs with htargets
  · have hnil : renderTags m.targets f.tags = [] := by simp [renderTags, htargets]
    rw [List.append_nil, hnil, List.drop_eq_nil_iff, List.length_append]
    omega
  · rw [← List.append_assoc, ← List.append_assoc]
    exact List.drop_left' (by simpa [Nat.add_assoc] using hcolumn)

theorem unpadded_structLine : unpadded m (structLine m f) = renderField m.targets f := by
  rw [unpadded, cell_name hf, cell_type hf, drop_tagColumn hf, renderField_eq_joined]

theorem type_standsAt_typeColumn :
    (renderType f.type).StandsAt (structLine m f) (typeColumn m) := by
  refine ⟨"    " ++ Text.padRight (nameWidth m) (exported f.name),
    ending m.targets (typeWidth m) f, ?_, ?_, ?_⟩
  · rw [structLine, lead_eq_padRight, List.append_assoc, List.singleton_append]
  · rw [← length_lead hf, lead_eq_padRight]
    simp only [List.length_append, List.length_singleton]
  · unfold ending
    split_ifs
    · exact Text.startsBlank_nil
    · rintro c ⟨⟩
      decide

theorem tags_standAt_tagColumn (htargets : m.targets ≠ []) :
    (renderTags m.targets f.tags).StandsAt (structLine m f) (tagColumn m) := by
  refine ⟨lead m f ++ renderType f.type ++
    List.replicate (typeWidth m - (renderType f.type).length) ' ', [], ?_, ?_,
    Text.startsBlank_nil⟩
  · simp [structLine, ending, htargets, List.replicate_succ']
  · rw [← length_lead_type hf, List.length_append, List.length_append, List.length_replicate]
    rfl

theorem shows_structLine : Shows m f (structLine m f) :=
  ⟨name_startsLine m f, type_standsAt_typeColumn hf, tags_standAt_tagColumn hf,
    unpadded_structLine hf⟩

end Lines

theorem isWordLine_structLine (h : f.WellFormed) (m : Model) : (structLine m f).IsWordLine := by
  have hlead : '\n' ∉ lead m f := by
    simp [lead_eq, newline_not_mem_exported]
  have htags := newline_not_mem_renderTags m.targets h.writable
  have hending : '\n' ∉ ending m.targets (typeWidth m) f := by
    unfold ending
    split_ifs <;> simp [htags]
  refine ⟨?_, ?_⟩
  · simp [structLine, hlead, newline_not_mem_renderType, hending]
  · rw [structLine]
    unfold ending
    split_ifs with htargets
    · rw [List.append_nil]
      exact (endsInWord_renderType f.type).append _
    · exact (((endsInWord_renderTags htargets f.tags).append _).append _).append _

def structLines (m : Model) : List Text :=
  let header : Text := "type " ++ m.name.text ++ " struct \x7b"
  let closing : Text := "\x7d"
  header :: (m.fields.map (structLine m) ++ [closing])

theorem renderModel_eq_structLines (m : Model) :
    renderModel m = (structLines m).flatMap (· ++ ['\n']) := by
  have hnames : (rows m).map Row.name = m.fields.map fun f => exported f.name :=
    List.map_map
  have htypes : (rows m).map Row.type = m.fields.map fun f => renderType f.type :=
    List.map_map
  have hline : ∀ f : Field, fieldLine (nameWidth m) (typeWidth m) (Row.ofField m.targets f) =
      structLine m f ++ ['\n'] := by
    intro f
    rw [fieldLine, line_ofField, structLine, lead_eq_padRight]
    simp only [List.append_assoc]
    rfl
  have hlines : fieldLines (rows m) = (m.fields.map (structLine m)).flatMap (· ++ ['\n']) := by
    rw [fieldLines, hnames, htypes, rows, List.flatMap_map, List.flatMap_map]
    exact List.flatMap_congr fun f _ => hline f
  have hopen : (" struct \x7b\n" : Text) = (" struct \x7b" : Text) ++ ['\n'] := by decide
  have hclose : ("\x7d\n" : Text) = ("\x7d" : Text) ++ ['\n'] := by decide
  -- The literals are split so that the newline of a line stands apart from it.
  unfold renderModel structLines
  rw [hlines, hopen, hclose, List.flatMap_cons, List.flatMap_append, List.flatMap_singleton]
  simp only [List.append_assoc]

theorem isWordLine_structLines (h : m.WellFormed) : ∀ line ∈ structLines m, line.IsWordLine := by
  intro line hline
  simp only [structLines, List.mem_cons, List.mem_append, List.mem_map, List.not_mem_nil,
    or_false] at hline
  rcases hline with rfl | ⟨f, hf, rfl⟩ | rfl
  · refine ⟨?_, _, '\x7b', List.append_assoc _ (" struct " : Text) ['\x7b'] |>.symm, by decide⟩
    simp only [List.mem_append, m.name.newline_not_mem, or_false]
    decide
  · exact isWordLine_structLine (h.fields f hf) m
  · exact ⟨by decide, [], '\x7d', rfl, by decide⟩

/-- The struct of a model that was read has a header, one line for each field and a closing
brace, and no line ends in white space. The lines show the fields in their order: each begins
with the exported name, types begin at one column and tags at another, and without the padding
the line is that of the single field. -/
theorem generate_aligned {strict : Bool} {source code : Text}
    (hread : Model.read strict source = .ok m) (hcode : generate m = .ok code) :
    ∃ lines rows : List Text, code = lines.flatMap (· ++ ['\n']) ∧
      lines = ("type " ++ m.name.text ++ " struct \x7b" : Text) :: (rows ++ ["\x7d".toList]) ∧
      lines.length = m.fields.length + 2 ∧ (∀ line ∈ lines, line.IsWordLine) ∧
      List.Forall₂ (Shows m) m.fields rows := by
  have hmodel := Model.wellFormed_of_read hread
  refine ⟨structLines m, m.fields.map (structLine m), ?_, rfl, by simp [structLines],
    isWordLine_structLines hmodel, ?_⟩
  · obtain ⟨-, rfl⟩ := (Language.generate_eq_ok_iff .go).mp hcode
    exact renderModel_eq_structLines m
  · rw [List.forall₂_map_right_iff, List.forall₂_same]
    intro f hf
    exact shows_structLine hf

/-- A name that grows in upper case, a type with a space in it, nullable types and tags, and a
field without tags. -/
theorem generate_aligned_mixed :
    let source : Text := "Maß:\n  ßx map[string]Pair[int,bool]? json:\"a b\"\n" ++
      "  größe long? db?:\"c\"\n  n float[]?\n"
    let code : Text := "type Maß struct \x7b\n" ++
      "    SSx   map[string]Pair[int, bool] \x60json:\"a b\" db:\"-\"\x60\n" ++
      "    Größe *int64                     \x60db:\"c,omitempty\" json:\"-\"\x60\n" ++
      "    N     []float32                  \x60db:\"-\" json:\"-\"\x60\n\x7d\n"
    ∃ m, Model.read false source = .ok m ∧ generate m = .ok code ∧ m.targets ≠ [] ∧
      typeColumn m = 10 ∧ tagColumn m = 37 ∧
      ∃ lines rows : List Text, code = lines.flatMap (· ++ ['\n']) ∧ lines.length = 5 ∧
        (∀ line ∈ lines, line.IsWordLine) ∧ List.Forall₂ (Shows m) m.fields rows := by
  intro source code
  let json : TagTarget := ⟨"json", rfl⟩
  let db : TagTarget := ⟨"db", rfl⟩
  let pair : FieldType :=
    .custom ⟨"Pair", rfl⟩ [.primitive .integer false, .primitive .bool false] false
  let first : Field :=
    ⟨⟨"ßx", rfl⟩, .map (.primitive .string false) pair true, [⟨json, false, ["a b"]⟩]⟩
  let size : Field := ⟨⟨"größe", rfl⟩, .primitive .long true, [⟨db, true, ["c"]⟩]⟩
  let last : Field := ⟨⟨"n", rfl⟩, .list (.primitive .float false) true, []⟩
  let m : Model := ⟨⟨"Maß", rfl⟩, [first, size, last]⟩
  have hread : Model.read false source = .ok m := toOption_eq_some_iff.mp (by decide +kernel)
  have hcode : generate m = .ok code := toOption_eq_some_iff.mp (by decide +kernel)
  obtain ⟨lines, rows, hlines, -, hlength, hwords, hshows⟩ := generate_aligned hread hcode
  exact ⟨m, hread, hcode, by decide +kernel, by decide +kernel, by decide +kernel, lines, rows,
    hlines, hlength, hwords, hshows⟩

end Go

end ClassSchema
