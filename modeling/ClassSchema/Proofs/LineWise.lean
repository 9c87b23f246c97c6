import ClassSchema.Proofs.Text
import ClassSchema.Source.Document
import Mathlib.Data.List.ReduceOption

/-!
# A file is read line by line

The reader of a file goes through the lines once and remembers the names it has
seen. This module says what comes out without that loop: the lines are the
pieces between newlines, the header is a class name among white space, perhaps
with a colon, every field line has at most one fault, which depends on the line
itself and on the names of the lines before it, and the model has the fields of
all lines when there is no fault.
-/

namespace ClassSchema

theorem Text.lineInduction {motive : Text → Prop} (last : ∀ l, '\n' ∉ l → motive l)
    (line : ∀ l rest, '\n' ∉ l → motive rest → motive (l ++ '\n' :: rest)) (t : Text) :
    motive t := by
  obtain ⟨n, hn⟩ : ∃ n, t.length = n := ⟨_, rfl⟩
  induction n using Nat.strong_induction_on generalizing t with
  | _ n ih =>
    by_cases h : '\n' ∈ t
    · obtain ⟨l, rest, rfl, hl⟩ := List.eq_append_cons_of_mem h
      refine line l rest hl (ih rest.length ?_ rest rfl)
      rw [List.length_append, List.length_cons] at hn
      omega
    · exact last t h

namespace SourceLine

/-- Number of bytes in front of the piece `i`: the earlier pieces, each with its newline. -/
def startOf (pieces : List Text) (i : ℕ) : ℕ :=
  ((pieces.take i).map fun piece => piece.byteLength + 1).sum

/-- The lines of a text that hold more than white space, each without the ends of
line behind it and with the offset of its first byte. -/
def contentLines (source : Text) : List SourceLine :=
  let pieces := Text.splitOn '\n' source
  (pieces.mapIdx fun i piece => ⟨startOf pieces i, Text.dropEndWhile isLineEnd piece⟩).filter
    fun line => !Text.isAllBlank line.text

theorem dropEndWhile_append_newline (l : Text) :
    Text.dropEndWhile isLineEnd (l ++ ['\n']) = Text.dropEndWhile isLineEnd l :=
  List.rdropWhile_concat_pos _ _ _ rfl

/-- The walk over raw lines gives the pieces between newlines, up to a blank last one. -/
theorem filter_place_rawLines (offset : ℕ) (t : Text) :
    (place offset (rawLines t)).filter (fun line => !Text.isAllBlank line.text) =
      ((Text.splitOn '\n' t).mapIdx fun i piece =>
        (⟨offset + startOf (Text.splitOn '\n' t) i, Text.dropEndWhile isLineEnd piece⟩ :
          SourceLine)).filter fun line => !Text.isAllBlank line.text := by
  induction t using Text.lineInduction generalizing offset with
  | last l hl =>
    rw [Text.splitOn_eq, List.splitOn_eq_singleton hl]
    by_cases hne : l = []
    · subst hne
      simp [rawLines, place, Text.dropEndWhile, Text.isAllBlank]
    · rw [rawLines_of_not_mem hl hne]
      rfl
  | line l rest hl ih =>
    have hsplit : Text.splitOn '\n' (l ++ '\n' :: rest) = l :: Text.splitOn '\n' rest := by
      rw [Text.splitOn_eq, List.splitOn_append_cons_self_of_not_mem hl, Text.splitOn_eq]
    have hstart : ∀ i, offset + startOf (l :: Text.splitOn '\n' rest) (i + 1) =
        offset + (l ++ ['\n']).byteLength + startOf (Text.splitOn '\n' rest) i := by
      intro i
      have hnewline : '\n'.utf8Size = 1 := by decide
      simp only [startOf, List.take_succ_cons, List.map_cons, List.sum_cons,
        Text.byteLength_append, Text.byteLength_cons, Text.byteLength_nil, hnewline]
      omega
    rw [rawLines_append_newline hl, hsplit, place, List.mapIdx_cons, List.filter_cons,
      List.filter_cons, ih, dropEndWhile_append_newline]
    simp only [hstart]
    rfl

theorem relevant_eq_contentLines (source : Text) : relevant source = contentLines source := by
  rw [relevant, all, filter_place_rawLines]
  simp [contentLines]

end SourceLine

/-- The names of the fields that the lines declare; a line with a fault declares none. -/
def declaredNames (strict : Bool) (lines : List SourceLine) : List FieldName :=
  lines.filterMap fun line => (Field.read strict line.text).toOption.map Field.name

/-- What is wrong with a field line behind the lines `earlier`: its own fault, or
that its field has the name of a field declared there. -/
def faultBehind? (strict : Bool) (earlier : List SourceLine) (line : SourceLine) : Option Fault :=
  match Field.read strict line.text with
  | .error fault => some (fault.shifted line.offset)
  | .ok field =>
    if field.name ∈ declaredNames strict earlier then
      some (.violation (.repeatedField field.name.text) (Span.ofText line.offset line.text))
    else none

def fieldFaults (strict : Bool) (lines : List SourceLine) : List Fault :=
  (lines.mapIdx fun i line => faultBehind? strict (lines.take i) line).reduceOption

def headerFaults (header : SourceLine) : List Fault :=
  match SourceLine.readHeader header.text with
  | .error fault => [fault.shifted header.offset]
  | .ok _ => []

theorem declaredNames_concat (strict : Bool) (earlier : List SourceLine) (line : SourceLine) :
    declaredNames strict (earlier ++ [line]) =
      declaredNames strict earlier ++
        ((Field.read strict line.text).toOption.map Field.name).toList := by
  rw [declaredNames, List.filterMap_append, declaredNames]
  cases h : (Field.read strict line.text).toOption <;> simp [h]

namespace FieldList

variable {strict : Bool} {seen : List FieldName} {line : SourceLine} {lines : List SourceLine}

/-- The loop reports what is wrong with each line, as long as it has seen the
names that the lines before declare. -/
theorem ofLines_faults (earlier : List SourceLine)
    (hseen : ∀ name, name ∈ seen ↔ name ∈ declaredNames strict earlier) :
    (ofLines strict seen lines).faults =
      (lines.mapIdx fun i line =>
        faultBehind? strict (earlier ++ lines.take i) line).reduceOption := by
  induction lines generalizing seen earlier with
  | nil => rfl
  | cons line lines ih =>
    have hstep : ∀ seen' : List FieldName,
        (∀ name, name ∈ seen' ↔ name ∈ declaredNames strict (earlier ++ [line])) →
        (ofLines strict seen' lines).faults =
          (lines.mapIdx fun i next =>
            faultBehind? strict (earlier ++ (line :: lines).take (i + 1)) next).reduceOption := by
      intro seen' hseen'
      rw [ih _ hseen']
      simp
    have hconcat := declaredNames_concat strict earlier line
    rw [List.mapIdx_cons, List.take_zero, List.append_nil]
    cases hread : Field.read strict line.text with
    | error fault =>
      have hnames : declaredNames strict (earlier ++ [line]) = declaredNames strict earlier := by
        simpa [hread, Except.toOption] using hconcat
      have hfault : faultBehind? strict earlier line = some (fault.shifted line.offset) := by
        simp [faultBehind?, hread]
      rw [ofLines_cons_of_error hread, hfault, List.reduceOption_cons_of_some,
        ← hstep seen (by simpa [hnames] using hseen)]
    | ok field =>
      have hnames : declaredNames strict (earlier ++ [line]) =
          declaredNames strict earlier ++ [field.name] := by
        simpa [hread, Except.toOption] using hconcat
      by_cases hmem : field.name ∈ seen
      · have hfault : faultBehind? strict earlier line = some
            (.violation (.repeatedField field.name.text) (Span.ofText line.offset line.text)) := by
          simp [faultBehind?, hread, (hseen field.name).mp hmem]
        rw [ofLines_cons_of_mem hread hmem, hfault, List.reduceOption_cons_of_some, ← hstep seen]
        intro name
        rw [hnames, List.mem_append, List.mem_singleton, ← hseen]
        exact ⟨Or.inl, fun h => h.elim id fun heq => heq ▸ hmem⟩
      · have hfault : faultBehind? strict earlier line = none := by
          simp [faultBehind?, hread, ← hseen, hmem]
        rw [ofLines_cons_of_not_mem hread hmem, hfault, List.reduceOption_cons_of_none,
          ← hstep (field.name :: seen)]
        intro name
        rw [hnames, List.mem_append, List.mem_singleton, ← hseen, List.mem_cons]
        exact or_comm

theorem ofLines_faults_nil (strict : Bool) (lines : List SourceLine) :
    (ofLines strict [] lines).faults = fieldFaults strict lines :=
  ofLines_faults [] (by simp [declaredNames])

/-- The fields that are kept differ in their names, also from those seen before. -/
theorem nodup_names (strict : Bool) (seen : List FieldName) (lines : List SourceLine) :
    ((ofLines strict seen lines).fields.map Field.name).Nodup ∧
      ∀ field ∈ (ofLines strict seen lines).fields, field.name ∉ seen := by
  induction lines generalizing seen with
  | nil => simp [ofLines]
  | cons line lines ih =>
    cases hread : Field.read strict line.text with
    | error fault =>
      rw [ofLines_cons_of_error hread]
      exact ih seen
    | ok field =>
      by_cases hmem : field.name ∈ seen
      · rw [ofLines_cons_of_mem hread hmem]
        exact ih seen
      · obtain ⟨hnodup, hfresh⟩ := ih (field.name :: seen)
        simp only [List.mem_cons, not_or] at hfresh
        rw [ofLines_cons_of_not_mem hread hmem, List.map_cons, List.nodup_cons,
          List.forall_mem_cons]
        refine ⟨⟨?_, hnodup⟩, hmem, fun f hf => (hfresh f hf).2⟩
        intro hname
        obtain ⟨f, hf, heq⟩ := List.mem_map.mp hname
        exact (hfresh f hf).1 heq

/-- Lines that can all be read and declare different names are kept as they are. -/
theorem ofLines_of_map_read {fields : List Field}
    (h : lines.map (fun line => Field.read strict line.text) = fields.map .ok)
    (hnodup : (fields.map Field.name).Nodup) (hfresh : ∀ field ∈ fields, field.name ∉ seen) :
    (ofLines strict seen lines).faults = [] ∧ (ofLines strict seen lines).fields = fields := by
  induction lines generalizing seen fields with
  | nil =>
    cases fields with
    | nil => exact ⟨rfl, rfl⟩
    | cons field fields => simp at h
  | cons line lines ih =>
    cases fields with
    | nil => simp at h
    | cons field fields =>
      obtain ⟨hread, hrest⟩ := List.cons.inj h
      obtain ⟨hname, hnodup⟩ := List.nodup_cons.mp hnodup
      obtain ⟨hseen, hfresh⟩ := List.forall_mem_cons.mp hfresh
      have hfresh' : ∀ f ∈ fields, f.name ∉ field.name :: seen := by
        intro f hf hmem
        rcases List.mem_cons.mp hmem with heq | hmem
        · exact hname (List.mem_map.mpr ⟨f, hf, heq⟩)
        · exact hfresh f hf hmem
      obtain ⟨hfaults, hfields⟩ := ih hrest hnodup hfresh'
      rw [ofLines_cons_of_not_mem hread hseen]
      exact ⟨hfaults, congrArg (field :: ·) hfields⟩

end FieldList

namespace SourceLine

variable {line word : Text} {name : ClassName}

/-- What a header names the class by: its text up to white space around it and a final colon. -/
def headerName (line : Text) : Text :=
  Text.trimEnd ((Text.withoutEnding? ":" (Text.trim line)).getD (Text.trim line))

theorem readHeader_eq (line : Text) :
    readHeader line =
      if (headerName line).isEmpty then
        .error (.missingClassName
          (Span.ofText (Text.leadingBlanks line).byteLength (Text.trim line)))
      else (ClassName.ofText (headerName line)).mapError fun cause =>
        .violation cause (Span.ofText (Text.leadingBlanks line).byteLength (Text.trim line)) :=
  rfl

theorem readHeader_eq_ok_iff_headerName :
    readHeader line = .ok name ↔ headerName line = name.text := by
  rw [readHeader_eq, ← ClassName.ofText_eq_ok_iff]
  by_cases hempty : headerName line = []
  · simp [hempty, ClassName.ofText, isBareWord]
  · rw [if_neg (by simpa using hempty)]
    cases ClassName.ofText (headerName line) <;> simp [Except.mapError]

theorem headerName_of_colon {lead gap trail : Text} (hword : isBareWord word = true)
    (hlead : ∀ c ∈ lead, Text.isBlank c = true) (hgap : ∀ c ∈ gap, Text.isBlank c = true)
    (htrail : ∀ c ∈ trail, Text.isBlank c = true) :
    headerName (lead ++ (word ++ (gap ++ [':'])) ++ trail) = word := by
  obtain ⟨hne, hblank⟩ := isBareWord_iff.mp hword
  have hends : (word ++ (gap ++ [':'])).EndsInWord := ⟨word ++ gap, ':', by simp, by decide⟩
  have hcut : Text.withoutEnding? ":" (word ++ (gap ++ [':'])) = some (word ++ gap) :=
    Text.withoutEnding?_eq_some_iff.mpr (List.append_assoc ..).symm
  rw [headerName, hends.trim_blanks_around (isBlank_head?_append hword _) hlead htrail, hcut,
    Option.getD_some, (Text.endsInWord_of_forall hne hblank).trimEnd_append_blanks hgap]

theorem headerName_of_no_colon {lead trail : Text} (hword : isBareWord word = true)
    (hcolon : word.getLast? ≠ some ':') (hlead : ∀ c ∈ lead, Text.isBlank c = true)
    (htrail : ∀ c ∈ trail, Text.isBlank c = true) :
    headerName (lead ++ (word ++ []) ++ trail) = word := by
  obtain ⟨hne, hblank⟩ := isBareWord_iff.mp hword
  have hends := Text.endsInWord_of_forall hne hblank
  have hcut : Text.withoutEnding? ":" word = none :=
    Text.withoutEnding?_eq_none_iff.mpr fun h => hcolon (Text.singleton_suffix_iff.mp h)
  have hhead := isBlank_head?_append hword []
  rw [List.append_nil] at hhead ⊢
  rw [headerName, hends.trim_blanks_around hhead hlead htrail, hcut, Option.getD_none,
    hends.trimEnd_eq]

/-- What a header may have around its name: white space on both sides, and at its end a colon
behind further white space. Without a colon the name has none at its end either. -/
theorem headerName_eq_iff (hword : isBareWord word = true) :
    headerName line = word ↔
      ∃ lead rest trail, line = lead ++ (word ++ rest) ++ trail ∧
        (∀ c ∈ lead, Text.isBlank c = true) ∧ (∀ c ∈ trail, Text.isBlank c = true) ∧
        ((rest = [] ∧ word.getLast? ≠ some ':') ∨
          ∃ gap, rest = gap ++ [':'] ∧ ∀ c ∈ gap, Text.isBlank c = true) := by
  constructor
  · intro h
    obtain ⟨lead, trail, hline, hlead, htrail⟩ := Text.exists_eq_append_trim line
    cases hcut : Text.withoutEnding? ":" (Text.trim line) with
    | some front =>
      rw [headerName, hcut, Option.getD_some] at h
      obtain ⟨gap, hfront, hgap⟩ := Text.exists_eq_trimEnd_append front
      have htrim : Text.trim line = word ++ (gap ++ [':']) := by
        rw [Text.withoutEnding?_eq_some_iff.mp hcut, ← List.append_assoc, ← h, ← hfront]
        rfl
      exact ⟨lead, gap ++ [':'], trail, htrim ▸ hline, hlead, htrail, .inr ⟨gap, rfl, hgap⟩⟩
    | none =>
      rw [headerName, hcut, Option.getD_none, Text.trim, Text.trimEnd_trimEnd] at h
      have htrim : Text.trim line = word ++ [] := by rw [Text.trim, h, List.append_nil]
      refine ⟨lead, [], trail, htrim ▸ hline, hlead, htrail, .inl ⟨rfl, ?_⟩⟩
      rw [Ne, ← Text.singleton_suffix_iff, ← h]
      exact Text.withoutEnding?_eq_none_iff.mp hcut
  · rintro ⟨lead, rest, trail, rfl, hlead, htrail, ⟨rfl, hcolon⟩ | ⟨gap, rfl, hgap⟩⟩
    · exact headerName_of_no_colon hword hcolon hlead htrail
    · exact headerName_of_colon hword hlead hgap htrail

theorem readHeader_eq_ok_iff :
    readHeader line = .ok name ↔
      ∃ lead rest trail, line = lead ++ (name.text ++ rest) ++ trail ∧
        (∀ c ∈ lead, Text.isBlank c = true) ∧ (∀ c ∈ trail, Text.isBlank c = true) ∧
        ((rest = [] ∧ name.text.getLast? ≠ some ':') ∨
          ∃ gap, rest = gap ++ [':'] ∧ ∀ c ∈ gap, Text.isBlank c = true) := by
  rw [readHeader_eq_ok_iff_headerName, headerName_eq_iff name.valid]

end SourceLine

namespace Model

variable {strict : Bool} {source : Text} {header : SourceLine} {lines : List SourceLine}

theorem read_of_contentLines_nil (h : SourceLine.contentLines source = []) :
    read strict source = .error [.missingClassName ⟨source.byteLength, source.byteLength⟩] := by
  rw [read, DocumentReading.ofSource, SourceLine.relevant_eq_contentLines, h]
  rfl

/-- The last check of the model for repeated names never fails. -/
theorem read_of_contentLines_cons (h : SourceLine.contentLines source = header :: lines) :
    read strict source =
      match SourceLine.readHeader header.text with
      | .error fault => .error (fault.shifted header.offset :: fieldFaults strict lines)
      | .ok name =>
        if fieldFaults strict lines = [] then
          .ok ⟨name, (FieldList.ofLines strict [] lines).fields⟩
        else .error (fieldFaults strict lines) := by
  have hfaults := FieldList.ofLines_faults_nil strict lines
  rw [read, DocumentReading.ofSource, SourceLine.relevant_eq_contentLines, h,
    DocumentReading.ofLines]
  cases SourceLine.readHeader header.text with
  | error fault => simp only [hfaults]
  | ok name =>
    simp only [hfaults, List.isEmpty_iff, make_eq_ok (FieldList.nodup_names strict [] lines).1]
    split_ifs <;> rfl

/-- When a file is read as a model. -/
theorem read_eq_ok_iff {m : Model} :
    read strict source = .ok m ↔
      ∃ header lines, SourceLine.contentLines source = header :: lines ∧
        SourceLine.readHeader header.text = .ok m.name ∧
        lines.map (fun line => Field.read strict line.text) = m.fields.map .ok ∧
        (m.fields.map Field.name).Nodup := by
  constructor
  · intro h
    cases hlines : SourceLine.contentLines source with
    | nil =>
      rw [read_of_contentLines_nil hlines] at h
      simp at h
    | cons header lines =>
      rw [read_of_contentLines_cons hlines] at h
      split at h
      · simp at h
      · next name hname =>
        split_ifs at h with hfaults
        cases h
        rw [← FieldList.ofLines_faults_nil] at hfaults
        exact ⟨header, lines, rfl, hname, FieldList.map_read_of_faults_eq_nil hfaults,
          (FieldList.nodup_names strict [] lines).1⟩
  · rintro ⟨header, lines, hlines, hname, hfields, hnodup⟩
    obtain ⟨hfaults, hkept⟩ := FieldList.ofLines_of_map_read hfields hnodup
      (fun _ _ => List.not_mem_nil)
    rw [FieldList.ofLines_faults_nil] at hfaults
    simp only [read_of_contentLines_cons hlines, hname, if_pos hfaults, hkept]

/-- Reading a file is reading its lines. A file of blank lines lacks a class name
at its end. Otherwise the faults are those of the header and of the field lines,
in this order; without any, the model has the name of the header and the field of
every further line. -/
theorem read_lineWise (strict : Bool) (source : Text) :
    (SourceLine.contentLines source = [] ∧
      read strict source = .error [.missingClassName ⟨source.byteLength, source.byteLength⟩]) ∨
    ∃ header lines, SourceLine.contentLines source = header :: lines ∧
      ((headerFaults header ++ fieldFaults strict lines ≠ [] ∧
        read strict source = .error (headerFaults header ++ fieldFaults strict lines)) ∨
      (headerFaults header ++ fieldFaults strict lines = [] ∧
        ∃ name fields, SourceLine.readHeader header.text = .ok name ∧
          lines.map (fun line => Field.read strict line.text) = fields.map .ok ∧
          read strict source = .ok ⟨name, fields⟩)) := by
  cases hlines : SourceLine.contentLines source with
  | nil => exact Or.inl ⟨rfl, read_of_contentLines_nil hlines⟩
  | cons header lines =>
    refine Or.inr ⟨header, lines, rfl, ?_⟩
    rw [read_of_contentLines_cons hlines, headerFaults]
    cases hheader : SourceLine.readHeader header.text with
    | error fault => exact Or.inl ⟨by simp, rfl⟩
    | ok name =>
      by_cases hnil : fieldFaults strict lines = []
      · have hfaults := (FieldList.ofLines_faults_nil strict lines).trans hnil
        exact Or.inr ⟨hnil, name, _, rfl, FieldList.map_read_of_faults_eq_nil hfaults, if_pos hnil⟩
      · exact Or.inl ⟨hnil, if_neg hnil⟩

end Model

end ClassSchema
