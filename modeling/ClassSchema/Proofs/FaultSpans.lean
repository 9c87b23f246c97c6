import ClassSchema.Proofs.LineFaults
import ClassSchema.Proofs.LineWise
import ClassSchema.Report

/-!
# Where faults point

The lines of a file stand in it one behind the other, divided by newlines, and
every fault points into the line it is about. So the spans of faults lie in the
source and increase without touching, and each covers the text that its fault is
about.
-/

namespace ClassSchema

namespace SourceLine

def span (line : SourceLine) : Span := Span.ofText line.offset line.text

theorem flatten_rawLines (t : Text) : (rawLines t).flatten = t := by
  induction t using Text.lineInduction with
  | last l hl =>
    by_cases hne : l = []
    · subst hne
      rfl
    · rw [rawLines_of_not_mem hl hne, List.flatten_singleton]
  | line l rest hl ih =>
    rw [rawLines_append_newline hl, List.flatten_cons, ih]
    simp

theorem place_covers (front : Text) (lines : List Text) :
    ∀ line ∈ place front.byteLength lines,
      line.span.Covers (front ++ lines.flatten) line.text := by
  induction lines generalizing front with
  | nil => simp [place]
  | cons l lines ih =>
    rw [place, List.forall_mem_cons, List.flatten_cons]
    constructor
    · obtain ⟨ending, hending⟩ := List.rdropWhile_prefix isLineEnd l
      refine ⟨front, ending ++ lines.flatten, ?_, rfl⟩
      rw [List.append_assoc, ← List.append_assoc (Text.dropEndWhile isLineEnd l)]
      exact congrArg (fun whole => front ++ (whole ++ lines.flatten)) hending.symm
    · rw [← Text.byteLength_append, ← List.append_assoc]
      exact ih (front ++ l)

theorem offset_le_of_mem_place {offset : ℕ} {lines : List Text} {line : SourceLine}
    (h : line ∈ place offset lines) : offset ≤ line.offset := by
  induction lines generalizing offset with
  | nil => simp [place] at h
  | cons l lines ih =>
    rcases List.mem_cons.mp h with rfl | h
    · exact le_rfl
    · exact (Nat.le_add_right _ _).trans (ih h)

theorem byteLength_dropEndWhile_le (p : Char → Bool) (t : Text) :
    (Text.dropEndWhile p t).byteLength ≤ t.byteLength := by
  obtain ⟨ending, hending⟩ := List.rdropWhile_prefix p t
  calc (Text.dropEndWhile p t).byteLength
      ≤ (Text.dropEndWhile p t).byteLength + Text.byteLength ending := Nat.le_add_right _ _
    _ = t.byteLength := by rw [← Text.byteLength_append]; exact congrArg Text.byteLength hending

theorem pairwise_place_rawLines (offset : ℕ) (t : Text) :
    (place offset (rawLines t)).Pairwise fun a b => a.span.stop < b.span.start := by
  induction t using Text.lineInduction generalizing offset with
  | last l hl =>
    by_cases hne : l = []
    · subst hne
      exact List.Pairwise.nil
    · rw [rawLines_of_not_mem hl hne]
      exact List.pairwise_singleton _ _
  | line l rest hl ih =>
    rw [rawLines_append_newline hl, place, dropEndWhile_append_newline]
    refine List.pairwise_cons.mpr ⟨fun line hline => ?_, ih _⟩
    have hnext := offset_le_of_mem_place hline
    have hlength := byteLength_dropEndWhile_le isLineEnd l
    have hnewline : '\n'.utf8Size = 1 := by decide
    simp only [Text.byteLength_append, Text.byteLength_cons, Text.byteLength_nil, hnewline] at hnext
    simp only [span, Span.ofText]
    omega

theorem covers_of_mem_contentLines {source : Text} {line : SourceLine}
    (h : line ∈ contentLines source) : line.span.Covers source line.text := by
  rw [← relevant_eq_contentLines] at h
  have hcovers := place_covers [] (rawLines source) line (List.mem_of_mem_filter h)
  rwa [flatten_rawLines] at hcovers

theorem pairwise_contentLines (source : Text) :
    (contentLines source).Pairwise fun a b => a.span.stop < b.span.start := by
  rw [← relevant_eq_contentLines]
  exact (pairwise_place_rawLines 0 source).filter _

end SourceLine

namespace Fault

def PointsInHeader (header : SourceLine) (part : Text) : Fault → Prop
  | missingClassName _ | violation (.className _) _ => part = Text.trim header.text
  | _ => False

/-- The fault of a field line points at the text that it quotes, at the second word of the
line, at a tag from its target on, or at the whole line. -/
def PointsInField (line : SourceLine) (part : Text) : Fault → Prop
  | malformedField text _ | trailingText text _ => part = text
  | malformedType _ span =>
    ∃ parts gap gap', FieldLine.Splits line.text parts gap gap' ∧ part = parts.type ∧
      span.start = line.offset + Text.byteLength (gap ++ parts.name ++ gap')
  | repeatedTag target _ => target <+: part
  | violation (.repeatedField _) _ => part = line.text
  | _ => False

/-- The span of the fault lies in the line and covers the part in the source. -/
structure Locates (source : Text) (line : SourceLine) (part : Text) (fault : Fault) : Prop where
  line_covers : line.span.Covers source line.text
  within : fault.span.Within line.span
  covers : fault.span.Covers source part

variable {source part : Text} {line : SourceLine} {fault : Fault}

theorem locates_shifted (hline : line.span.Covers source line.text)
    (h : fault.span.Covers line.text part) :
    (fault.shifted line.offset).Locates source line part := by
  refine ⟨hline, ?_, ?_⟩
  · rw [span_shifted]
    exact h.shifted_within line.offset
  · rw [span_shifted]
    exact h.shifted hline

theorem exists_locates_header (hline : line.span.Covers source line.text)
    (h : SourceLine.readHeader line.text = .error fault) :
    ∃ part, (fault.shifted line.offset).Locates source line part ∧
      (fault.shifted line.offset).PointsInHeader line part := by
  obtain ⟨span, rfl, hfault⟩ := SourceLine.readHeader_eq_error h
  refine ⟨Text.trim line.text, ?_, ?_⟩
  · apply locates_shifted hline
    rcases hfault with rfl | ⟨name, rfl⟩ <;> exact Span.covers_trim line.text
  · rcases hfault with rfl | ⟨name, rfl⟩ <;> rfl

theorem exists_locates_field (hline : line.span.Covers source line.text)
    (h : FieldLine.Fails line.text fault) :
    ∃ part, (fault.shifted line.offset).Locates source line part ∧
      (fault.shifted line.offset).PointsInField line part := by
  cases h with
  | tooShort hsplit =>
    exact ⟨_, locates_shifted hline (Span.covers_trim line.text), rfl⟩
  | malformedType hsplit inner =>
    obtain ⟨gap, gap', hsplits⟩ := FieldLine.split?_eq_some_iff.mp hsplit
    refine ⟨_, locates_shifted hline hsplits.covers_type, _, gap, gap', hsplits, rfl, ?_⟩
    simp only [Span.shifted, Span.ofText, hsplits.typeStart_eq, hsplits.nameStart_eq,
      Text.byteLength_append]
    omega
  | trailingText hsplit htrailing =>
    obtain ⟨gap, gap', hsplits⟩ := FieldLine.split?_eq_some_iff.mp hsplit
    have hcovers := (TagScan.scan_trailing_covers htrailing).shifted hsplits.covers_region
    exact ⟨_, locates_shifted hline hcovers, rfl⟩
  | repeatedTag hsplit hraw =>
    obtain ⟨gap, gap', hsplits⟩ := FieldLine.split?_eq_some_iff.mp hsplit
    obtain ⟨part, hpart, htarget⟩ := TagScan.scan_tags_covers _ _ hraw
    have hcovers := hpart.shifted hsplits.covers_region
    exact ⟨part, locates_shifted hline hcovers, htarget⟩

theorem exists_locates_faultBehind {strict : Bool} {earlier : List SourceLine}
    (hline : line.span.Covers source line.text)
    (h : faultBehind? strict earlier line = some fault) :
    ∃ part, fault.Locates source line part ∧ fault.PointsInField line part := by
  unfold faultBehind? at h
  cases hread : Field.read strict line.text with
  | error own =>
    simp only [hread, Option.some.injEq] at h
    subst h
    exact exists_locates_field hline (Field.read_fails hread)
  | ok field =>
    simp only [hread] at h
    split_ifs at h with hmem
    cases h
    exact ⟨line.text, ⟨hline, ⟨le_rfl, le_rfl⟩, hline⟩, rfl⟩

theorem Locates.lt_of_lines {source' part' : Text} {line' : SourceLine} {fault' : Fault}
    (h : fault.Locates source line part) (h' : fault'.Locates source' line' part')
    (hlines : line.span.stop < line'.span.start) : fault.span.stop < fault'.span.start :=
  lt_of_le_of_lt h.within.2 (lt_of_lt_of_le hlines h'.within.1)

end Fault

section Faults

variable {strict : Bool} {source : Text} {header : SourceLine} {lines : List SourceLine}
  {fault : Fault}

theorem exists_locates_of_mem_headerFaults (hheader : header.span.Covers source header.text)
    (h : fault ∈ headerFaults header) :
    ∃ part, fault.Locates source header part ∧ fault.PointsInHeader header part := by
  unfold headerFaults at h
  cases hread : SourceLine.readHeader header.text with
  | error own =>
    simp only [hread, List.mem_singleton] at h
    subst h
    exact Fault.exists_locates_header hheader hread
  | ok name => simp [hread] at h

theorem exists_locates_of_mem_fieldFaults
    (hlines : ∀ line ∈ lines, line.span.Covers source line.text)
    (h : fault ∈ fieldFaults strict lines) :
    ∃ line ∈ lines, ∃ part, fault.Locates source line part ∧ fault.PointsInField line part := by
  obtain ⟨i, hi, hfault⟩ := List.mem_mapIdx.mp (List.reduceOption_mem_iff.mp h)
  have hmem : lines[i] ∈ lines := List.getElem_mem hi
  exact ⟨lines[i], hmem, Fault.exists_locates_faultBehind (hlines _ hmem) hfault⟩

theorem pairwise_fieldFaults (hlines : ∀ line ∈ lines, line.span.Covers source line.text)
    (hpairwise : lines.Pairwise fun a b => a.span.stop < b.span.start) :
    (fieldFaults strict lines).Pairwise fun a b => a.span.stop < b.span.start := by
  refine List.pairwise_filterMap.mpr (List.pairwise_iff_getElem.mpr ?_)
  -- Two faults of the list are those of two lines, of which the first comes earlier.
  intro i j hi hj hij a ha b hb
  rw [List.length_mapIdx] at hi hj
  rw [List.getElem_mapIdx] at ha hb
  obtain ⟨_, hlocates, -⟩ :=
    Fault.exists_locates_faultBehind (hlines _ (List.getElem_mem hi)) ha
  obtain ⟨_, hlocates', -⟩ :=
    Fault.exists_locates_faultBehind (hlines _ (List.getElem_mem hj)) hb
  exact hlocates.lt_of_lines hlocates' (List.pairwise_iff_getElem.mp hpairwise i j hi hj hij)

theorem pairwise_faults
    (hlines : ∀ line ∈ header :: lines, line.span.Covers source line.text)
    (hpairwise : (header :: lines).Pairwise fun a b => a.span.stop < b.span.start) :
    (headerFaults header ++ fieldFaults strict lines).Pairwise
      fun a b => a.span.stop < b.span.start := by
  obtain ⟨hheader, hfields⟩ := List.forall_mem_cons.mp hlines
  obtain ⟨hfirst, hrest⟩ := List.pairwise_cons.mp hpairwise
  refine List.pairwise_append.mpr ⟨?_, pairwise_fieldFaults hfields hrest, ?_⟩
  · unfold headerFaults
    split <;> simp
  · intro a ha b hb
    obtain ⟨_, hlocates, -⟩ := exists_locates_of_mem_headerFaults hheader ha
    obtain ⟨line, hline, _, hlocates', -⟩ := exists_locates_of_mem_fieldFaults hfields hb
    exact hlocates.lt_of_lines hlocates' (hfirst line hline)

end Faults

/-- The fault lies in the header or in one of the other lines, and covers the text that
it is about. -/
def Fault.IsLocated (source : Text) (header : SourceLine) (lines : List SourceLine)
    (fault : Fault) : Prop :=
  ∃ line part, fault.Locates source line part ∧
    (line = header ∧ fault.PointsInHeader line part ∨ line ∈ lines ∧ fault.PointsInField line part)

/-- The spans of the faults of a source can be relied on. -/
structure FaithfulSpans (source : Text) (faults : List Fault) : Prop where
  /-- A span lies in the source, with both ends between characters. -/
  inside : ∀ fault ∈ faults,
    (fault.span.start ≤ fault.span.stop ∧ fault.span.stop ≤ source.byteLength) ∧
      source.IsBoundary fault.span.start ∧ source.IsBoundary fault.span.stop
  /-- So does the label of a report, which is given by its beginning and its length. -/
  label_inside : ∀ fault ∈ faults,
    (Report.ofFault fault).span.start + (Report.ofFault fault).span.length ≤ source.byteLength
  /-- Spans increase and do not touch. -/
  increasing : faults.Pairwise fun a b => a.span.stop < b.span.start
  /-- A file of blank lines lacks a class name at its end; any other fault is located in
  a line that is not blank. -/
  located :
    (SourceLine.contentLines source = [] ∧
        faults = [.missingClassName ⟨source.byteLength, source.byteLength⟩]) ∨
      ∃ header lines, SourceLine.contentLines source = header :: lines ∧
        ∀ fault ∈ faults, fault.IsLocated source header lines

theorem Report.label_le {fault : Fault} {source part : Text}
    (h : fault.span.Covers source part) :
    (Report.ofFault fault).span.start + (Report.ofFault fault).span.length ≤
      source.byteLength := by
  have hstart := h.start_le_stop
  have hstop := h.stop_le
  rw [Report.span_ofFault, Span.length]
  omega

namespace Model

variable {strict : Bool} {source : Text} {faults : List Fault}

theorem faults_of_read_error {header : SourceLine} {lines : List SourceLine}
    (hlines : SourceLine.contentLines source = header :: lines)
    (h : read strict source = .error faults) :
    faults = headerFaults header ++ fieldFaults strict lines := by
  rw [read_of_contentLines_cons hlines] at h
  unfold headerFaults
  split at h
  · next own hheader =>
    cases h
    rfl
  · next name hheader =>
    split_ifs at h
    cases h
    rfl

theorem isLocated_of_mem {header : SourceLine} {lines : List SourceLine} {fault : Fault}
    (hcovers : ∀ line ∈ header :: lines, line.span.Covers source line.text)
    (h : fault ∈ headerFaults header ++ fieldFaults strict lines) :
    fault.IsLocated source header lines := by
  obtain ⟨hheader, hfields⟩ := List.forall_mem_cons.mp hcovers
  rcases List.mem_append.mp h with h | h
  · obtain ⟨part, hlocates, hpoints⟩ := exists_locates_of_mem_headerFaults hheader h
    exact ⟨header, part, hlocates, Or.inl ⟨rfl, hpoints⟩⟩
  · obtain ⟨line, hline, part, hlocates, hpoints⟩ := exists_locates_of_mem_fieldFaults hfields h
    exact ⟨line, part, hlocates, Or.inr ⟨hline, hpoints⟩⟩

/-- Whenever a file cannot be read, the spans of all of its faults are faithful. -/
theorem faithfulSpans_of_read_error (h : read strict source = .error faults) :
    FaithfulSpans source faults := by
  cases hlines : SourceLine.contentLines source with
  | nil =>
    rw [read_of_contentLines_nil hlines] at h
    cases h
    have hend : (Span.mk source.byteLength source.byteLength).Covers source [] :=
      ⟨source, [], by simp, rfl⟩
    refine ⟨?_, ?_, List.pairwise_singleton _ _, Or.inl ⟨hlines, rfl⟩⟩
    · exact List.forall_mem_singleton.mpr ⟨⟨hend.start_le_stop, hend.stop_le⟩, hend.isBoundary⟩
    · exact List.forall_mem_singleton.mpr (Report.label_le hend)
  | cons header lines =>
    obtain rfl := faults_of_read_error hlines h
    have hcovers : ∀ line ∈ header :: lines, line.span.Covers source line.text := by
      intro line hline
      exact SourceLine.covers_of_mem_contentLines (hlines ▸ hline)
    have hpairwise := SourceLine.pairwise_contentLines source
    rw [hlines] at hpairwise
    refine ⟨?_, ?_, pairwise_faults hcovers hpairwise,
      Or.inr ⟨header, lines, hlines, fun fault => isLocated_of_mem hcovers⟩⟩
    · intro fault hfault
      obtain ⟨line, part, ⟨-, -, hpart⟩, -⟩ := isLocated_of_mem hcovers hfault
      exact ⟨⟨hpart.start_le_stop, hpart.stop_le⟩, hpart.isBoundary⟩
    · intro fault hfault
      obtain ⟨line, part, ⟨-, -, hpart⟩, -⟩ := isLocated_of_mem hcovers hfault
      exact Report.label_le hpart

/-- A file with a fault in each of six lines, among characters of more than one byte. -/
theorem faithfulSpans_of_read_error_mixed :
    let source : Text :=
      "é b:\r\n  naïve\r\n\n ß map[int\n id int json:\"x\" json:\"y\"\n" ++
        " id int\n id long\n k int ü ?\n"
    ∃ faults, read true source = .error faults ∧
      faults.map Fault.span =
        [⟨0, 5⟩, ⟨9, 15⟩, ⟨22, 29⟩, ⟨47, 55⟩, ⟨64, 72⟩, ⟨80, 84⟩] ∧
      FaithfulSpans source faults := by
  intro source
  have hspans : (((read true source).map fun _ => []).tryCatch fun faults =>
      .ok (faults.map Fault.span)).toOption =
        some [⟨0, 5⟩, ⟨9, 15⟩, ⟨22, 29⟩, ⟨47, 55⟩, ⟨64, 72⟩, ⟨80, 84⟩] := by
    decide +kernel
  cases hread : read true source with
  | ok m => simp [hread, Except.map, Except.tryCatch, Except.toOption] at hspans
  | error faults =>
    refine ⟨faults, rfl, ?_, faithfulSpans_of_read_error hread⟩
    simpa [hread, Except.map, Except.tryCatch, Except.toOption] using hspans

end Model

end ClassSchema
