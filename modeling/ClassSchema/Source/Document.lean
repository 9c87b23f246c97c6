import ClassSchema.Source.Line

/-!
# Schema files

The first line that is not blank names the class; each further one declares a
field. All faults are collected in the order of the lines. A line with a fault
declares nothing, so it does not make a later field of the same name a
repetition.
-/

namespace ClassSchema

/-- A line of a file with the byte offset of its beginning. -/
structure SourceLine where
  offset : Nat
  text : Text
deriving DecidableEq, Repr

/-- What reading a file gives, and what it passed over. -/
structure DocumentReading where
  result : Except (List Fault) Model
  notices : List Notice

namespace SourceLine

def isLineEnd (c : Char) : Bool := c == '\n' || c == '\r'

/-- The lines of a text, each with its end of line. -/
def rawLines : Text → List Text
  | [] => []
  | c :: t =>
    if c = '\n' then [c] :: rawLines t
    else Text.consHead c (rawLines t)

theorem rawLines_append_newline {l : Text} (h : '\n' ∉ l) (rest : Text) :
    rawLines (l ++ '\n' :: rest) = (l ++ ['\n']) :: rawLines rest := by
  induction l with
  | nil => simp [rawLines]
  | cons c l ih =>
    rw [List.mem_cons, not_or] at h
    rw [List.cons_append, rawLines, if_neg (Ne.symm h.1), ih h.2]
    rfl

theorem rawLines_of_not_mem {l : Text} (h : '\n' ∉ l) (hne : l ≠ []) : rawLines l = [l] := by
  induction l with
  | nil => exact absurd rfl hne
  | cons c l ih =>
    rw [List.mem_cons, not_or] at h
    rw [rawLines, if_neg (Ne.symm h.1)]
    by_cases hl : l = []
    · subst hl
      rfl
    · rw [ih h.2 hl]
      rfl

/-- Gives each line its offset, from that of the first one on, and takes off its
end of line. -/
def place (offset : Nat) : List Text → List SourceLine
  | [] => []
  | line :: lines =>
    ⟨offset, Text.dropEndWhile isLineEnd line⟩ :: place (offset + line.byteLength) lines

def all (source : Text) : List SourceLine := place 0 (rawLines source)

/-- The lines of a text that hold more than white space. -/
def relevant (source : Text) : List SourceLine :=
  (all source).filter fun line => !Text.isAllBlank line.text

/-- The class named by a header line; a final colon is optional. -/
def readHeader (line : Text) : Except Fault ClassName :=
  let trimmed := Text.trim line
  let span := Span.ofText (Text.leadingBlanks line).byteLength trimmed
  let name := Text.trimEnd ((Text.withoutEnding? ":" trimmed).getD trimmed)
  if name.isEmpty then .error (.missingClassName span)
  else (ClassName.ofText name).mapError fun cause => .violation cause span

end SourceLine

/-- The fields and the faults of a list of lines. -/
structure FieldList where
  fields : List Field
  faults : List Fault
  notices : List Notice

/-- Reads field lines, where fields with the names `seen` came before. -/
def FieldList.ofLines (strict : Bool) (seen : List FieldName) : List SourceLine → FieldList
  | [] => ⟨[], [], []⟩
  | line :: lines =>
    let reading := FieldReading.ofLine strict line.text
    match reading.result with
    | .error fault =>
      let more := ofLines strict seen lines
      ⟨more.fields, fault.shifted line.offset :: more.faults, reading.notices ++ more.notices⟩
    | .ok field =>
      if field.name ∈ seen then
        let more := ofLines strict seen lines
        let fault := .violation (.repeatedField field.name.text) (Span.ofText line.offset line.text)
        ⟨more.fields, fault :: more.faults, reading.notices ++ more.notices⟩
      else
        let more := ofLines strict (field.name :: seen) lines
        ⟨field :: more.fields, more.faults, reading.notices ++ more.notices⟩

theorem FieldList.ofLines_cons_of_error {strict : Bool} {seen : List FieldName}
    {line : SourceLine} {lines : List SourceLine} {fault : Fault}
    (h : Field.read strict line.text = .error fault) :
    ofLines strict seen (line :: lines) =
      ⟨(ofLines strict seen lines).fields,
        fault.shifted line.offset :: (ofLines strict seen lines).faults,
        (FieldReading.ofLine strict line.text).notices ++ (ofLines strict seen lines).notices⟩ := by
  have hresult : (FieldReading.ofLine strict line.text).result = .error fault := h
  simp only [ofLines, hresult]

theorem FieldList.ofLines_cons_of_mem {strict : Bool} {seen : List FieldName}
    {line : SourceLine} {lines : List SourceLine} {field : Field}
    (h : Field.read strict line.text = .ok field) (hmem : field.name ∈ seen) :
    ofLines strict seen (line :: lines) =
      ⟨(ofLines strict seen lines).fields,
        .violation (.repeatedField field.name.text) (Span.ofText line.offset line.text) ::
          (ofLines strict seen lines).faults,
        (FieldReading.ofLine strict line.text).notices ++ (ofLines strict seen lines).notices⟩ := by
  have hresult : (FieldReading.ofLine strict line.text).result = .ok field := h
  simp only [ofLines, hresult, if_pos hmem]

theorem FieldList.ofLines_cons_of_not_mem {strict : Bool} {seen : List FieldName}
    {line : SourceLine} {lines : List SourceLine} {field : Field}
    (h : Field.read strict line.text = .ok field) (hmem : field.name ∉ seen) :
    ofLines strict seen (line :: lines) =
      ⟨field :: (ofLines strict (field.name :: seen) lines).fields,
        (ofLines strict (field.name :: seen) lines).faults,
        (FieldReading.ofLine strict line.text).notices ++
          (ofLines strict (field.name :: seen) lines).notices⟩ := by
  have hresult : (FieldReading.ofLine strict line.text).result = .ok field := h
  simp only [ofLines, hresult, if_neg hmem]

/-- Without a fault, every line gave its field. -/
theorem FieldList.map_read_of_faults_eq_nil {strict : Bool} {seen : List FieldName}
    {lines : List SourceLine} (h : (ofLines strict seen lines).faults = []) :
    lines.map (fun line => Field.read strict line.text) =
      (ofLines strict seen lines).fields.map .ok := by
  induction lines generalizing seen with
  | nil => rfl
  | cons line lines ih =>
    cases hread : Field.read strict line.text with
    | error fault =>
      rw [ofLines_cons_of_error hread] at h
      simp at h
    | ok field =>
      by_cases hmem : field.name ∈ seen
      · rw [ofLines_cons_of_mem hread hmem] at h
        simp at h
      · rw [ofLines_cons_of_not_mem hread hmem] at h ⊢
        rw [List.map_cons, List.map_cons, hread, ih h]

/-- Every line gives a field or a fault. -/
theorem FieldList.length_faults_add_length_fields (strict : Bool) (seen : List FieldName)
    (lines : List SourceLine) :
    (ofLines strict seen lines).faults.length + (ofLines strict seen lines).fields.length =
      lines.length := by
  induction lines generalizing seen with
  | nil => rfl
  | cons line lines ih =>
    cases hread : Field.read strict line.text with
    | error fault =>
      have hrest := ih seen
      simp only [ofLines_cons_of_error hread, List.length_cons]
      omega
    | ok field =>
      by_cases hmem : field.name ∈ seen
      · have hrest := ih seen
        simp only [ofLines_cons_of_mem hread hmem, List.length_cons]
        omega
      · have hrest := ih (field.name :: seen)
        simp only [ofLines_cons_of_not_mem hread hmem, List.length_cons]
        omega

namespace DocumentReading

/-- Reads a file from its lines that are not blank. -/
def ofLines (strict : Bool) (source : Text) : List SourceLine → DocumentReading
  | [] =>
    let stop := source.byteLength
    ⟨.error [.missingClassName ⟨stop, stop⟩], []⟩
  | header :: lines =>
    let body := FieldList.ofLines strict [] lines
    match SourceLine.readHeader header.text with
    | .error fault => ⟨.error (fault.shifted header.offset :: body.faults), body.notices⟩
    | .ok name =>
      if body.faults.isEmpty then
        ⟨(Model.make name body.fields).mapError fun cause =>
          [.violation cause (Span.ofText 0 source)], body.notices⟩
      else ⟨.error body.faults, body.notices⟩

def ofSource (strict : Bool) (source : Text) : DocumentReading :=
  ofLines strict source (SourceLine.relevant source)

end DocumentReading

/-- The model of a schema file, or all of its faults. -/
def Model.read (strict : Bool) (source : Text) : Except (List Fault) Model :=
  (DocumentReading.ofSource strict source).result

end ClassSchema
