import ClassSchema.Model
import ClassSchema.Source.Fault
import ClassSchema.Tag.Scan

/-!
# Field lines

A field line has a name, a type and a tag region. Text behind the tags is
refused in strict reading; otherwise it is ignored with a notice.
-/

namespace ClassSchema

/-- The type expression of a word, with its fault placed on the whole word. -/
def readType (text : Text) : Except Fault FieldType :=
  (FieldType.read text).mapError fun part => .malformedType part (Span.ofText 0 text)

/-- The parts of a field line with their byte offsets. -/
structure FieldLine where
  name : Text
  nameStart : Nat
  type : Text
  typeStart : Nat
  region : Text
  regionStart : Nat
deriving DecidableEq, Repr

/-- Something of a line that reading passed over. -/
structure Notice where
  field : FieldName
  ignored : Text
deriving DecidableEq

/-- What reading a line gives, and what it passed over. -/
structure FieldReading where
  result : Except Fault Field
  notices : List Notice

namespace FieldLine

/-- The parts of a line that has at least two words. -/
def split? (line : Text) : Option FieldLine := do
  let first ← Text.nextWord? line
  let second ← Text.nextWord? first.rest
  let nameStart := first.gap.byteLength
  let typeStart := nameStart + first.word.byteLength + second.gap.byteLength
  return {
    name := first.word
    nameStart
    type := second.word
    typeStart
    region := second.rest
    regionStart := typeStart + second.word.byteLength }

/-- The fault of a line with fewer than two words. -/
def tooShort (line : Text) : Fault :=
  .malformedField (Text.trim line)
    (Span.ofText (Text.leadingBlanks line).byteLength (Text.trim line))

def buildTag (raw : RawTag) : Except Violation Tag := do
  let target ← TagTarget.ofText raw.target
  Tag.make target raw.nullable (Text.splitOn ',' raw.values)

/-- The tags of a region that begins at an offset, where tags for the targets
`seen` came before. -/
def buildTags (regionStart : Nat) (seen : List Text) : List RawTag → Except Fault (List Tag)
  | [] => .ok []
  | raw :: raws =>
    if raw.target ∈ seen then .error (.repeatedTag raw.target (raw.span.shifted regionStart))
    else do
      let tag ← (buildTag raw).mapError fun cause =>
        .violation cause (raw.span.shifted regionStart)
      let tags ← buildTags regionStart (raw.target :: seen) raws
      return tag :: tags

/-- The field of a line whose name and type are known. -/
def buildField (parts : FieldLine) (line : Text) (name : FieldName) (type : FieldType)
    (raws : List RawTag) : Except Fault Field := do
  let tags ← buildTags parts.regionStart [] raws
  (Field.make name type tags).mapError fun cause => .violation cause (Span.ofText 0 line)

/-- The name and the type of a line. -/
def readHead (parts : FieldLine) : Except Fault (FieldName × FieldType) := do
  let name ← (FieldName.ofText parts.name).mapError fun cause =>
    .violation cause (Span.ofText parts.nameStart parts.name)
  let type ← (readType parts.type).mapError (·.shifted parts.typeStart)
  return (name, type)

def readParts (strict : Bool) (line : Text) (parts : FieldLine) : FieldReading :=
  match readHead parts with
  | .error fault => ⟨.error fault, []⟩
  | .ok (name, type) =>
    let scan := TagScan.scan parts.region
    match scan.trailing with
    | none => ⟨buildField parts line name type scan.tags, []⟩
    | some trailing =>
      if strict then
        ⟨.error (.trailingText trailing.text (trailing.span.shifted parts.regionStart)), []⟩
      else ⟨buildField parts line name type scan.tags, [⟨name, trailing.text⟩]⟩

/-- Without strictness, what trails behind the tags has no part in the result. -/
theorem result_readParts_lenient (parts : FieldLine) (line : Text) :
    (parts.readParts false line).result =
      readHead parts >>= fun head =>
        buildField parts line head.1 head.2 (TagScan.scan parts.region).tags := by
  unfold readParts
  cases readHead parts with
  | error fault => rfl
  | ok head =>
    cases hscan : (TagScan.scan parts.region).trailing <;> simp only [hscan] <;> rfl

end FieldLine

/-- Reads a field line; spans are relative to it. -/
def FieldReading.ofLine (strict : Bool) (line : Text) : FieldReading :=
  match FieldLine.split? line with
  | none => ⟨.error (FieldLine.tooShort line), []⟩
  | some parts => parts.readParts strict line

def Field.read (strict : Bool) (line : Text) : Except Fault Field :=
  (FieldReading.ofLine strict line).result

theorem Field.read_of_split? {line : Text} {parts : FieldLine}
    (h : FieldLine.split? line = some parts) (strict : Bool) :
    Field.read strict line = (parts.readParts strict line).result := by
  rw [Field.read, FieldReading.ofLine, h]

/-- The words of a field line without regard to their meaning: name, type, and
the target and values of each tag. A shorter line gives the words it has. -/
def fieldTokens (line : Text) : List Text :=
  match FieldLine.split? line with
  | none => Text.words line
  | some parts =>
    parts.name :: parts.type ::
      (TagScan.scan parts.region).tags.flatMap fun tag => [tag.target, tag.values]

end ClassSchema
