import ClassSchema.Source.Document

/-!
# Tidy form

The tidy form of a model puts names, types and tags in columns, one column for
each tag target. Widths count characters. A column in which some tag carries
the mark of a nullable tag keeps a place for it in every tag, so that the
colons stand below each other. A source is tidied by reading it, without
minding text behind tags, and printing the model.
-/

namespace ClassSchema

/-- The column of one tag target. -/
structure TagColumn where
  target : TagTarget
  /-- Tags without a mark have a space in its place. -/
  keepsMark : Bool
deriving DecidableEq

namespace TagColumn

/-- The cell of a field without a tag for the target. -/
def emptyCell : Text := "-"

/-- What stands between the target and the colon of a tag. -/
def marker (column : TagColumn) (tag : Tag) : Text :=
  if tag.nullable then "?" else if column.keepsMark then " " else ""

theorem newline_not_mem_marker (column : TagColumn) (tag : Tag) : '\n' ∉ column.marker tag := by
  unfold marker
  cases tag.nullable <;> cases column.keepsMark <;> decide

def tagCell (column : TagColumn) (tag : Tag) : Text :=
  tag.target.text ++ column.marker tag ++ ":\"" ++ tag.joinedValues ++ "\""

def cell (column : TagColumn) (field : Field) : Text :=
  match field.tagFor? column.target with
  | some tag => column.tagCell tag
  | none => emptyCell

/-- Only a field without a tag has an empty cell. -/
theorem cell_eq_emptyCell_iff {f : Field} {column : TagColumn} :
    column.cell f = emptyCell ↔ f.tagFor? column.target = none := by
  unfold cell
  cases f.tagFor? column.target with
  | none => simp
  | some tag =>
    have hquote : '"' ∈ column.tagCell tag := by simp [tagCell]
    refine iff_of_false (fun hcell => ?_) (by simp)
    have hcell : column.tagCell tag = emptyCell := hcell
    rw [hcell] at hquote
    exact absurd hquote (by decide)

/-- The cell of a tag is the tag with the marker of the column. -/
theorem cell_eq_of_tagFor? {f : Field} {column : TagColumn} {tag : Tag}
    (h : f.tagFor? column.target = some tag) :
    column.cell f =
      column.target.text ++ column.marker tag ++ ":\"" ++ tag.joinedValues ++ "\"" := by
  have htarget : tag.target = column.target := by simpa using List.find?_some h
  rw [cell, h, ← htarget]
  rfl

def width (column : TagColumn) (fields : List Field) : Nat :=
  Text.maxLength (fields.map column.cell)

end TagColumn

namespace Model

/-- The columns of a model, in the order of the targets. -/
def columns (m : Model) : List TagColumn :=
  m.targets.map fun target => ⟨target, m.hasNullableTag target⟩

end Model

/-- The widths of the columns of a table. -/
structure Layout where
  nameWidth : Nat
  typeWidth : Nat
  /-- The tag columns, each with its width. -/
  tags : List (TagColumn × Nat)
deriving DecidableEq

namespace Layout

/-- Every column is as wide as its longest cell. -/
def ofModel (m : Model) : Layout where
  nameWidth := Text.maxLength (m.fields.map (·.name.text))
  typeWidth := Text.maxLength (m.fields.map (·.type.render))
  tags := m.columns.map fun column => (column, column.width m.fields)

/-- A cell behind the gap that divides columns, filled up to the column's width. -/
def paddedCell (field : Field) (column : TagColumn × Nat) : Text :=
  "  " ++ Text.padRight column.2 (column.1.cell field)

/-- The line of a field before its end is trimmed. -/
def paddedLine (layout : Layout) (field : Field) : Text :=
  "  " ++ Text.padRight layout.nameWidth field.name.text ++ " " ++
    Text.padRight layout.typeWidth field.type.render ++ layout.tags.flatMap (paddedCell field)

/-- The line of a field, without white space at its end. -/
def line (layout : Layout) (field : Field) : Text :=
  Text.trimEnd (layout.paddedLine field) ++ "\n"

end Layout

def Model.print (m : Model) : Text :=
  let layout := Layout.ofModel m
  m.name.text ++ ":\n" ++ m.fields.flatMap layout.line

/-- The tidy form of a source, or the faults that keep it from being read. -/
def tidy (source : Text) : Except (List Fault) Text := (Model.read false source).map Model.print

theorem tidy_eq_ok_iff {source t : Text} :
    tidy source = .ok t ↔ ∃ m, Model.read false source = .ok m ∧ m.print = t := by
  unfold tidy
  cases Model.read false source with
  | error faults => simp [Except.map]
  | ok m => simp [Except.map]

theorem tidy_eq_error_iff {source : Text} {faults : List Fault} :
    tidy source = .error faults ↔ Model.read false source = .error faults := by
  unfold tidy
  cases Model.read false source <;> simp [Except.map]

end ClassSchema
