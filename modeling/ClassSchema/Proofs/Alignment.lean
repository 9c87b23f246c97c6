import ClassSchema.Proofs.Annotations

/-!
# Printed lines are aligned

The columns at which the parts of a printed line begin are known from the widths of the
layout alone, so they are the same for all fields. Every cell fits into its column, since
the columns are as wide as their longest cells, and trimming the end of a line takes away
nothing but padding, since every cell ends in a word.
-/

namespace ClassSchema

variable {f : Field} {m : Model}

namespace Text

variable {part row : Text} {column : ℕ}

/-- A part of a row begins at a column, with a space in front of it and white space or
nothing behind it. -/
def StandsAt (part row : Text) (column : ℕ) : Prop :=
  ∃ before after : Text, row = before ++ ' ' :: (part ++ after) ∧ before.length + 1 = column ∧
    after.StartsBlank

theorem startsBlank_trimEnd {t : Text} (h : t.StartsBlank) : (trimEnd t).StartsBlank := by
  intro c hc
  obtain ⟨rest, hrest⟩ : trimEnd t <+: t := List.rdropWhile_prefix _ _
  apply h
  rw [← hrest, List.head?_append]
  simp [Option.mem_def.mp hc]

theorem StandsAt.trimEnd (h : part.StandsAt row column) (hpart : part.EndsInWord) :
    part.StandsAt (trimEnd row) column := by
  obtain ⟨before, after, rfl, hcolumn, hafter⟩ := h
  refine ⟨before, Text.trimEnd after, ?_, hcolumn, startsBlank_trimEnd hafter⟩
  have hword : EndsInWord (before ++ ' ' :: part) := (hpart.append [' ']).append before
  have htrim := hword.trimEnd_append after
  simpa using htrim

theorem StandsAt.getElem?_of_eq {head tail : Text} {c : Char} (h : part.StandsAt row column)
    (hpart : part = head ++ c :: tail) : row[column + head.length]? = some c := by
  obtain ⟨before, after, rfl, rfl, -⟩ := h
  have hrow : before ++ ' ' :: (part ++ after) =
      (before ++ ' ' :: head) ++ c :: (tail ++ after) := by
    simp [hpart]
  have hlength : before.length + 1 + head.length = (before ++ ' ' :: head).length := by
    rw [List.length_append, List.length_cons]
    omega
  rw [hrow, hlength, List.getElem?_append_right (Nat.le_refl _), Nat.sub_self]
  rfl

end Text

namespace TagColumn

variable {column : TagColumn} {tag : Tag}

theorem length_marker (h : tag.nullable = true → column.keepsMark = true) :
    (column.marker tag).length = if column.keepsMark then 1 else 0 := by
  unfold marker
  cases hnullable : tag.nullable with
  | true => simp [h hnullable]
  | false => cases column.keepsMark <;> rfl

end TagColumn

namespace Layout

variable {layout : Layout} {k : ℕ}

def nameColumn : ℕ := 2

def typeColumn (layout : Layout) : ℕ := nameColumn + layout.nameWidth + 1

def cellColumn (layout : Layout) : ℕ → ℕ
  | 0 => layout.typeColumn + layout.typeWidth + 2
  | k + 1 => layout.cellColumn k + (layout.tags[k]?.elim 0 Prod.snd) + 2

def colonColumn (layout : Layout) (k : ℕ) : ℕ :=
  layout.cellColumn k + layout.tags[k]?.elim 0 fun column =>
    column.1.target.text.length + if column.1.keepsMark then 1 else 0

/-- A row shows a field with its name, its type and its cells at the columns of a layout. -/
structure Shows (layout : Layout) (targets : List TagTarget) (f : Field) (row : Text) : Prop where
  name : f.name.text.StandsAt row nameColumn
  type : f.type.render.StandsAt row layout.typeColumn
  cells : ∀ k target, targets[k]? = some target →
    ∃ cell : Text, cell.StandsAt row (layout.cellColumn k) ∧
      (cell = "-" ↔ f.tagFor? target = none) ∧
      ∀ tag, f.tagFor? target = some tag →
        ∃ marker : Text, Token.Marks tag.nullable marker ∧
          cell = target.text ++ marker ++ ":\"" ++ tag.joinedValues ++ "\"" ∧
          layout.cellColumn k + (target.text ++ marker).length = layout.colonColumn k ∧
          row[layout.colonColumn k]? = some ':'

/-- The cells of a field fit into the columns. -/
structure Holds (layout : Layout) (f : Field) : Prop where
  name_le : f.name.text.length ≤ layout.nameWidth
  type_le : f.type.render.length ≤ layout.typeWidth
  cell_le : ∀ column ∈ layout.tags, (column.1.cell f).length ≤ column.2
  keepsMark : ∀ column ∈ layout.tags, ∀ tag, f.tagFor? column.1.target = some tag →
    tag.nullable = true → column.1.keepsMark = true

theorem holds_ofModel (hf : f ∈ m.fields) : (ofModel m).Holds f := by
  refine ⟨?_, ?_, fun column hcolumn => ?_, fun column hcolumn tag htag hnullable => ?_⟩
  · exact Text.length_le_maxLength (List.mem_map_of_mem hf)
  · exact Text.length_le_maxLength (List.mem_map_of_mem hf)
  · obtain ⟨column, -, rfl⟩ := List.mem_map.mp hcolumn
    exact Text.length_le_maxLength (List.mem_map_of_mem hf)
  · obtain ⟨column, htarget, rfl⟩ := List.mem_map.mp hcolumn
    obtain ⟨target, -, rfl⟩ := List.mem_map.mp htarget
    exact List.any_eq_true.mpr ⟨f, hf, by simp [htag, hnullable]⟩

def front (layout : Layout) (f : Field) (k : ℕ) : Text :=
  "  " ++ Text.padRight layout.nameWidth f.name.text ++ " " ++
    Text.padRight layout.typeWidth f.type.render ++ (layout.tags.take k).flatMap (paddedCell f)

theorem length_front (h : layout.Holds f) (hk : k ≤ layout.tags.length) :
    (layout.front f k).length + 2 = layout.cellColumn k := by
  induction k with
  | zero =>
    have hgaps : ("  " : String).toList.length = 2 ∧ (" " : String).toList.length = 1 := by decide
    simp only [front, List.take_zero, List.flatMap_nil, List.append_nil, List.length_append,
      Text.length_padRight h.name_le, Text.length_padRight h.type_le, hgaps]
    simp only [cellColumn, typeColumn, nameColumn]
  | succ k ih =>
    have hcolumn := List.getElem?_eq_getElem hk
    have hcell := h.cell_le _ (List.getElem_mem hk)
    have hfront : layout.front f (k + 1) = layout.front f k ++ paddedCell f layout.tags[k] := by
      rw [front, List.take_succ_eq_append_getElem hk, List.flatMap_append, ← List.append_assoc,
        List.flatMap_singleton]
      rfl
    have hlength : (paddedCell f layout.tags[k]).length = layout.tags[k].2 + 2 := by
      rw [paddedCell, List.length_append, Text.length_padRight hcell, Nat.add_comm]
      rfl
    rw [hfront, cellColumn, hcolumn, ← ih (Nat.le_of_lt hk), List.length_append, hlength,
      Option.elim_some]
    omega

theorem startsBlank_padding_cells (n : ℕ) (f : Field) (columns : List (TagColumn × ℕ)) :
    Text.StartsBlank (List.replicate n ' ' ++ columns.flatMap (paddedCell f)) := by
  have hcells := startsBlank_paddedCells f columns Text.startsBlank_nil
  rw [List.append_nil] at hcells
  exact Text.startsBlank_append (fun _ => Text.isBlank_of_mem_replicate) hcells

theorem name_standsAt (layout : Layout) (f : Field) :
    f.name.text.StandsAt (layout.paddedLine f) nameColumn := by
  let padding : Text := List.replicate (layout.nameWidth - f.name.text.length) ' '
  let rest : Text := Text.padRight layout.typeWidth f.type.render ++
    layout.tags.flatMap (paddedCell f)
  refine ⟨" ", padding ++ ' ' :: rest, ?_, rfl, ?_⟩
  · simp [paddedLine, Text.padRight, padding, rest]
  · apply Text.startsBlank_append fun _ => Text.isBlank_of_mem_replicate
    simp [Text.StartsBlank, Text.isBlank]

theorem type_standsAt (h : layout.Holds f) :
    f.type.render.StandsAt (layout.paddedLine f) layout.typeColumn := by
  refine ⟨"  " ++ Text.padRight layout.nameWidth f.name.text, _, ?_, ?_,
    startsBlank_padding_cells (layout.typeWidth - f.type.render.length) f layout.tags⟩
  · simp [paddedLine, Text.padRight]
  · rw [List.length_append, Text.length_padRight h.name_le]
    rfl

theorem cell_standsAt (h : layout.Holds f) {column : TagColumn × ℕ}
    (hk : layout.tags[k]? = some column) :
    (column.1.cell f).StandsAt (layout.paddedLine f) (layout.cellColumn k) := by
  obtain ⟨hlt, rfl⟩ := List.getElem?_eq_some_iff.mp hk
  have htags : layout.tags = layout.tags.take k ++ layout.tags[k] :: layout.tags.drop (k + 1) := by
    rw [← List.drop_eq_getElem_cons hlt, List.take_append_drop]
  -- The line is what stands in front of the cell, the cell, and the cells behind it.
  have hline : layout.paddedLine f = layout.front f k ++
      (paddedCell f layout.tags[k] ++ (layout.tags.drop (k + 1)).flatMap (paddedCell f)) := by
    rw [← List.flatMap_cons, front, List.append_assoc, ← List.flatMap_append, ← htags]
    rfl
  refine ⟨layout.front f k ++ " ", _, ?_, ?_, startsBlank_padding_cells
    (layout.tags[k].2 - (layout.tags[k].1.cell f).length) f (layout.tags.drop (k + 1))⟩
  · rw [hline]
    simp [paddedCell, Text.padRight]
  · rw [← length_front h (Nat.le_of_lt hlt), List.length_append]
    rfl

theorem strictMono_cellColumn (layout : Layout) : StrictMono layout.cellColumn := by
  refine strictMono_nat_of_lt_succ fun k => ?_
  rw [cellColumn]
  omega

/-- The printed row of a field shows it in the columns of the layout. -/
theorem shows_trimEnd_paddedLine (hf : f ∈ m.fields) :
    (ofModel m).Shows m.targets f (Text.trimEnd ((ofModel m).paddedLine f)) := by
  have hholds := holds_ofModel hf
  obtain ⟨hne, hword⟩ := isBareWord_iff.mp f.name.valid
  -- Each part ends in a word, so it is still there when the end of the line is trimmed.
  refine ⟨(name_standsAt _ f).trimEnd (Text.endsInWord_of_forall hne hword),
    (type_standsAt hholds).trimEnd f.type.endsInWord_render, fun k target hk => ?_⟩
  let column : TagColumn := ⟨target, m.hasNullableTag target⟩
  have hcolumn : (ofModel m).tags[k]? = some (column, column.width m.fields) := by
    simp [ofModel, Model.columns, hk, column]
  have hstands := (cell_standsAt hholds hcolumn).trimEnd (column.endsInWord_cell f)
  refine ⟨column.cell f, hstands, TagColumn.cell_eq_emptyCell_iff, fun tag htag => ?_⟩
  have hcell : column.cell f = _ := TagColumn.cell_eq_of_tagFor? htag
  have hcolon : (ofModel m).cellColumn k + (target.text ++ column.marker tag).length =
      (ofModel m).colonColumn k := by
    have hmark := hholds.keepsMark _ (List.mem_of_getElem? hcolumn) tag htag
    rw [colonColumn, hcolumn, List.length_append, TagColumn.length_marker hmark]
    rfl
  refine ⟨column.marker tag, column.marks_marker tag, hcell, hcolon, ?_⟩
  have hparts : column.cell f =
      (target.text ++ column.marker tag) ++ ':' :: '"' :: (tag.joinedValues ++ "\"") := by
    rw [hcell]
    simp [column]
  rw [← hcolon]
  exact hstands.getElem?_of_eq hparts

end Layout

namespace Model

/-- A model without newlines in its values is printed as a header and one row for each field.
No line ends in white space. The rows show their fields at the same columns: their types, and
for each target, in the order of the bytes and from left to right, their cells and the colons
of these. -/
theorem print_aligned (h : ∀ f ∈ m.fields, f.SingleLine) :
    (m.targets.Pairwise fun a b => a.text.bytes < b.text.bytes) ∧
      (∀ target, target ∈ m.targets ↔ ∃ f ∈ m.fields, target ∈ f.tags.map Tag.target) ∧
      (Layout.ofModel m).typeColumn < (Layout.ofModel m).cellColumn 0 ∧
      StrictMono (Layout.ofModel m).cellColumn ∧
      ∃ header rows, m.print = (header :: rows).flatMap (· ++ ['\n']) ∧
        rows.length = m.fields.length ∧ (∀ line ∈ header :: rows, line.IsWordLine) ∧
        List.Forall₂ ((Layout.ofModel m).Shows m.targets) m.fields rows := by
  refine ⟨m.pairwise_targets.imp TagTarget.bytes_lt_bytes, fun _ => mem_targets, ?_,
    (Layout.ofModel m).strictMono_cellColumn, _, _, m.print_eq, List.length_map _,
    isWordLine_printedLines h, ?_⟩
  · rw [Layout.cellColumn]
    omega
  · rw [List.forall₂_map_right_iff, List.forall₂_same]
    intro f hf
    exact Layout.shows_trimEnd_paddedLine hf

/-- Names of several bytes, nullable and plain tags in one column, and fields that lack a
tag. -/
theorem print_aligned_mixed :
    let json : TagTarget := ⟨"json", rfl⟩
    let db : TagTarget := ⟨"db", rfl⟩
    let size : Field :=
      ⟨⟨"größe", rfl⟩, .primitive .integer true, [⟨json, true, ["größe", "a:b"]⟩]⟩
    let id : Field :=
      ⟨⟨"id", rfl⟩, .list (.primitive .string false) false,
        [⟨json, false, ["id"]⟩, ⟨db, false, ["pk"]⟩]⟩
    let note : Field := ⟨⟨"注", rfl⟩, .primitive .string false, []⟩
    let m : Model := ⟨⟨"Maß", rfl⟩, [size, id, note]⟩
    (∀ f ∈ m.fields, f.SingleLine) ∧
      (∃ header rows, m.print = (header :: rows).flatMap (· ++ ['\n']) ∧
        rows.length = 3 ∧ (∀ line ∈ header :: rows, line.IsWordLine) ∧
        List.Forall₂ ((Layout.ofModel m).Shows m.targets) m.fields rows) ∧
      m.targets = [db, json] ∧ (Layout.ofModel m).typeColumn = 8 ∧
      (Layout.ofModel m).colonColumn 0 = 20 ∧ (Layout.ofModel m).colonColumn 1 = 32 := by
  intro json db size id note m
  have h : ∀ f ∈ m.fields, f.SingleLine := by decide +kernel
  obtain ⟨-, -, -, -, haligned⟩ := print_aligned h
  exact ⟨h, haligned, by decide +kernel⟩

end Model

end ClassSchema
