import ClassSchema.Proofs.SortedTags

/-!
# Reading back what was printed

A printed line is a name, a type and a region of cells, with spaces between
them. Each cell spells the tag of its column or nothing, so the line is read as
the field with its tags in the order of the columns. A printed model is thus
read as the model with sorted tags, exactly when it is well formed.
-/

namespace ClassSchema

variable {f : Field} {m : Model}

theorem Field.WellFormed.writable_tagFor? (h : f.WellFormed) {target : TagTarget} {tag : Tag}
    (hfind : f.tagFor? target = some tag) : tag.Writable :=
  h.writable tag (List.mem_of_find?_eq_some hfind)

def Field.SingleLine (f : Field) : Prop := ∀ tag ∈ f.tags, ∀ v ∈ tag.values, '\n' ∉ v

instance : DecidablePred Field.SingleLine := fun f =>
  inferInstanceAs (Decidable (∀ tag ∈ f.tags, ∀ v ∈ tag.values, '\n' ∉ v))

theorem Field.WellFormed.singleLine (h : f.WellFormed) : f.SingleLine := by
  intro tag htag v hv
  exact ((h.writable tag htag).2 v hv).2.2

namespace TagColumn

variable (column : TagColumn)

theorem marks_marker (tag : Tag) : Token.Marks tag.nullable (column.marker tag) := by
  unfold marker
  cases hnullable : tag.nullable with
  | true => exact Or.inl ⟨rfl, rfl⟩
  | false =>
    refine Or.inr ⟨rfl, List.all_eq_true.mp ?_⟩
    cases column.keepsMark <;> decide

theorem spells_cell (h : f.WellFormed) :
    (column.cell f).Spells (f.tagFor? column.target).toList := by
  unfold cell
  cases hfind : f.tagFor? column.target with
  | none => exact Text.spells_filler
  | some tag =>
    obtain ⟨-, hvalues⟩ := h.writable_tagFor? hfind
    refine Text.spells_tag tag (column.marks_marker tag) ?_
    exact Tag.not_mem_joinedValues (by decide) fun v hv => (hvalues v hv).1

theorem newline_not_mem_cell (h : f.SingleLine) : '\n' ∉ column.cell f := by
  unfold cell
  cases hfind : f.tagFor? column.target with
  | none => simp [emptyCell]
  | some tag =>
    have hjoined : '\n' ∉ tag.joinedValues :=
      Tag.not_mem_joinedValues (by decide) (h tag (List.mem_of_find?_eq_some hfind))
    simp [tagCell, tag.target.newline_not_mem, column.newline_not_mem_marker, hjoined]

theorem endsInWord_cell (f : Field) : (column.cell f).EndsInWord := by
  unfold cell
  cases f.tagFor? column.target with
  | none => exact ⟨[], '-', rfl, by decide⟩
  | some tag => exact ⟨_, '"', rfl, by decide⟩

end TagColumn

theorem Text.spells_padding (n : ℕ) : Text.Spells (List.replicate n ' ') [] := by
  refine Text.spells_gaps fun c hc => ?_
  rw [List.eq_of_mem_replicate hc]
  decide

theorem FieldType.newline_not_mem_render (t : FieldType) : '\n' ∉ t.render :=
  Text.newline_not_mem_of_forall fun _ => isBlank_of_mem_render

theorem FieldType.endsInWord_render (t : FieldType) : t.render.EndsInWord :=
  Text.endsInWord_of_forall t.render_ne_nil fun _ => isBlank_of_mem_render

namespace Layout

variable (layout : Layout)

theorem spells_gap : Text.Spells ("  " : String).toList [] := Text.spells_padding 2

theorem spells_paddedCell (h : f.WellFormed) (column : TagColumn × ℕ) :
    (paddedCell f column).Spells (f.tagFor? column.1.target).toList := by
  have hcell := (spells_gap.append (column.1.spells_cell h)).append
    (Text.spells_padding (column.2 - (column.1.cell f).length))
  simpa [paddedCell, Text.padRight] using hcell

theorem spells_paddedCells (h : f.WellFormed) (columns : List (TagColumn × ℕ)) :
    Text.Spells (columns.flatMap (paddedCell f))
      (columns.filterMap fun column => f.tagFor? column.1.target) := by
  induction columns with
  | nil => exact Text.spells_padding 0
  | cons column columns ih =>
    have hcells := (spells_paddedCell h column).append ih
    rw [List.flatMap_cons, List.filterMap_cons]
    cases hfind : f.tagFor? column.1.target <;> simpa [hfind] using hcells

theorem startsBlank_paddedCells (f : Field) (columns : List (TagColumn × ℕ)) {t : Text}
    (ht : t.StartsBlank) : Text.StartsBlank (columns.flatMap (paddedCell f) ++ t) := by
  cases columns with
  | nil => exact ht
  | cons column columns => simp [Text.StartsBlank, Text.isBlank, paddedCell]

/-- Behind a word, padded cells lose only the padding of the last one, and what is
left still spells the field's tags. -/
theorem trimEnd_paddedCells (h : f.WellFormed) {head : Text} (hhead : head.EndsInWord) (n : ℕ)
    (columns : List (TagColumn × ℕ)) :
    ∃ region : Text,
      Text.trimEnd (head ++ (List.replicate n ' ' ++ columns.flatMap (paddedCell f))) =
        head ++ region ∧
      region.StartsBlank ∧
      region.Spells (columns.filterMap fun column => f.tagFor? column.1.target) := by
  rcases List.eq_nil_or_concat columns with rfl | ⟨columns, last, rfl⟩
  · refine ⟨[], ?_, Text.startsBlank_nil, Text.spells_padding 0⟩
    rw [List.flatMap_nil, List.append_nil, List.append_nil]
    exact hhead.trimEnd_append_blanks fun _ => Text.isBlank_of_mem_replicate
  · refine ⟨List.replicate n ' ' ++ (columns.flatMap (paddedCell f) ++ ("  " ++ last.1.cell f)),
      ?_, ?_, ?_⟩
    · have hword := ((((last.1.endsInWord_cell f).append "  ").append
        (columns.flatMap (paddedCell f))).append (List.replicate n ' ')).append head
      have hpadding : ∀ c ∈ List.replicate (last.2 - (last.1.cell f).length) ' ',
          Text.isBlank c = true := fun _ => Text.isBlank_of_mem_replicate
      rw [← hword.trimEnd_append_blanks hpadding]
      simp [paddedCell, Text.padRight]
    · exact Text.startsBlank_append (fun _ => Text.isBlank_of_mem_replicate)
        (startsBlank_paddedCells f columns (by simp [Text.StartsBlank, Text.isBlank]))
    · have hspells := (Text.spells_padding n).append ((spells_paddedCells h columns).append
        (spells_gap.append (last.1.spells_cell h)))
      rw [List.concat_eq_append, List.filterMap_append]
      cases hfind : f.tagFor? last.1.target <;> simpa [hfind] using hspells

/-- The line of a field in its parts, without white space at its end. -/
theorem trimEnd_paddedLine (h : f.WellFormed) :
    ∃ region : Text,
      Text.trimEnd (layout.paddedLine f) =
        "  " ++ f.name.text ++
          (List.replicate (layout.nameWidth - f.name.text.length + 1) ' ' ++ f.type.render ++
            region) ∧
      region.StartsBlank ∧
      region.Spells (layout.tags.filterMap fun column => f.tagFor? column.1.target) := by
  obtain ⟨region, hregion, hstarts, hspells⟩ := trimEnd_paddedCells h
    (f.type.endsInWord_render.append ("  " ++ f.name.text ++
      List.replicate (layout.nameWidth - f.name.text.length + 1) ' '))
    (layout.typeWidth - f.type.render.length) layout.tags
  refine ⟨region, ?_, hstarts, hspells⟩
  simpa [paddedLine, Text.padRight, List.replicate_succ'] using hregion

theorem newline_not_mem_paddedLine (h : f.SingleLine) : '\n' ∉ layout.paddedLine f := by
  have hcells : '\n' ∉ layout.tags.flatMap (paddedCell f) := by
    intro hmem
    obtain ⟨column, -, hcell⟩ := List.mem_flatMap.mp hmem
    rcases List.mem_append.mp hcell with hgap | hcell
    · exact absurd hgap (by decide)
    · exact Text.newline_not_mem_padRight (column.1.newline_not_mem_cell h) _ hcell
  simp [paddedLine, Text.newline_not_mem_padRight f.name.newline_not_mem,
    Text.newline_not_mem_padRight f.type.newline_not_mem_render, hcells]

theorem trimEnd_paddedLine_ne_nil (f : Field) : Text.trimEnd (layout.paddedLine f) ≠ [] := by
  intro hnil
  obtain ⟨hne, hword⟩ := isBareWord_iff.mp f.name.valid
  obtain ⟨c, t, hname⟩ := List.exists_cons_of_ne_nil hne
  have hc : Text.isBlank c = false := hword c (by simp [hname])
  have hblank := List.rdropWhile_eq_nil_iff.mp hnil c (by simp [paddedLine, Text.padRight, hname])
  simp [hc] at hblank

theorem read_trimEnd_paddedLine (hf : f ∈ m.fields) (h : f.WellFormed) (strict : Bool) :
    Field.read strict (Text.trimEnd ((ofModel m).paddedLine f)) = .ok f.sorted := by
  obtain ⟨region, hline, hstarts, hspells⟩ := trimEnd_paddedLine (ofModel m) h
  have htags : ((ofModel m).tags.filterMap fun column => f.tagFor? column.1.target) =
      f.sorted.tags := by
    rw [← Model.filterMap_targets hf h.targets_nodup]
    simp [ofModel, Model.columns, List.filterMap_map, Function.comp_def]
  rw [htags] at hspells
  have hgap : ∀ c ∈ ("  " : String).toList, Text.isBlank c = true :=
    List.all_eq_true.mp (by decide)
  rw [hline]
  exact Field.read_of_spells (Field.wellFormed_sorted_iff.mpr h) hgap
    (fun _ => Text.isBlank_of_mem_replicate) (by simp) hstarts hspells strict

end Layout

/-- A text that is a line of its own when a newline follows it: it has none, and nothing at
its end is taken off. -/
def Text.IsWordLine (l : Text) : Prop := '\n' ∉ l ∧ l.EndsInWord

namespace SourceLine

theorem map_text_relevant {ls : List Text} (h : ∀ l ∈ ls, l.IsWordLine) (offset : ℕ) :
    ((place offset (rawLines (ls.flatMap (· ++ ['\n'])))).filter
      fun line => !Text.isAllBlank line.text).map text = ls := by
  induction ls generalizing offset with
  | nil => rfl
  | cons l ls ih =>
    obtain ⟨⟨hl, hword⟩, h⟩ := List.forall_mem_cons.mp h
    have hend : Text.dropEndWhile isLineEnd l = l := by
      refine hword.dropEndWhile fun c hc => ?_
      rcases (by simpa [isLineEnd] using hc : c = '\n' ∨ c = '\r') with rfl | rfl <;> decide
    rw [List.flatMap_cons, List.append_assoc, List.singleton_append, rawLines_append_newline hl,
      place, dropEndWhile_append_newline, hend, List.filter_cons_of_pos, List.map_cons, ih h]
    simp [hword.isAllBlank]

theorem map_text_contentLines {ls : List Text} (h : ∀ l ∈ ls, l.IsWordLine) :
    (contentLines (ls.flatMap (· ++ ['\n']))).map text = ls := by
  rw [← relevant_eq_contentLines]
  exact map_text_relevant h 0

theorem readHeader_text_colon (name : ClassName) :
    readHeader (name.text ++ ":") = .ok name :=
  readHeader_eq_ok_iff.mpr ⟨[], [':'], [], by simp, by simp, by simp, .inr ⟨[], rfl, by simp⟩⟩

end SourceLine

namespace Model

def printedLines (m : Model) : List Text :=
  (m.name.text ++ ":") :: m.fields.map fun f => Text.trimEnd ((Layout.ofModel m).paddedLine f)

theorem print_eq (m : Model) : m.print = m.printedLines.flatMap (· ++ ['\n']) := by
  have hline : (Layout.ofModel m).line =
      fun f => Text.trimEnd ((Layout.ofModel m).paddedLine f) ++ ['\n'] := rfl
  simp [print, printedLines, hline, List.flatMap_map]

theorem isWordLine_header (name : ClassName) : Text.IsWordLine (name.text ++ ":") := by
  have hname := Text.newline_not_mem_of_forall (isBareWord_iff.mp name.valid).2
  exact ⟨by simp [hname], name.text, ':', rfl, by decide⟩

theorem isWordLine_printedLines (h : ∀ f ∈ m.fields, f.SingleLine) :
    ∀ l ∈ m.printedLines, l.IsWordLine := by
  refine List.forall_mem_cons.mpr ⟨isWordLine_header m.name, fun l hl => ?_⟩
  obtain ⟨f, hf, rfl⟩ := List.mem_map.mp hl
  constructor
  · intro hmem
    exact (Layout.ofModel m).newline_not_mem_paddedLine (h f hf)
      ((List.rdropWhile_prefix _ _).subset hmem)
  · exact Text.endsInWord_trimEnd ((Layout.ofModel m).trimEnd_paddedLine_ne_nil f)

theorem read_of_lines {strict : Bool} {ls : List Text} (hnodup : (m.fields.map Field.name).Nodup)
    (hls : ∀ l ∈ (m.name.text ++ ":") :: ls, l.IsWordLine)
    (hread : ls.map (Field.read strict) = m.fields.map .ok) :
    read strict (((m.name.text ++ ":") :: ls).flatMap (· ++ ['\n'])) = .ok m := by
  obtain ⟨header, lines, hcontent, hheader, hfields⟩ :=
    List.map_eq_cons_iff.mp (SourceLine.map_text_contentLines hls)
  refine read_eq_ok_iff.mpr ⟨header, lines, hcontent, ?_, ?_, hnodup⟩
  · rw [hheader]
    exact SourceLine.readHeader_text_colon m.name
  · rw [← hread, ← hfields, List.map_map]
    rfl

theorem read_print (h : m.WellFormed) (strict : Bool) : read strict m.print = .ok m.sorted := by
  rw [print_eq]
  have hlines := isWordLine_printedLines fun f hf => (h.fields f hf).singleLine
  refine read_of_lines (wellFormed_sorted_iff.mpr h).names_nodup hlines ?_
  calc (m.fields.map fun f => Text.trimEnd ((Layout.ofModel m).paddedLine f)).map
        (Field.read strict)
      = m.fields.map fun f =>
          Field.read strict (Text.trimEnd ((Layout.ofModel m).paddedLine f)) := by
        simp
    _ = m.fields.map fun f => .ok f.sorted :=
        List.map_congr_left fun f hf =>
          Layout.read_trimEnd_paddedLine hf (h.fields f hf) strict
    _ = m.sorted.fields.map .ok := by simp [sorted]

/-- A model comes back from its printed form, with the tags of each field in the order
of their targets, exactly when it is well formed. -/
theorem read_print_eq_sorted_iff (m : Model) (strict : Bool) :
    read strict m.print = .ok m.sorted ↔ m.WellFormed := by
  constructor
  · intro h
    exact wellFormed_sorted_iff.mp (wellFormed_of_read h)
  · intro h
    exact read_print h strict

end Model

end ClassSchema
