import ClassSchema.Layout.Tidy
import ClassSchema.Proofs.Printing

/-!
# Tidying

Printing looks at the tags of a field only through its tag for each target, so
the order of the tags makes no difference. What was tidied is therefore tidy,
and it is read as the model of the source with sorted tags.
-/

namespace ClassSchema

variable {f : Field} {m : Model}

theorem TagColumn.cell_sorted (column : TagColumn) (h : (f.tags.map Tag.target).Nodup) :
    column.cell f.sorted = column.cell f := by
  simp only [cell, Field.tagFor?_sorted h]

theorem Layout.line_sorted (layout : Layout) (h : (f.tags.map Tag.target).Nodup) :
    layout.line f.sorted = layout.line f := by
  have hcell : paddedCell f.sorted = paddedCell f := by
    funext column
    simp only [paddedCell, column.1.cell_sorted h]
  simp only [line, paddedLine, hcell]
  rfl

namespace Model

theorem map_sorted_fields {β : Type} (g : Field → β) (h : m.WellFormed)
    (hg : ∀ f : Field, (f.tags.map Tag.target).Nodup → g f.sorted = g f) :
    m.sorted.fields.map g = m.fields.map g := by
  rw [sorted, List.map_map]
  exact List.map_congr_left fun f hf => hg f (h.fields f hf).targets_nodup

theorem hasNullableTag_sorted (h : m.WellFormed) (target : TagTarget) :
    m.sorted.hasNullableTag target = m.hasNullableTag target := by
  have hmap := map_sorted_fields (fun f => (f.tagFor? target).any Tag.nullable) h
    fun f hf => by rw [Field.tagFor?_sorted hf]
  have hany : ∀ n : Model, n.hasNullableTag target =
      (n.fields.map fun f => (f.tagFor? target).any Tag.nullable).any id := by
    intro n
    rw [hasNullableTag, List.any_map]
    rfl
  rw [hany, hany, hmap]

theorem layout_sorted (h : m.WellFormed) : Layout.ofModel m.sorted = Layout.ofModel m := by
  have hcolumns : m.sorted.columns = m.columns := by
    simp only [columns, targets_sorted, hasNullableTag_sorted h]
  have hwidth : ∀ column : TagColumn, column.width m.sorted.fields = column.width m.fields := by
    intro column
    rw [TagColumn.width, map_sorted_fields column.cell h fun f hf => column.cell_sorted hf,
      TagColumn.width]
  have hnames := map_sorted_fields (fun f => f.name.text) h fun _ _ => rfl
  have htypes := map_sorted_fields (fun f => f.type.render) h fun _ _ => rfl
  simp only [Layout.ofModel, hcolumns, hwidth, hnames, htypes]

theorem print_sorted (h : m.WellFormed) : m.sorted.print = m.print := by
  have hlines := map_sorted_fields (Layout.ofModel m).line h
    fun f hf => (Layout.ofModel m).line_sorted hf
  simp only [print, layout_sorted h, List.flatMap_def, hlines]
  rfl

end Model

theorem tidy_tidy {source t : Text} (h : tidy source = .ok t) : tidy t = .ok t := by
  obtain ⟨m, hread, rfl⟩ := tidy_eq_ok_iff.mp h
  have hm := Model.wellFormed_of_read hread
  exact tidy_eq_ok_iff.mpr ⟨m.sorted, Model.read_print hm false, Model.print_sorted hm⟩

/-- Tidying what is tidy changes nothing, and the tidy form is read, whether or not text
behind tags is minded, as the model of the source with the tags of each field sorted. -/
theorem tidy_fixed_and_read_sorted {source t : Text} (h : tidy source = .ok t) :
    tidy t = .ok t ∧
      ∃ m, Model.read false source = .ok m ∧ ∀ strict, Model.read strict t = .ok m.sorted := by
  refine ⟨tidy_tidy h, ?_⟩
  obtain ⟨m, hread, rfl⟩ := tidy_eq_ok_iff.mp h
  exact ⟨m, hread, Model.read_print (Model.wellFormed_of_read hread)⟩

/-- A source with gaps, a blank line, tags out of order and text behind them. -/
theorem tidy_fixed_and_read_sorted_messy :
    let source : Text :=
      " user :\r\n\n id  string[]?  json? : \"id,x y\" db:\"k\" junk\n  tag int\n"
    let t : Text :=
      "user:\n  id  string[]?  db:\"k\"  json?:\"id,x y\"\n  tag int        -       -\n"
    tidy source = .ok t ∧ tidy t = .ok t ∧
      ∃ m, Model.read false source = .ok m ∧ ∀ strict, Model.read strict t = .ok m.sorted := by
  intro source t
  have hok : (tidy source).toOption = some t := by decide +kernel
  have h : tidy source = .ok t := toOption_eq_some_iff.mp hok
  exact ⟨h, tidy_fixed_and_read_sorted h⟩

end ClassSchema
