import ClassSchema.Layout.Tidy
import ClassSchema.Proofs.WellFormed

/-!
# Tags in the order of their targets

Columns stand in the order of the targets, so a printed field has its tags in
this order. When a field has one tag for each target, picking its tag for one
target after the other is sorting its tags.
-/

namespace ClassSchema

def Tag.order (a b : Tag) : Ordering := TagTarget.order a.target b.target

instance : Std.TransCmp Tag.order where
  eq_swap {a b} := (Std.OrientedCmp.eq_swap : TagTarget.order a.target b.target = _)
  isLE_trans {a _ c} h k :=
    (Std.TransCmp.isLE_trans h k : (TagTarget.order a.target c.target).isLE = true)

theorem Tag.isLE_or_isLE (a b : Tag) : ((order a b).isLE || (order b a).isLE) = true := by
  have hswap : order a b = (order b a).swap := Std.OrientedCmp.eq_swap
  rw [hswap]
  cases order b a <;> rfl

/-- The field with its tags sorted by their targets, tags for the same target in the
order in which they stood. -/
def Field.sorted (f : Field) : Field :=
  { f with tags := f.tags.mergeSort fun a b => (Tag.order a b).isLE }

def Model.sorted (m : Model) : Model := { m with fields := m.fields.map Field.sorted }

namespace Field

variable {f : Field} {tag : Tag} {target : TagTarget}

theorem sorted_tags_perm (f : Field) : f.sorted.tags.Perm f.tags := List.mergeSort_perm _ _

theorem mem_sorted_tags : tag ∈ f.sorted.tags ↔ tag ∈ f.tags := f.sorted_tags_perm.mem_iff

theorem nodup_sorted_iff :
    (f.sorted.tags.map Tag.target).Nodup ↔ (f.tags.map Tag.target).Nodup :=
  (f.sorted_tags_perm.map Tag.target).nodup_iff

theorem wellFormed_sorted_iff : f.sorted.WellFormed ↔ f.WellFormed := by
  constructor
  · rintro ⟨hnodup, hwritable, htype⟩
    exact ⟨nodup_sorted_iff.mp hnodup, fun tag htag => hwritable tag (mem_sorted_tags.mpr htag),
      htype⟩
  · rintro ⟨hnodup, hwritable, htype⟩
    exact ⟨nodup_sorted_iff.mpr hnodup, fun tag htag => hwritable tag (mem_sorted_tags.mp htag),
      htype⟩

theorem pairwise_sorted (h : (f.tags.map Tag.target).Nodup) :
    f.sorted.tags.Pairwise (Tag.order · · = .lt) := by
  have hle : f.sorted.tags.Pairwise fun a b => (Tag.order a b).isLE = true :=
    List.pairwise_mergeSort (fun _ _ _ => Std.TransCmp.isLE_trans) Tag.isLE_or_isLE f.tags
  have hne : f.sorted.tags.Pairwise fun a b => a.target ≠ b.target :=
    List.pairwise_map.mp (nodup_sorted_iff.mpr h)
  refine (hle.and hne).imp ?_
  rintro a b ⟨hle, hne⟩
  cases horder : Tag.order a b with
  | lt => rfl
  | eq =>
    have htargets : TagTarget.order a.target b.target = .eq := horder
    exact absurd (Std.LawfulEqCmp.eq_of_compare htargets) hne
  | gt => simp [horder] at hle

theorem tagFor?_eq_some_iff (h : (f.tags.map Tag.target).Nodup) :
    f.tagFor? target = some tag ↔ tag ∈ f.tags ∧ tag.target = target := by
  constructor
  · intro hfind
    exact ⟨List.mem_of_find?_eq_some hfind, by simpa using List.find?_some hfind⟩
  · rintro ⟨hmem, rfl⟩
    cases hfind : f.tagFor? tag.target with
    | none => simpa using List.find?_eq_none.mp hfind tag hmem
    | some other =>
      have htarget : other.target = tag.target := by simpa using List.find?_some hfind
      rw [List.inj_on_of_nodup_map h (List.mem_of_find?_eq_some hfind) hmem htarget]

theorem tagFor?_sorted (h : (f.tags.map Tag.target).Nodup) :
    f.sorted.tagFor? target = f.tagFor? target := by
  ext tag
  rw [tagFor?_eq_some_iff (nodup_sorted_iff.mpr h), tagFor?_eq_some_iff h, mem_sorted_tags]

/-- Picking the tags for increasing targets is sorting them. -/
theorem filterMap_tagFor? {targets : List TagTarget} (h : (f.tags.map Tag.target).Nodup)
    (htargets : targets.Pairwise (TagTarget.order · · = .lt))
    (hmem : ∀ tag ∈ f.tags, tag.target ∈ targets) :
    targets.filterMap f.tagFor? = f.sorted.tags := by
  refine Sorted.eq_of_pairwise_of_mem_iff (?_ : List.Pairwise (Tag.order · · = .lt) _)
    (pairwise_sorted h) fun tag => ?_
  · refine List.pairwise_filterMap.mpr (htargets.imp ?_)
    intro s t hlt a ha b hb
    obtain ⟨-, rfl⟩ := (tagFor?_eq_some_iff h).mp ha
    obtain ⟨-, rfl⟩ := (tagFor?_eq_some_iff h).mp hb
    exact hlt
  · rw [List.mem_filterMap, mem_sorted_tags]
    constructor
    · rintro ⟨target, -, hfind⟩
      exact ((tagFor?_eq_some_iff h).mp hfind).1
    · intro htag
      exact ⟨tag.target, hmem tag htag, (tagFor?_eq_some_iff h).mpr ⟨htag, rfl⟩⟩

end Field

namespace Model

variable {m : Model} {f : Field}

theorem wellFormed_sorted_iff : m.sorted.WellFormed ↔ m.WellFormed := by
  have hnames : m.sorted.fields.map Field.name = m.fields.map Field.name := by
    simp [sorted, Field.sorted]
  have hfields : (∀ f ∈ m.sorted.fields, f.WellFormed) ↔ ∀ f ∈ m.fields, f.WellFormed := by
    simp [sorted, Field.wellFormed_sorted_iff]
  constructor
  · rintro ⟨hnodup, hall⟩
    exact ⟨hnames ▸ hnodup, hfields.mp hall⟩
  · rintro ⟨hnodup, hall⟩
    exact ⟨hnames ▸ hnodup, hfields.mpr hall⟩

theorem targets_sorted (m : Model) : m.sorted.targets = m.targets := by
  refine Sorted.ofList_congr fun target => ?_
  simp [sorted, Field.mem_sorted_tags]

theorem filterMap_targets (hf : f ∈ m.fields) (h : (f.tags.map Tag.target).Nodup) :
    m.targets.filterMap f.tagFor? = f.sorted.tags := by
  refine Field.filterMap_tagFor? h (Sorted.pairwise_ofList _) fun tag htag => ?_
  refine Sorted.mem_ofList.mpr (List.mem_flatMap.mpr ⟨f, hf, ?_⟩)
  exact List.mem_map_of_mem htag

end Model

end ClassSchema
