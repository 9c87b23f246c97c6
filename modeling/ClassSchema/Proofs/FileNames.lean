import ClassSchema.File.System
import ClassSchema.Proofs.Text
import ClassSchema.Proofs.TypeNotation

/-!
# File names

The name of a file as its path has it is the last name of the place that the
path leads to. So files whose names differ are at different places, however
their paths are written.
-/

namespace ClassSchema

namespace Path

variable {p directory : Path} {name stem extension : Text}

namespace Component

variable {segment : Text}

theorem ofSegment?_of_length (h : 2 < segment.length) :
    ofSegment? segment = some (.name segment) := by
  refine ofSegment?_eq_name_iff.mpr ⟨rfl, ?_, ?_, ?_⟩
  all_goals
    rintro rfl
    simp at h

end Component

/-- The name of a file is its last segment that means anything. -/
theorem exists_segments_of_fileName? (h : p.fileName? = some name) :
    ∃ front back, p.segments = front ++ name :: back ∧
      Component.ofSegment? name = some (.name name) ∧
      ∀ segment ∈ back, Component.ofSegment? segment = none := by
  have hlast : p.components.getLast? = some (.name name) := by
    unfold fileName? at h
    split at h
    · cases h
      assumption
    · cases h
  -- The beginning of a path is no name, so the last component comes from a segment.
  have hsegments : (p.segments.filterMap Component.ofSegment?).getLast? = some (.name name) := by
    rw [components, List.getLast?_append] at hlast
    cases hcase : (p.segments.filterMap Component.ofSegment?).getLast? with
    | some c => simpa [hcase] using hlast
    | none =>
      rw [hcase] at hlast
      unfold start at hlast
      split_ifs at hlast <;> cases hlast
  obtain ⟨names, hnames⟩ := List.getLast?_eq_some_iff.mp hsegments
  obtain ⟨l₁, l₂, hl, -, hl₂⟩ := List.filterMap_eq_append_iff.mp hnames
  obtain ⟨skipped, segment, back, rfl, -, hsegment, hback⟩ := List.filterMap_eq_cons_iff.mp hl₂
  obtain ⟨rfl, -⟩ := Component.ofSegment?_eq_name_iff.mp hsegment
  exact ⟨l₁ ++ skipped, back, by simp [hl], hsegment, List.filterMap_eq_nil_iff.mp hback⟩

theorem slash_not_mem_of_fileName? (h : p.fileName? = some name) : '/' ∉ name := by
  obtain ⟨front, back, hsegments, -⟩ := exists_segments_of_fileName? h
  have hmem : name ∈ p.segments := by simp [hsegments]
  exact fun hslash => (Text.mem_of_mem_splitOn hmem hslash).2 rfl

theorem fileName?_join (directory : Path) (hslash : '/' ∉ name) (hlong : 2 < name.length) :
    (directory.join name).fileName? = some name := by
  obtain ⟨front, hsegments⟩ := exists_segments_join directory hslash
  have hlast : (directory.join name).components.getLast? = some (.name name) := by
    unfold components
    rw [hsegments]
    simp [Component.ofSegment?_of_length hlong]
  unfold fileName?
  rw [hlast]

theorem of_stem? (h : p.stem? = some stem) :
    ∃ name, p.fileName? = some name ∧ stemOf name = stem ∧ stem ≠ [] ∧ '/' ∉ stem := by
  obtain ⟨name, hname, rfl⟩ := Option.map_eq_some_iff.mp h
  obtain ⟨-, -, -, hsegment, -⟩ := exists_segments_of_fileName? hname
  obtain ⟨-, hne, -⟩ := Component.ofSegment?_eq_name_iff.mp hsegment
  exact ⟨name, hname, rfl, stemOf_ne_nil hne,
    fun hslash => slash_not_mem_of_fileName? hname (mem_of_mem_stemOf hslash)⟩

end Path

namespace FileSystem

variable {fs : FileSystem} {k l : Location} {p : Path} {segment name : Text}

theorem enter_of_name (hsegment : Path.Component.ofSegment? segment = some (.name segment))
    (h : fs.enter k segment = .ok l) : l = k ++ [segment] := by
  obtain ⟨-, hnil, hdot, hup⟩ := Path.Component.ofSegment?_eq_name_iff.mp hsegment
  unfold enter at h
  split at h
  · cases h
  · cases h
  · rw [if_neg (by simp [hnil, hdot]), if_neg hup] at h
    cases h
    rfl

theorem enter_of_none (hsegment : Path.Component.ofSegment? segment = none)
    (h : fs.enter k segment = .ok l) : l = k := by
  unfold enter at h
  split at h
  · cases h
  · cases h
  · rw [if_pos (Path.Component.ofSegment?_eq_none_iff.mp hsegment)] at h
    cases h
    rfl

theorem foldlM_enter_of_none {segments : List Text}
    (hsegments : ∀ segment ∈ segments, Path.Component.ofSegment? segment = none)
    (h : segments.foldlM fs.enter k = .ok l) : l = k := by
  induction segments generalizing k with
  | nil =>
    cases h
    rfl
  | cons segment segments ih =>
    rw [List.foldlM_cons] at h
    obtain ⟨k', hk', h⟩ := bind_eq_ok_iff.mp h
    rw [ih (fun s hs => hsegments s (List.mem_cons_of_mem _ hs)) h]
    exact enter_of_none (hsegments segment List.mem_cons_self) hk'

theorem getLast?_of_locate (hname : p.fileName? = some name) (h : fs.locate p = .ok l) :
    l.getLast? = some name := by
  obtain ⟨front, back, hsegments, hname', hback⟩ := Path.exists_segments_of_fileName? hname
  unfold locate at h
  split_ifs at h
  rw [hsegments, List.foldlM_append] at h
  obtain ⟨k, -, h⟩ := bind_eq_ok_iff.mp h
  rw [List.foldlM_cons] at h
  obtain ⟨k', hk', h⟩ := bind_eq_ok_iff.mp h
  obtain rfl := foldlM_enter_of_none hback h
  obtain rfl := enter_of_name hname' hk'
  simp

end FileSystem

end ClassSchema
