import ClassSchema.Proofs.FieldLine
import ClassSchema.Proofs.LineWise

/-!
# Strict and tolerant reading

Strict reading refuses a line whose tag region has text behind its tags, and
does so before it looks at the targets of the tags; the name of such a line is
then not declared. So a repetition of that name may no longer be one, and a
fault of the tolerant reading may be missing from the strict one. The two
readings are compared by counting: every line gives a field or a fault, and
strict reading keeps no field whose name tolerant reading does not know.
-/

namespace ClassSchema

/-- What stands behind the tags of a line, with its place in the line. -/
def FieldLine.trailing? (line : Text) : Option Trailing :=
  (split? line).bind fun parts =>
    (TagScan.scan parts.region).trailing.map fun trailing =>
      ⟨trailing.text, trailing.span.shifted parts.regionStart⟩

theorem FieldReading.ofLine_eq_of_trailing?_eq_none {line : Text}
    (h : FieldLine.trailing? line = none) (strict : Bool) :
    ofLine strict line = ofLine false line := by
  unfold ofLine
  cases hsplit : FieldLine.split? line with
  | none => rfl
  | some parts =>
    have htrailing : (TagScan.scan parts.region).trailing = none := by
      simpa [FieldLine.trailing?, hsplit] using h
    simp only [FieldLine.readParts, htrailing]

namespace Field

variable {line : Text} {f : Field} {trailing : Trailing}

theorem read_strict_of_trailing? (h : FieldLine.trailing? line = some trailing)
    (hread : Field.read false line = .ok f) :
    Field.read true line = .error (.trailingText trailing.text trailing.span) := by
  obtain ⟨parts, hsplit, hname, htype, -⟩ := Field.read_eq_ok_iff.mp hread
  have hhead := FieldLine.readHead_eq_ok_iff.mpr ⟨hname, htype⟩
  obtain ⟨scanned, hscanned, rfl⟩ : ∃ scanned, (TagScan.scan parts.region).trailing = some scanned ∧
      ⟨scanned.text, scanned.span.shifted parts.regionStart⟩ = trailing := by
    simpa [FieldLine.trailing?, hsplit] using h
  simp [Field.read, FieldReading.ofLine, hsplit, FieldLine.readParts, hhead, hscanned]

theorem read_of_read_strict (h : Field.read true line = .ok f) : Field.read false line = .ok f := by
  obtain ⟨parts, hsplit, hname, htype, -, htags⟩ := Field.read_eq_ok_iff.mp h
  exact Field.read_eq_ok_iff.mpr ⟨parts, hsplit, hname, htype, by simp, htags⟩

end Field

theorem declaredNames_strict_subset (lines : List SourceLine) :
    declaredNames true lines ⊆ declaredNames false lines := by
  intro name hname
  obtain ⟨line, hline, hread⟩ := List.mem_filterMap.mp hname
  obtain ⟨f, hf, rfl⟩ := Option.map_eq_some_iff.mp hread
  have hf' := Field.read_of_read_strict (toOption_eq_some_iff.mp hf)
  refine List.mem_filterMap.mpr ⟨line, hline, ?_⟩
  rw [hf']
  rfl

def SourceLine.trailingFault? (line : SourceLine) : Option Fault :=
  (FieldLine.trailing? line.text).map fun trailing =>
    .trailingText trailing.text (trailing.span.shifted line.offset)

/-- One fault for each line with text behind its tags, in the order of the lines. -/
def trailingFaults (lines : List SourceLine) : List Fault :=
  lines.filterMap SourceLine.trailingFault?

namespace FieldList

variable {strict : Bool} {seen : List FieldName} {lines : List SourceLine}

theorem ofLines_strict_of_trailingFaults_eq_nil (h : trailingFaults lines = []) :
    ofLines true seen lines = ofLines false seen lines := by
  induction lines generalizing seen with
  | nil => rfl
  | cons line lines ih =>
    rw [trailingFaults, List.filterMap_eq_nil_iff, List.forall_mem_cons] at h
    obtain ⟨hline, hlines⟩ := h
    have hreading : FieldReading.ofLine true line.text = FieldReading.ofLine false line.text :=
      FieldReading.ofLine_eq_of_trailing?_eq_none (Option.map_eq_none_iff.mp hline) true
    have hrest : ∀ seen', ofLines true seen' lines = ofLines false seen' lines := fun seen' =>
      ih (List.filterMap_eq_nil_iff.mpr hlines)
    simp only [ofLines, hreading, hrest]

/-- Lines without a fault have in strict reading those of their trailing texts alone. Strict
reading has seen fewer names, because it forgets those of the lines that it refuses. -/
theorem faults_strict_of_faults_eq_nil {seen' : List FieldName} (hseen : seen' ⊆ seen)
    (h : (ofLines false seen lines).faults = []) :
    (ofLines true seen' lines).faults = trailingFaults lines := by
  induction lines generalizing seen seen' with
  | nil => rfl
  | cons line lines ih =>
    cases hread : Field.read false line.text with
    | error fault =>
      rw [ofLines_cons_of_error hread] at h
      simp at h
    | ok field =>
      by_cases hmem : field.name ∈ seen
      · rw [ofLines_cons_of_mem hread hmem] at h
        simp at h
      · rw [ofLines_cons_of_not_mem hread hmem] at h
        cases htrailing : FieldLine.trailing? line.text with
        | none =>
          have hread' : Field.read true line.text = .ok field := by
            rw [← hread, Field.read, FieldReading.ofLine_eq_of_trailing?_eq_none htrailing]
            rfl
          have hmem' : field.name ∉ seen' := fun hname => hmem (hseen hname)
          have hnone : line.trailingFault? = none := by
            rw [SourceLine.trailingFault?, htrailing, Option.map_none]
          rw [ofLines_cons_of_not_mem hread' hmem', trailingFaults,
            List.filterMap_cons_none hnone]
          exact ih (List.cons_subset_cons _ hseen) h
        | some trailing =>
          have hsome : line.trailingFault? =
              some (.trailingText trailing.text (trailing.span.shifted line.offset)) := by
            rw [SourceLine.trailingFault?, htrailing, Option.map_some]
          rw [ofLines_cons_of_error (Field.read_strict_of_trailing? htrailing hread),
            trailingFaults, List.filterMap_cons_some hsome]
          exact congrArg (_ :: ·) (ih (List.subset_cons_of_subset _ hseen) h)

/-- The names of the fields that are kept are the declared ones, apart from those that were
seen before. -/
theorem mem_names_iff {name : FieldName} :
    name ∈ (ofLines strict seen lines).fields.map Field.name ↔
      name ∈ declaredNames strict lines ∧ name ∉ seen := by
  induction lines generalizing seen with
  | nil => simp [ofLines, declaredNames]
  | cons line lines ih =>
    cases hread : Field.read strict line.text with
    | error fault =>
      have hnames : declaredNames strict (line :: lines) = declaredNames strict lines := by
        simp [declaredNames, hread, Except.toOption]
      rw [ofLines_cons_of_error hread, hnames, ih]
    | ok field =>
      have hnames : declaredNames strict (line :: lines) =
          field.name :: declaredNames strict lines := by
        simp [declaredNames, hread, Except.toOption]
      by_cases hmem : field.name ∈ seen
      · rw [ofLines_cons_of_mem hread hmem, hnames, ih, List.mem_cons]
        constructor
        · rintro ⟨hdeclared, hfresh⟩
          exact ⟨Or.inr hdeclared, hfresh⟩
        · rintro ⟨rfl | hdeclared, hfresh⟩
          · exact absurd hmem hfresh
          · exact ⟨hdeclared, hfresh⟩
      · rw [ofLines_cons_of_not_mem hread hmem, hnames, List.map_cons, List.mem_cons, ih,
          List.mem_cons, List.mem_cons, not_or]
        by_cases hname : name = field.name
        · simp [hname, hmem]
        · simp [hname]

theorem length_faults_le_strict (lines : List SourceLine) :
    (ofLines false [] lines).faults.length ≤ (ofLines true [] lines).faults.length := by
  have hsubset : (ofLines true [] lines).fields.map Field.name ⊆
      (ofLines false [] lines).fields.map Field.name := by
    intro name hname
    obtain ⟨hdeclared, hfresh⟩ := mem_names_iff.mp hname
    exact mem_names_iff.mpr ⟨declaredNames_strict_subset lines hdeclared, hfresh⟩
  have hfields := (List.subperm_of_subset (nodup_names true [] lines).1 hsubset).length_le
  rw [List.length_map, List.length_map] at hfields
  have htolerant := length_faults_add_length_fields false [] lines
  have hstrict := length_faults_add_length_fields true [] lines
  omega

end FieldList

theorem length_fieldFaults_le_strict (lines : List SourceLine) :
    (fieldFaults false lines).length ≤ (fieldFaults true lines).length := by
  rw [← FieldList.ofLines_faults_nil, ← FieldList.ofLines_faults_nil]
  exact FieldList.length_faults_le_strict lines

namespace Model

variable {source : Text} {m : Model}

/-- What strict reading makes of a file that is read without strictness. -/
theorem read_strict_of_read (h : read false source = .ok m) :
    ∃ header lines, SourceLine.contentLines source = header :: lines ∧
      read true source =
        if trailingFaults lines = [] then .ok m else .error (trailingFaults lines) := by
  cases hlines : SourceLine.contentLines source with
  | nil =>
    rw [read_of_contentLines_nil hlines] at h
    cases h
  | cons header lines =>
    refine ⟨header, lines, rfl, ?_⟩
    rw [read_of_contentLines_cons hlines] at h ⊢
    cases hheader : SourceLine.readHeader header.text with
    | error fault => simp [hheader] at h
    | ok name =>
      simp only [hheader] at h
      split_ifs at h with hnil
      cases h
      have hfaults : fieldFaults true lines = trailingFaults lines := by
        rw [← FieldList.ofLines_faults_nil] at hnil ⊢
        exact FieldList.faults_strict_of_faults_eq_nil (List.Subset.refl []) hnil
      rw [hfaults]
      split_ifs with htrailing
      · rw [FieldList.ofLines_strict_of_trailingFaults_eq_nil htrailing]
      · rfl

theorem read_of_read_strict (h : read true source = .ok m) : read false source = .ok m := by
  obtain ⟨header, lines, hlines, hheader, hfields, hnodup⟩ := read_eq_ok_iff.mp h
  refine read_eq_ok_iff.mpr ⟨header, lines, hlines, hheader, ?_, hnodup⟩
  rw [← hfields]
  refine List.map_congr_left fun line hline => ?_
  have hmem : Field.read true line.text ∈ m.fields.map .ok := by
    rw [← hfields]
    exact List.mem_map_of_mem hline
  obtain ⟨f, -, hf⟩ := List.mem_map.mp hmem
  rw [← hf]
  exact Field.read_of_read_strict hf.symm

theorem length_le_of_read_error {faults : List Fault} (h : read false source = .error faults) :
    ∃ faults', read true source = .error faults' ∧ faults.length ≤ faults'.length := by
  cases hlines : SourceLine.contentLines source with
  | nil =>
    rw [read_of_contentLines_nil hlines] at h
    cases h
    exact ⟨_, read_of_contentLines_nil hlines, le_rfl⟩
  | cons header lines =>
    have hle := length_fieldFaults_le_strict lines
    rw [read_of_contentLines_cons hlines] at h ⊢
    cases hheader : SourceLine.readHeader header.text with
    | error fault =>
      simp only [hheader, Except.error.injEq] at h
      subst h
      exact ⟨_, rfl, Nat.succ_le_succ hle⟩
    | ok name =>
      simp only [hheader] at h
      split_ifs at h with hnil
      cases h
      have hpos := List.length_pos_iff.mpr hnil
      have hne : fieldFaults true lines ≠ [] := List.length_pos_iff.mp (by omega)
      exact ⟨_, if_neg hne, hle⟩

/-- The two readings differ by trailing text alone. A file that is read without strictness
is read as the same model by strict reading, unless some field line has text behind its
tags; then the faults are those of all such lines. What strict reading accepts is read as
the same model without strictness, and what fails without strictness has no fewer faults
in strict reading. -/
theorem strict_differs_by_trailingText (source : Text) :
    (∀ m, read false source = .ok m →
      ∃ header lines, SourceLine.contentLines source = header :: lines ∧
        (trailingFaults lines = [] → read true source = .ok m) ∧
        (trailingFaults lines ≠ [] → read true source = .error (trailingFaults lines))) ∧
    (∀ m, read true source = .ok m → read false source = .ok m) ∧
    ∀ faults, read false source = .error faults →
      ∃ faults', read true source = .error faults' ∧ faults.length ≤ faults'.length := by
  refine ⟨fun m h => ?_, fun m => read_of_read_strict, fun faults => length_le_of_read_error⟩
  obtain ⟨header, lines, hlines, hread⟩ := read_strict_of_read h
  refine ⟨header, lines, hlines, fun hnil => ?_, fun hne => ?_⟩
  · rw [hread, if_pos hnil]
  · rw [hread, if_neg hne]

/-- In the first file two of three lines have text behind their tags. In the second one the
repetition of `id` is a fault only as long as the first line is accepted. -/
theorem strict_differs_by_trailingText_mixed :
    let tolerated : Text := "User:\n  id int json:\"a\" x\n  name string\n  age int - y z \n"
    let repeated : Text := "User:\n  id int x\n  id string\n  id\n"
    (∃ m header lines, read false tolerated = .ok m ∧
      SourceLine.contentLines tolerated = header :: lines ∧
      trailingFaults lines = [.trailingText "x" ⟨24, 25⟩, .trailingText "y z" ⟨52, 55⟩] ∧
      read true tolerated = .error (trailingFaults lines)) ∧
    read false repeated =
      .error [.violation (.repeatedField "id") ⟨17, 28⟩, .malformedField "id" ⟨31, 33⟩] ∧
    ∃ faults', read true repeated = .error faults' ∧ 2 ≤ faults'.length ∧
      faults' = [.trailingText "x" ⟨15, 16⟩, .malformedField "id" ⟨31, 33⟩] := by
  intro tolerated repeated
  obtain ⟨hok, -, -⟩ := strict_differs_by_trailingText tolerated
  obtain ⟨-, -, herror⟩ := strict_differs_by_trailingText repeated
  refine ⟨?_, ?_⟩
  · have hread : (read false tolerated).toOption.isSome = true := by decide +kernel
    have hfaults : trailingFaults (SourceLine.contentLines tolerated).tail =
        [.trailingText "x" ⟨24, 25⟩, .trailingText "y z" ⟨52, 55⟩] := by
      decide +kernel
    obtain ⟨m, hm⟩ := Option.isSome_iff_exists.mp hread
    obtain ⟨header, lines, hlines, -, hstrict⟩ := hok m (toOption_eq_some_iff.mp hm)
    rw [hlines, List.tail_cons] at hfaults
    refine ⟨m, header, lines, toOption_eq_some_iff.mp hm, hlines, hfaults, hstrict ?_⟩
    simp [hfaults]
  · have hread : read false repeated =
        .error [.violation (.repeatedField "id") ⟨17, 28⟩, .malformedField "id" ⟨31, 33⟩] := by
      decide +kernel
    have hread' : read true repeated =
        .error [.trailingText "x" ⟨15, 16⟩, .malformedField "id" ⟨31, 33⟩] := by
      decide +kernel
    obtain ⟨faults', hstrict, hle⟩ := herror _ hread
    refine ⟨hread, faults', hstrict, hle, ?_⟩
    exact Except.error.inj (hstrict.symm.trans hread')

end Model

end ClassSchema
