import ClassSchema.Proofs.FaultSpans

/-!
# Violations in a source

Names, tags, fields and models are checked when they are made. Behind the reader most of
these checks cannot fail: a word is a name, a scanned target is a target, splitting at commas
gives a value, and repeated targets are found before. What is left are the header, whose name
may have white space in it, and a field name that an earlier line has declared.
-/

namespace ClassSchema

theorem Fault.shifted_eq_violation_iff {offset : ℕ} {fault : Fault} {cause : Violation}
    {span : Span} :
    fault.shifted offset = .violation cause span ↔
      ∃ own, fault = .violation cause own ∧ own.shifted offset = span := by
  cases fault <;> simp [shifted]

namespace FieldLine

theorem Fails.cause?_eq_none {line : Text} {fault : Fault} (h : Fails line fault) :
    fault.cause? = none := by
  cases h <;> rfl

end FieldLine

theorem Field.read_ne_violation (strict : Bool) (line : Text) (cause : Violation) (span : Span) :
    Field.read strict line ≠ .error (.violation cause span) := by
  intro h
  have hnone := (Field.read_fails h).cause?_eq_none
  cases hnone

namespace SourceLine

/-- A header violates a rule exactly if there is white space in its name. -/
theorem readHeader_eq_violation_iff {line : Text} {cause : Violation} {span : Span} :
    readHeader line = .error (.violation cause span) ↔
      (∃ c ∈ headerName line, Text.isBlank c = true) ∧ cause = .className (headerName line) ∧
        span = Span.ofText (Text.leadingBlanks line).byteLength (Text.trim line) := by
  rw [readHeader_eq]
  constructor
  · intro h
    split_ifs at h with hempty
    · cases h
    obtain ⟨cause', hcause, hfault⟩ := mapError_eq_error_iff.mp h
    obtain ⟨rfl, rfl⟩ := Fault.violation.inj hfault
    refine ⟨?_, ClassName.ofText_eq_error hcause, rfl⟩
    by_contra hnone
    push Not at hnone
    have hbare : isBareWord (headerName line) = true :=
      isBareWord_iff.mpr ⟨by simpa using hempty, by simpa using hnone⟩
    simp [ClassName.ofText, hbare] at hcause
  · rintro ⟨⟨c, hc, hblank⟩, rfl, rfl⟩
    have hempty : ¬ (headerName line).isEmpty = true := by
      rw [List.isEmpty_iff]
      exact List.ne_nil_of_mem hc
    have hbare : ¬ isBareWord (headerName line) = true := by
      intro hbare
      rw [(isBareWord_iff.mp hbare).2 c hc] at hblank
      cases hblank
    rw [if_neg hempty, ClassName.ofText, dif_neg hbare]
    rfl

end SourceLine

theorem violation_mem_headerFaults_iff {header : SourceLine} {cause : Violation} {span : Span} :
    .violation cause span ∈ headerFaults header ↔
      (∃ c ∈ SourceLine.headerName header.text, Text.isBlank c = true) ∧
        cause = .className (SourceLine.headerName header.text) ∧
        span = (Span.ofText (Text.leadingBlanks header.text).byteLength
          (Text.trim header.text)).shifted header.offset := by
  unfold headerFaults
  constructor
  · intro h
    split at h
    · next fault hread =>
      obtain ⟨own, rfl, rfl⟩ := Fault.shifted_eq_violation_iff.mp (List.mem_singleton.mp h).symm
      obtain ⟨hblank, hcause, rfl⟩ := SourceLine.readHeader_eq_violation_iff.mp hread
      exact ⟨hblank, hcause, rfl⟩
    · cases h
  · rintro ⟨hblank, rfl, rfl⟩
    rw [SourceLine.readHeader_eq_violation_iff.mpr ⟨hblank, rfl, rfl⟩]
    exact List.mem_singleton_self _

section Fields

variable {strict : Bool} {earlier lines : List SourceLine} {line : SourceLine}
  {cause : Violation} {span : Span}

theorem faultBehind?_eq_violation_iff :
    faultBehind? strict earlier line = some (.violation cause span) ↔
      ∃ f, Field.read strict line.text = .ok f ∧ f.name ∈ declaredNames strict earlier ∧
        cause = .repeatedField f.name.text ∧ span = line.span := by
  unfold faultBehind?
  cases hread : Field.read strict line.text with
  | error fault =>
    constructor
    · intro h
      obtain ⟨own, rfl, -⟩ := Fault.shifted_eq_violation_iff.mp (Option.some.inj h)
      exact absurd hread (Field.read_ne_violation strict line.text cause own)
    · rintro ⟨f, hf, -⟩
      cases hf
  | ok f =>
    dsimp only
    constructor
    · intro h
      split_ifs at h with hmem
      obtain ⟨rfl, rfl⟩ := Fault.violation.inj (Option.some.inj h)
      exact ⟨f, rfl, hmem, rfl, rfl⟩
    · rintro ⟨g, hg, hmem, rfl, rfl⟩
      cases hg
      rw [if_pos hmem]
      rfl

theorem violation_mem_fieldFaults_iff :
    .violation cause span ∈ fieldFaults strict lines ↔
      ∃ earlier line later f, lines = earlier ++ line :: later ∧
        Field.read strict line.text = .ok f ∧ f.name ∈ declaredNames strict earlier ∧
        cause = .repeatedField f.name.text ∧ span = line.span := by
  unfold fieldFaults
  rw [List.reduceOption_mem_iff, List.mem_mapIdx]
  constructor
  · rintro ⟨i, hi, hfault⟩
    obtain ⟨f, hf⟩ := faultBehind?_eq_violation_iff.mp hfault
    refine ⟨lines.take i, lines[i], lines.drop (i + 1), f, ?_, hf⟩
    rw [← List.drop_eq_getElem_cons hi, List.take_append_drop]
  · rintro ⟨earlier, line, later, f, rfl, hf⟩
    refine ⟨earlier.length, by simp, ?_⟩
    rw [List.take_left, List.getElem_append_right le_rfl]
    simpa using faultBehind?_eq_violation_iff.mpr ⟨f, hf⟩

end Fields

/-- Which violations there are behind the reader. A field line never fails with one. A file has
one for its header if there is white space in the name of the class, and one for each line with
a field whose name an earlier line has declared, and no other. -/
theorem violations_behind_read (strict : Bool) :
    (∀ line cause span, Field.read strict line ≠ .error (.violation cause span)) ∧
    ∀ source faults, Model.read strict source = .error faults → ∀ cause span,
      .violation cause span ∈ faults ↔
        ∃ header lines, SourceLine.contentLines source = header :: lines ∧
          ((∃ c ∈ SourceLine.headerName header.text, Text.isBlank c = true) ∧
            cause = .className (SourceLine.headerName header.text) ∧
            span = (Span.ofText (Text.leadingBlanks header.text).byteLength
              (Text.trim header.text)).shifted header.offset ∨
          ∃ earlier line later f, lines = earlier ++ line :: later ∧
            Field.read strict line.text = .ok f ∧ f.name ∈ declaredNames strict earlier ∧
            cause = .repeatedField f.name.text ∧ span = line.span) := by
  refine ⟨Field.read_ne_violation strict, ?_⟩
  intro source faults h cause span
  cases hlines : SourceLine.contentLines source with
  | nil =>
    rw [Model.read_of_contentLines_nil hlines] at h
    cases h
    simp
  | cons header lines =>
    rw [Model.faults_of_read_error hlines h, List.mem_append, violation_mem_headerFaults_iff,
      violation_mem_fieldFaults_iff]
    constructor
    · intro hcases
      exact ⟨header, lines, rfl, hcases⟩
    · rintro ⟨header', lines', hsame, hcases⟩
      obtain ⟨rfl, rfl⟩ := List.cons.inj hsame
      exact hcases

/-- A file with three faults, of which the header and the second `id` are violations. -/
theorem violations_behind_read_repeated :
    let source : Text := "user account:\n id int\n id long\n x\n"
    ∃ faults, Model.read false source = .error faults ∧ faults.length = 3 ∧
      .violation (.className "user account") ⟨0, 13⟩ ∈ faults ∧
      .violation (.repeatedField "id") ⟨22, 30⟩ ∈ faults := by
  intro source
  let first : SourceLine := ⟨14, " id int"⟩
  let second : SourceLine := ⟨22, " id long"⟩
  have hlines : SourceLine.contentLines source =
      [⟨0, "user account:"⟩, first, second, ⟨31, " x"⟩] := by decide +kernel
  have hlength : (((Model.read false source).map fun _ => 0).tryCatch fun faults =>
      .ok faults.length).toOption = some 3 := by decide +kernel
  have hname : (Field.read false second.text).toOption.map Field.name =
      (declaredNames false [first]).head? := by decide +kernel
  have htext : (Field.read false second.text).toOption.map (·.name.text) = some "id" := by
    decide +kernel
  obtain ⟨f, hf, hid⟩ := Option.map_eq_some_iff.mp htext
  rw [hf] at hname
  cases hread : Model.read false source with
  | ok m => simp [hread, Except.map, Except.tryCatch, Except.toOption] at hlength
  | error faults =>
    have hviolations := (violations_behind_read false).2 source faults hread
    refine ⟨faults, rfl, ?_, ?_, ?_⟩
    · simpa [hread, Except.map, Except.tryCatch, Except.toOption] using hlength
    · exact (hviolations _ _).mpr ⟨_, _, hlines, .inl ⟨⟨' ', by decide +kernel⟩,
        congrArg Violation.className (by decide +kernel), by decide +kernel⟩⟩
    · exact (hviolations _ _).mpr ⟨_, _, hlines, .inr ⟨[first], second, _, f, rfl,
        toOption_eq_some_iff.mp hf, List.mem_of_mem_head? hname.symm, by rw [hid], rfl⟩⟩

end ClassSchema
