import ClassSchema.Proofs.FieldLine
import ClassSchema.Proofs.TokenTiling
import ClassSchema.Source.Document

/-!
# How a line fails

A field line fails in one of four ways. The words of a line are valid names and
the targets of its region are valid targets, so no name, tag or field is refused
when it is made. Every fault has a span that covers a part of the line, and for
each way to fail it is known which part that is.
-/

namespace ClassSchema

section Except

variable {ε δ α β : Type}

theorem bind_eq_error_iff {x : Except ε α} {f : α → Except ε β} {e : ε} :
    (x >>= f) = .error e ↔ x = .error e ∨ ∃ a, x = .ok a ∧ f a = .error e := by
  cases x with
  | error d => simp [bind, Except.bind]
  | ok a => simp [bind, Except.bind]

theorem mapError_eq_error_iff {x : Except ε α} {f : ε → δ} {d : δ} :
    x.mapError f = .error d ↔ ∃ e, x = .error e ∧ f e = d := by
  cases x <;> simp [Except.mapError]

end Except

namespace FieldLine

variable {strict : Bool} {line : Text} {parts : FieldLine} {fault : Fault} {raws : List RawTag}
  {p : Char → Prop}

theorem exists_buildTag {raw : RawTag} (h : raw.Sound p) : ∃ tag, buildTag raw = .ok tag := by
  obtain ⟨target, htarget⟩ := h.target
  refine ⟨⟨target, raw.nullable, Text.splitOn ',' raw.values⟩, buildTag_eq_ok_iff.mpr ⟨?_, ?_⟩⟩
  · exact ⟨htarget, rfl, (Text.joined_splitOn ',' raw.values).symm⟩
  · exact ⟨Text.splitOn_ne_nil ',' raw.values,
      fun v hv hcomma => (Text.mem_of_mem_splitOn hv hcomma).2 rfl⟩

/-- Building tags fails only where a target is repeated. -/
theorem buildTags_eq_error {start : ℕ} {seen : List Text} (hsound : ∀ raw ∈ raws, raw.Sound p)
    (h : buildTags start seen raws = .error fault) :
    ∃ raw ∈ raws, fault = .repeatedTag raw.target (raw.span.shifted start) := by
  induction raws generalizing seen with
  | nil => simp [buildTags] at h
  | cons raw raws ih =>
    obtain ⟨hraw, hsound⟩ := List.forall_mem_cons.mp hsound
    unfold buildTags at h
    split_ifs at h with hmem
    · cases h
      exact ⟨raw, List.mem_cons_self, rfl⟩
    · obtain ⟨tag, htag⟩ := exists_buildTag hraw
      rcases bind_eq_error_iff.mp h with h | ⟨tag', -, h⟩
      · obtain ⟨cause, hcause, -⟩ := mapError_eq_error_iff.mp h
        simp [htag] at hcause
      · rcases bind_eq_error_iff.mp h with h | ⟨tags, -, h⟩
        · obtain ⟨other, hother, hfault⟩ := ih hsound h
          exact ⟨other, List.mem_cons_of_mem _ hother, hfault⟩
        · cases h

theorem buildField_eq_error {name : FieldName} {type : FieldType}
    (hsound : ∀ raw ∈ raws, raw.Sound p) (h : buildField parts line name type raws = .error fault) :
    ∃ raw ∈ raws, fault = .repeatedTag raw.target (raw.span.shifted parts.regionStart) := by
  rcases bind_eq_error_iff.mp h with h | ⟨tags, htags, h⟩
  · exact buildTags_eq_error hsound h
  · -- The tags that were built have different targets, so the field is made.
    obtain ⟨-, -, hnodup, -⟩ := buildTags_eq_ok_iff.mp htags
    have hmake := Field.make_eq_ok_iff.mpr ⟨(rfl : (⟨name, type, tags⟩ : Field) = _), hnodup⟩
    obtain ⟨cause, hcause, -⟩ := mapError_eq_error_iff.mp h
    simp [hmake] at hcause

theorem readHead_eq_error (hname : isBareWord parts.name = true)
    (h : readHead parts = .error fault) :
    ∃ part, fault = .malformedType part (Span.ofText parts.typeStart parts.type) := by
  rcases bind_eq_error_iff.mp h with h | ⟨name, -, h⟩
  · obtain ⟨cause, hcause, -⟩ := mapError_eq_error_iff.mp h
    simp [FieldName.ofText, hname] at hcause
  · rcases bind_eq_error_iff.mp h with h | ⟨type, -, h⟩
    · obtain ⟨inner, hinner, rfl⟩ := mapError_eq_error_iff.mp h
      obtain ⟨part, -, rfl⟩ := mapError_eq_error_iff.mp hinner
      exact ⟨part, by rw [Fault.shifted, Span.shifted_ofText, Nat.zero_add]⟩
    · cases h

/-- The four ways in which a field line fails. -/
inductive Fails (line : Text) : Fault → Prop
  | tooShort (hsplit : split? line = none) : Fails line (tooShort line)
  | malformedType {parts : FieldLine} (hsplit : split? line = some parts) (part : MalformedType) :
      Fails line (.malformedType part (Span.ofText parts.typeStart parts.type))
  | trailingText {parts : FieldLine} (hsplit : split? line = some parts) {trailing : Trailing}
      (htrailing : (TagScan.scan parts.region).trailing = some trailing) :
      Fails line (.trailingText trailing.text (trailing.span.shifted parts.regionStart))
  | repeatedTag {parts : FieldLine} (hsplit : split? line = some parts) {raw : RawTag}
      (hraw : raw ∈ (TagScan.scan parts.region).tags) :
      Fails line (.repeatedTag raw.target (raw.span.shifted parts.regionStart))

theorem Splits.covers_type {gap gap' : Text} (h : Splits line parts gap gap') :
    (Span.ofText parts.typeStart parts.type).Covers line parts.type := by
  refine ⟨gap ++ parts.name ++ gap', parts.region, by simp [h.line_eq], ?_⟩
  rw [h.typeStart_eq, h.nameStart_eq, Text.byteLength_append, Text.byteLength_append]

theorem Splits.covers_region {gap gap' : Text} (h : Splits line parts gap gap') :
    (Span.ofText parts.regionStart parts.region).Covers line parts.region := by
  refine ⟨gap ++ parts.name ++ gap' ++ parts.type, [], by simp [h.line_eq], ?_⟩
  rw [h.regionStart_eq, h.typeStart_eq, h.nameStart_eq]
  simp only [Text.byteLength_append]

theorem readParts_fails (hsplit : split? line = some parts)
    (h : (parts.readParts strict line).result = .error fault) : Fails line fault := by
  obtain ⟨gap, gap', hsplits⟩ := split?_eq_some_iff.mp hsplit
  have hbuild : ∀ {name : FieldName} {type : FieldType},
      buildField parts line name type (TagScan.scan parts.region).tags = .error fault →
        Fails line fault := by
    intro name type hbuild
    obtain ⟨raw, hraw, rfl⟩ := buildField_eq_error (TagScan.scan_sound _) hbuild
    exact .repeatedTag hsplit hraw
  unfold readParts at h
  cases hhead : readHead parts with
  | error inner =>
    obtain ⟨part, rfl⟩ := readHead_eq_error hsplits.name_word hhead
    simp only [hhead, Except.error.injEq] at h
    subst h
    exact .malformedType hsplit part
  | ok head =>
    obtain ⟨name, type⟩ := head
    simp only [hhead] at h
    cases htrailing : (TagScan.scan parts.region).trailing with
    | none =>
      simp only [htrailing] at h
      exact hbuild h
    | some trailing =>
      simp only [htrailing] at h
      split_ifs at h with hstrict
      · cases h
        exact .trailingText hsplit htrailing
      · exact hbuild h

end FieldLine

theorem Field.read_fails {strict : Bool} {line : Text} {fault : Fault}
    (h : Field.read strict line = .error fault) : FieldLine.Fails line fault := by
  unfold Field.read FieldReading.ofLine at h
  cases hsplit : FieldLine.split? line with
  | none =>
    simp only [hsplit, Except.error.injEq] at h
    subst h
    exact .tooShort hsplit
  | some parts =>
    simp only [hsplit] at h
    exact FieldLine.readParts_fails hsplit h

/-- A header fails for lack of a name or for a name that is none; either fault points at
the trimmed line. -/
theorem SourceLine.readHeader_eq_error {line : Text} {fault : Fault}
    (h : SourceLine.readHeader line = .error fault) :
    ∃ span, span = Span.ofText (Text.leadingBlanks line).byteLength (Text.trim line) ∧
      (fault = .missingClassName span ∨ ∃ name, fault = .violation (.className name) span) := by
  refine ⟨_, rfl, ?_⟩
  unfold SourceLine.readHeader at h
  dsimp only at h
  split_ifs at h with hempty
  · cases h
    exact Or.inl rfl
  · obtain ⟨cause, hcause, rfl⟩ := mapError_eq_error_iff.mp h
    obtain rfl := ClassName.ofText_eq_error hcause
    exact Or.inr ⟨_, rfl⟩

end ClassSchema
