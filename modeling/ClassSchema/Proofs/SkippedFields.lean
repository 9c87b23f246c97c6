import ClassSchema.Proofs.Annotations

/-!
# Fields that a target skips

A field is skipped for a target if it has no tag for it, or a tag with the key of a
skipped field. The conversion methods of a class look at the key alone, whereas the
entry of a struct also shows further values and the modifier of a nullable tag. So a
field that is skipped in a struct is left out of a class, and the converse fails
exactly for tags that have the key of a skipped field and something behind it.
-/

namespace ClassSchema

variable {m : Model} {f : Field} {target : TagTarget}

namespace TypeScript

/-- No statement of the writing method stores the field, and the reading method passes
the empty value of its type at the field's position. -/
def LeavesOut (m : Model) (target : TagTarget) (i : ℕ) (f : Field) : Prop :=
  (∀ a ∈ assignments m target, a.field ≠ f.name) ∧
    (arguments m target)[i]? = some (.constant (Default.ofType f.type))

instance (m : Model) (target : TagTarget) (i : ℕ) (f : Field) :
    Decidable (LeavesOut m target i f) :=
  inferInstanceAs (Decidable (_ ∧ _))

theorem activeTag?_eq_none_iff :
    activeTag? target f = none ↔ ∀ tag, f.tagFor? target = some tag → tag.isSkipped = true := by
  unfold activeTag?
  cases f.tagFor? target with
  | none => simp
  | some tag => simp [Option.filter]

theorem mem_assignments_iff (hnames : (m.fields.map Field.name).Nodup) (hf : f ∈ m.fields)
    {a : Assignment} :
    a ∈ assignments m target ∧ a.field = f.name ↔
      ∃ tag, activeTag? target f = some tag ∧ a = ⟨tag.key, f.name, tag.nullable⟩ := by
  constructor
  · rintro ⟨ha, hname⟩
    obtain ⟨g, hg, hassign⟩ := List.mem_filterMap.mp ha
    obtain ⟨tag, htag, rfl⟩ := Option.map_eq_some_iff.mp hassign
    obtain rfl : g = f := List.inj_on_of_nodup_map hnames hg hf hname
    exact ⟨tag, htag, rfl⟩
  · rintro ⟨tag, htag, rfl⟩
    refine ⟨List.mem_filterMap.mpr ⟨f, hf, ?_⟩, rfl⟩
    rw [Assignment.ofField?, htag, Option.map_some]

theorem forall_assignments_ne_iff (hnames : (m.fields.map Field.name).Nodup) (hf : f ∈ m.fields) :
    (∀ a ∈ assignments m target, a.field ≠ f.name) ↔ activeTag? target f = none := by
  constructor
  · intro h
    by_contra hactive
    obtain ⟨tag, htag⟩ := Option.ne_none_iff_exists'.mp hactive
    obtain ⟨ha, hname⟩ := (mem_assignments_iff hnames hf).mpr ⟨tag, htag, rfl⟩
    exact h _ ha hname
  · intro hactive a ha hname
    obtain ⟨tag, htag, -⟩ := (mem_assignments_iff hnames hf).mp ⟨ha, hname⟩
    simp [hactive] at htag

theorem leavesOut_iff {i : ℕ} (hnames : (m.fields.map Field.name).Nodup)
    (hf : m.fields[i]? = some f) :
    LeavesOut m target i f ↔
      ∀ tag, f.tagFor? target = some tag → tag.isSkipped = true := by
  have hargument : (arguments m target)[i]? = some (Argument.ofField target f) := by
    rw [arguments, List.getElem?_map, hf, Option.map_some]
  rw [LeavesOut, forall_assignments_ne_iff hnames (List.mem_of_getElem? hf), hargument,
    Option.some.injEq, argument_eq_constant_iff, and_self, activeTag?_eq_none_iff]

end TypeScript

theorem Tag.joinedValues_eq_skipKey_iff {tag : Tag} (h : tag.Writable) :
    tag.joinedValues = skipKey ↔ tag.values = [skipKey] := by
  constructor
  · intro hjoined
    have hsplit : Text.splitOn ',' tag.joinedValues = tag.values :=
      Text.splitOn_joined h.1 fun v hv => (h.2 v hv).2.1
    rw [← hsplit, hjoined]
    decide
  · intro hvalues
    rw [joinedValues, hvalues, Text.joined_singleton]

/-- The key of a skipped field stands alone in an entry only if nothing follows it in the
tag and the tag is not nullable. -/
theorem Entry.text_ofTag_eq_skipKey_iff {tag : Tag} (h : tag.Writable) :
    (Entry.ofTag tag).text = Tag.skipKey ↔
      tag.nullable = false ∧ tag.values = [Tag.skipKey] := by
  cases hnullable : tag.nullable with
  | true =>
    have hlength : (Entry.ofTag tag).text.length ≠ Tag.skipKey.length := by
      have homit : (",omitempty" : String).toList.length = 10 := by decide
      have hskip : Tag.skipKey.length = 1 := by decide
      rw [Entry.text_ofTag, hnullable, if_pos rfl, List.length_append, homit, hskip]
      omega
    constructor
    · intro htext
      exact absurd (congrArg List.length htext) hlength
    · rintro ⟨hfalse, -⟩
      cases hfalse
  | false =>
    have htext : (Entry.ofTag tag).text = tag.joinedValues := by
      rw [Entry.text_ofTag, hnullable]
      simp
    rw [htext, Tag.joinedValues_eq_skipKey_iff h]
    simp

theorem Entry.eq_of_joined_eq {es es' : List Entry} (h : ∀ e ∈ es, '"' ∉ e.text)
    (h' : ∀ e ∈ es', '"' ∉ e.text)
    (heq : Text.joined " " (es.map Entry.render) = Text.joined " " (es'.map Entry.render)) :
    es = es' := by
  obtain ⟨-, hcontent⟩ := Entry.scan_joined h
  obtain ⟨-, hcontent'⟩ := Entry.scan_joined h'
  rw [heq, hcontent'] at hcontent
  exact (List.map_injective_iff.mpr Entry.content_injective hcontent).symm

namespace Go

/-- The tag string of the field is made of entries, and the one for the target is that of
a skipped field. -/
def Skips (m : Model) (target : TagTarget) (f : Field) : Prop :=
  ∃ es : List Entry, (∀ e ∈ es, '"' ∉ e.text) ∧
    renderTags m.targets f.tags = "\x60" ++ Text.joined " " (es.map Entry.render) ++ "\x60" ∧
    ∃ e ∈ es, e.target = target ∧ e.render = target.text ++ ":\"-\""

theorem skips_iff_exists_entry (h : f.WellFormed) (htarget : target ∈ m.targets) :
    Skips m target f ↔ ∃ e ∈ entries m.targets f.tags,
      e.target = target ∧ e.render = target.text ++ ":\"-\"" := by
  have hquote := quote_not_mem_entries h.writable m.targets
  have htags : renderTags m.targets f.tags =
      "\x60" ++ Text.joined " " ((entries m.targets f.tags).map Entry.render) ++ "\x60" := by
    rw [renderTags, if_neg (by simpa using List.ne_nil_of_mem htarget)]
    rfl
  constructor
  · rintro ⟨es, hes, hrender, hentry⟩
    rw [htags] at hrender
    have hjoined := List.append_cancel_left (List.append_cancel_right hrender)
    rwa [Entry.eq_of_joined_eq hquote hes hjoined]
  · intro hentry
    exact ⟨_, hquote, htags, hentry⟩

theorem skips_iff (h : f.WellFormed) (htarget : target ∈ m.targets) :
    Skips m target f ↔
      ∀ tag, f.tagFor? target = some tag →
        tag.nullable = false ∧ tag.values = [Tag.skipKey] := by
  have hrender : ∀ e : Entry, e.target = target →
      (e.render = target.text ++ ":\"-\"" ↔ e.text = Tag.skipKey) := by
    rintro e rfl
    rw [← Entry.render_eq_iff e Tag.skipKey]
    simp [Tag.skipKey]
  rw [skips_iff_exists_entry h htarget]
  constructor
  · rintro ⟨e, he, htarget', htext⟩ tag hfind
    obtain ⟨htag, rfl⟩ := (Field.tagFor?_eq_some_iff h.targets_nodup).mp hfind
    rw [hrender e htarget'] at htext
    rw [entries_eq] at he
    rcases List.mem_append.mp he with he | he
    · obtain ⟨own, hown, rfl⟩ := List.mem_map.mp he
      obtain rfl : own = tag := List.inj_on_of_nodup_map h.targets_nodup hown htag htarget'
      exact (Entry.text_ofTag_eq_skipKey_iff (h.writable own hown)).mp htext
    · obtain ⟨other, hother, rfl⟩ := List.mem_map.mp he
      obtain rfl : other = tag.target := htarget'
      exact absurd (List.mem_map_of_mem htag) (mem_missingTargets.mp hother).2
  · intro hskipped
    cases hfind : f.tagFor? target with
    | none =>
      have hmissing : target ∈ missingTargets m.targets f.tags := by
        refine mem_missingTargets.mpr ⟨htarget, fun hmem => ?_⟩
        obtain ⟨tag, htag, heq⟩ := List.mem_map.mp hmem
        exact List.find?_eq_none.mp hfind tag htag (by simpa using heq)
      refine ⟨Entry.missing target, ?_, rfl, (hrender _ rfl).mpr rfl⟩
      rw [entries_eq]
      exact List.mem_append_right _ (List.mem_map_of_mem hmissing)
    | some tag =>
      obtain ⟨htag, htarget'⟩ := (Field.tagFor?_eq_some_iff h.targets_nodup).mp hfind
      refine ⟨Entry.ofTag tag, ?_, htarget', (hrender _ htarget').mpr ?_⟩
      · rw [entries_eq]
        exact List.mem_append_left _ (List.mem_map_of_mem htag)
      · exact (Entry.text_ofTag_eq_skipKey_iff (h.writable tag htag)).mpr (hskipped tag hfind)

end Go

/-- A field that is skipped in the struct is left out of the class. The converse holds
exactly if a tag with the key of a skipped field has nothing else to say. -/
theorem leavesOut_of_skips_and_skips_of_leavesOut_iff {strict : Bool} {source : Text} {i : ℕ}
    (h : Model.read strict source = .ok m) (htarget : target ∈ m.targets)
    (hf : m.fields[i]? = some f) :
    (Go.Skips m target f → TypeScript.LeavesOut m target i f) ∧
      ((TypeScript.LeavesOut m target i f → Go.Skips m target f) ↔
        ∀ tag, f.tagFor? target = some tag → tag.isSkipped = true →
          tag.nullable = false ∧ tag.values = [Tag.skipKey]) := by
  have hmodel := Model.wellFormed_of_read h
  have hfield := hmodel.fields f (List.mem_of_getElem? hf)
  rw [TypeScript.leavesOut_iff hmodel.names_nodup hf, Go.skips_iff hfield htarget]
  refine ⟨?_, ?_, ?_⟩
  · intro hskips tag hfind
    rw [Tag.isSkipped, Tag.key, (hskips tag hfind).2]
    rfl
  · intro himp tag hfind hskipped
    -- The tag is the only one for the target.
    refine himp (fun other hother => ?_) tag hfind
    obtain rfl : tag = other := Option.some.inj (hfind.symm.trans hother)
    exact hskipped
  · intro hplain hleft tag hfind
    exact hplain tag hfind (hleft tag hfind)

/-- A tag with the key of a skipped field and nothing else. -/
theorem leavesOut_and_skips_plain :
    let source : Text := "User:\n  id int json:\"-\" db:\"k\"\n  name string json:\"n\"\n"
    let target : TagTarget := ⟨"json", rfl⟩
    ∃ m f, Model.read false source = .ok m ∧ target ∈ m.targets ∧ m.fields[0]? = some f ∧
      TypeScript.LeavesOut m target 0 f ∧ Go.Skips m target f := by
  intro source target
  let f : Field := ⟨⟨"id", rfl⟩, .primitive .integer false,
    [⟨target, false, ["-"]⟩, ⟨⟨"db", rfl⟩, false, ["k"]⟩]⟩
  let g : Field := ⟨⟨"name", rfl⟩, .primitive .string false, [⟨target, false, ["n"]⟩]⟩
  let m : Model := ⟨⟨"User", rfl⟩, [f, g]⟩
  have hread : Model.read false source = .ok m := toOption_eq_some_iff.mp (by decide +kernel)
  have htarget : target ∈ m.targets := by decide +kernel
  have hleft : TypeScript.LeavesOut m target 0 f := by decide +kernel
  have hplain : ∀ tag ∈ f.tagFor? target, tag.nullable = false ∧ tag.values = [Tag.skipKey] := by
    decide +kernel
  obtain ⟨-, hiff⟩ := leavesOut_of_skips_and_skips_of_leavesOut_iff hread htarget
    (rfl : m.fields[0]? = some f)
  exact ⟨m, f, hread, htarget, rfl, hleft, hiff.mpr (fun tag htag _ => hplain tag htag) hleft⟩

/-- A nullable tag with the key of a skipped field: the class leaves the field out, but the
struct does not skip it. -/
theorem leavesOut_and_not_skips_nullable :
    let source : Text := "User:\n  id int json?:\"-\"\n"
    let target : TagTarget := ⟨"json", rfl⟩
    ∃ m f, Model.read false source = .ok m ∧ target ∈ m.targets ∧ m.fields[0]? = some f ∧
      TypeScript.LeavesOut m target 0 f ∧ ¬ Go.Skips m target f ∧
      Go.renderTags m.targets f.tags = "\x60json:\"-,omitempty\"\x60" := by
  intro source target
  let tag : Tag := ⟨target, true, ["-"]⟩
  let f : Field := ⟨⟨"id", rfl⟩, .primitive .integer false, [tag]⟩
  let m : Model := ⟨⟨"User", rfl⟩, [f]⟩
  have hread : Model.read false source = .ok m := toOption_eq_some_iff.mp (by decide +kernel)
  have htarget : target ∈ m.targets := by decide +kernel
  have hfind : f.tagFor? target = some tag := by decide +kernel
  have hfield := (Model.wellFormed_of_read hread).fields f List.mem_cons_self
  refine ⟨m, f, hread, htarget, rfl, by decide +kernel, ?_, by decide +kernel⟩
  intro hskips
  obtain ⟨hnullable, -⟩ := (Go.skips_iff hfield htarget).mp hskips tag hfind
  cases hnullable

end ClassSchema
