import ClassSchema.Proofs.LineFaults
import ClassSchema.Proofs.TypeExclusions

/-!
# What the fault of a type names

An expression that cannot be read is blamed on one of its parts: on the body of
an expression, which is what stands in front of its mark, on the name in front of
type parameters, or on a part further inside. The part that is named cannot be
read on its own either, unless it ends with a mark. Then it may be the notation of a
nullable type, and what is wrong is that another mark or a bracket follows.
-/

namespace ClassSchema

namespace Text

end Text

namespace FieldType

variable {inner : Text → Except MalformedType FieldType} {t body rest : Text} {u : FieldType}
  {part : MalformedType} {fault : TypeFault}

/-- The body of an expression is refused as a whole, whatever its parts are. -/
inductive Refuses : Text → TypeFault → Prop
  | openMapKey {rest : Text} (hcut : Brackets.cut? rest = none) :
      Refuses ("map[" ++ rest) .openMapKey
  | missingMapKey (value : Text) : Refuses ("map[" ++ ']' :: value) .missingMapKey
  | missingMapValue {key : Text} (hkey : Brackets.Balanced key) :
      Refuses ("map[" ++ (key ++ [']'])) .missingMapValue
  | namelessParameters (rest : Text) : Refuses ('[' :: rest) .namelessParameters
  | openParameters {name rest : Text} (hname : '[' ∉ name) (hcut : Brackets.cut? rest = none) :
      Refuses (name ++ '[' :: rest) .openParameters
  | textBehindParameters {name parameters behind : Text} (hname : '[' ∉ name)
      (hmap : name ≠ "map")
      (hlist : ¬ ("[]" : String).toList <:+ name ++ '[' :: (parameters ++ ']' :: behind))
      (hparameters : Brackets.Balanced parameters) (hbehind : behind ≠ []) :
      Refuses (name ++ '[' :: (parameters ++ ']' :: behind)) .textBehindParameters
  | emptyParameter {name parameters : Text} (hname : '[' ∉ name) (hmap : name ≠ "map")
      (hparameters : Brackets.Balanced parameters) (hne : parameters ≠ [])
      (hempty : [] ∈ Brackets.pieces parameters) :
      Refuses (name ++ '[' :: (parameters ++ [']'])) .emptyParameter
  | badName {name : Text} (hname : '[' ∉ name) (hinvalid : isTypeName name = false) :
      Refuses name .badName

/-- What the body of an expression is blamed on: itself, the name in front of its parameters,
or what one of its parts is blamed on. -/
inductive Blames (inner : Text → Except MalformedType FieldType) (body : Text) :
    MalformedType → Prop
  | whole {fault : TypeFault} (h : Refuses body fault) : Blames inner body ⟨body, fault⟩
  | name {name rest : Text} (hbody : body = name ++ '[' :: rest) (h : Refuses name .badName) :
      Blames inner body ⟨name, .badName⟩
  | part {s : Text} {part : MalformedType} (hs : s <:+: body) (h : inner s = .error part) :
      Blames inner body part

theorem readName_blames (hbracket : '[' ∉ body) (h : readName body = .error part) :
    Blames inner body part := by
  unfold readName at h
  split at h
  · cases h
  · split at h
    · cases h
    · next hname =>
      cases h
      exact .whole (.badName hbracket (TypeName.isTypeName_of_ofText_error hname))

theorem readMap_blames (h : readMap inner ("map[" ++ rest) rest = .error part) :
    Blames inner ("map[" ++ rest) part := by
  unfold readMap at h
  cases hcut : Brackets.cut? rest with
  | none =>
    simp only [hcut, Except.error.injEq] at h
    subst h
    exact .whole (.openMapKey hcut)
  | some cut =>
    obtain ⟨key, value⟩ := cut
    obtain ⟨rfl, hkey⟩ := Brackets.cut?_eq_some_iff.mp hcut
    simp only [hcut, List.isEmpty_iff] at h
    split_ifs at h with hnokey hnovalue
    · subst hnokey
      cases h
      exact .whole (.missingMapKey value)
    · subst hnovalue
      cases h
      exact .whole (.missingMapValue hkey)
    · rcases bind_eq_error_iff.mp h with hfail | ⟨k, -, h⟩
      · exact .part ⟨"map[", ']' :: value, by simp⟩ hfail
      · rcases bind_eq_error_iff.mp h with hfail | ⟨v, -, h⟩
        · exact .part ⟨"map[" ++ (key ++ [']']), [], by simp⟩ hfail
        · cases h

theorem readParameters_eq_error {pieces : List Text}
    (h : readParameters inner body pieces = .error part) :
    ([] ∈ pieces ∧ part = ⟨body, .emptyParameter⟩) ∨
      ∃ piece ∈ pieces, inner piece = .error part := by
  induction pieces with
  | nil => cases h
  | cons piece pieces ih =>
    unfold readParameters at h
    split_ifs at h with hempty
    · cases h
      rw [List.isEmpty_iff] at hempty
      exact .inl ⟨by simp [hempty], rfl⟩
    · rcases bind_eq_error_iff.mp h with hfail | ⟨p, -, h⟩
      · exact .inr ⟨piece, List.mem_cons_self, hfail⟩
      · rcases bind_eq_error_iff.mp h with hfail | ⟨ps, -, h⟩
        · rcases ih hfail with ⟨hmem, hpart⟩ | ⟨other, hother, hpart⟩
          · exact .inl ⟨List.mem_cons_of_mem _ hmem, hpart⟩
          · exact .inr ⟨other, List.mem_cons_of_mem _ hother, hpart⟩
        · cases h

theorem readCustom_blames {name : Text} (hname : '[' ∉ name) (hmap : name ≠ "map")
    (hlist : ¬ ("[]" : String).toList <:+ name ++ '[' :: rest)
    (h : readCustom inner (name ++ '[' :: rest) name rest = .error part) :
    Blames inner (name ++ '[' :: rest) part := by
  unfold readCustom at h
  split_ifs at h with hnameless
  · cases h
    rw [List.isEmpty_iff] at hnameless
    subst hnameless
    exact .whole (.namelessParameters rest)
  · cases hcut : Brackets.cut? rest with
    | none =>
      simp only [hcut, Except.error.injEq] at h
      subst h
      exact .whole (.openParameters hname hcut)
    | some cut =>
      obtain ⟨parameters, behind⟩ := cut
      obtain ⟨rfl, hparameters⟩ := Brackets.cut?_eq_some_iff.mp hcut
      simp only [hcut, Bool.not_eq_true', List.isEmpty_eq_false_iff, List.isEmpty_iff] at h
      split_ifs at h with hbehind hnone
      · cases h
        exact .whole (.textBehindParameters hname hmap hlist hparameters hbehind)
      · -- An empty pair of brackets at the end is that of a list.
        rw [not_not] at hbehind
        subst hbehind hnone
        exact absurd ⟨name, rfl⟩ hlist
      · rw [not_not] at hbehind
        subst hbehind
        rcases bind_eq_error_iff.mp h with hfail | ⟨ps, -, h⟩
        · rcases readParameters_eq_error hfail with ⟨hempty, rfl⟩ | ⟨piece, hpiece, hfail⟩
          · exact .whole (.emptyParameter hname hmap hparameters hnone hempty)
          · have hwithin : piece <:+: Text.joined "," (Brackets.pieces parameters) :=
              Text.infix_joined hpiece
            rw [Brackets.pieces, Brackets.joined_piecesAt] at hwithin
            exact .part (hwithin.trans ⟨name ++ ['['], [']'], by simp⟩) hfail
        · split at h
          · cases h
          · next hinvalid =>
            cases h
            exact .name rfl (.badName hname (TypeName.isTypeName_of_ofText_error hinvalid))

theorem readBody_blames (h : readBody inner body = .error part) : Blames inner body part := by
  by_cases hmap : ("map[" : String).toList <+: body
  · obtain ⟨rest, rfl⟩ := hmap
    rw [readBody_map] at h
    exact readMap_blames h
  by_cases hlist : ("[]" : String).toList <:+ body
  · obtain ⟨element, rfl⟩ := hlist
    rw [readBody_list hmap] at h
    rcases bind_eq_error_iff.mp h with hfail | ⟨e, -, h⟩
    · exact .part (List.prefix_append element _).isInfix hfail
    · cases h
  by_cases hbracket : '[' ∈ body
  · obtain ⟨name, rest, rfl, hname⟩ := List.eq_append_cons_of_mem hbracket
    rw [readBody_custom hmap hlist hname] at h
    exact readCustom_blames hname (fun heq => hmap ((map_prefix_iff hname).mpr heq)) hlist h
  · rw [readBody_name hbracket] at h
    exact readName_blames hbracket h

theorem render_eq_append_mark (u : FieldType) :
    u.render = (u.withNullable false).render ++ mark u.nullable := by
  rw [← render_withNullable, withNullable_nullable]

theorem Expressible.readBody_unmarked (h : u.Expressible) :
    readBody (readCompact u.height) (u.withNullable false).render =
      .ok (u.withNullable false) := by
  apply (readsExactly_readCompact u.height).body_complete (nullable_withNullable false u)
  · rw [height_withNullable]
    exact Nat.lt_succ_self _
  · rw [withNullable_withNullable]
    exact h.withNullable_true

theorem Expressible.readBody_render (h : u.Expressible) (hn : u.nullable = false) :
    readBody (readCompact u.height) u.render = .ok u := by
  have hbody := h.readBody_unmarked
  rwa [← hn, withNullable_nullable] at hbody

theorem Expressible.nullable_of_getLast? (h : u.Expressible) {c : Char}
    (hlast : u.render.getLast? = some c) (hc : c ≠ '?') : u.nullable = false := by
  by_contra hn
  rw [Bool.not_eq_false, ← h.getLast?_render_iff, hlast] at hn
  exact hc (Option.some.inj hn)

theorem head?_render_ne_bracket (u : FieldType) : u.render.head? ≠ some '[' := by
  induction u with
  | primitive kind n => cases kind <;> cases n <;> decide
  | list element n ih =>
    have hassoc : (list element n).render = element.render ++ ("[]" ++ mark n) := by simp
    rw [hassoc, List.head?_append_of_ne_nil _ (render_ne_nil element)]
    exact ih
  | map key value n =>
    have hstart : (map key value n).render = 'm' :: ("ap[" ++ key.render ++ "]" ++
        value.render ++ mark n) := rfl
    rw [hstart, List.head?_cons]
    decide
  | custom name ps n =>
    have hname : ∃ more, (custom name ps n).render = name.text ++ more := by
      cases ps with
      | nil => exact ⟨mark n, rfl⟩
      | cons p ps =>
        exact ⟨"[" ++ p.render ++ renderMore ps ++ "]" ++ mark n, by simp [render_custom_cons]⟩
    obtain ⟨more, hmore⟩ := hname
    rw [hmore, List.head?_append_of_ne_nil _ name.text_ne_nil]
    intro hhead
    exact name.not_mem_text (by decide) (List.mem_of_head? hhead)

theorem Expressible.render_ne_missingMapKey (h : u.Expressible) (value : Text) :
    u.render ≠ "map[" ++ ']' :: value := by
  intro hrender
  have hunmarked : ∃ value', (u.withNullable false).render = "map[" ++ ']' :: value' := by
    rw [render_eq_append_mark] at hrender
    cases hn : u.nullable with
    | false =>
      rw [hn] at hrender
      exact ⟨value, by simpa [mark] using hrender⟩
    | true =>
      have hconcat :
          ("map[]" : String).toList ++ value = (u.withNullable false).render ++ ['?'] := by
        rw [hn] at hrender
        exact hrender.symm
      obtain ⟨value', -, hfront⟩ := Text.exists_of_append_eq_concat hconcat (by decide)
      exact ⟨value', hfront⟩
  obtain ⟨value', hbody⟩ := hunmarked
  have hread := h.readBody_unmarked
  rw [hbody, readBody_map] at hread
  obtain ⟨key, _, _, _, hrest, hkey, hne, -⟩ := readMap_eq_ok_iff.mp hread
  exact hne (Brackets.balanced_nil.close_inj hkey hrest).1.symm

theorem Expressible.render_ne_missingMapValue (h : u.Expressible) {key : Text}
    (hkey : Brackets.Balanced key) : u.render ≠ "map[" ++ (key ++ [']']) := by
  intro hrender
  have hlast : u.render.getLast? = some ']' := by
    rw [hrender, ← List.append_assoc, List.getLast?_concat]
  have hread := h.readBody_render (h.nullable_of_getLast? hlast (by decide))
  rw [hrender, readBody_map] at hread
  obtain ⟨key', value, _, _, hrest, hkey', -, hne, -⟩ := readMap_eq_ok_iff.mp hread
  exact hne (hkey.close_inj hkey' hrest).2.symm

/-- What is read as a custom type with parameters ends behind them, and none is empty. -/
theorem Expressible.parameters_of_render (h : u.Expressible) (hn : u.nullable = false)
    {name parameters behind : Text} (hname : '[' ∉ name) (hmap : name ≠ "map")
    (hlist : ¬ ("[]" : String).toList <:+ name ++ '[' :: (parameters ++ ']' :: behind))
    (hparameters : Brackets.Balanced parameters)
    (hrender : u.render = name ++ '[' :: (parameters ++ ']' :: behind)) :
    behind = [] ∧ [] ∉ Brackets.pieces parameters := by
  have hread := h.readBody_render hn
  rw [hrender, readBody_custom (fun hstart => hmap ((map_prefix_iff hname).mp hstart)) hlist
    hname] at hread
  obtain ⟨_, parameters', ps, -, hrest, hparameters', -, hps, -⟩ := readCustom_eq_ok_iff.mp hread
  obtain ⟨rfl, rfl⟩ := hparameters.close_inj hparameters' hrest
  exact ⟨rfl, fun hempty => ((List.forall₂_and_left _ _).mp hps).1 [] hempty rfl⟩

theorem Expressible.isTypeName_render (h : u.Expressible) (hn : u.nullable = false)
    (hbracket : '[' ∉ u.render) : isTypeName u.render = true := by
  have hread := h.readBody_render hn
  rw [readBody_name hbracket] at hread
  rcases readName_eq_ok_iff.mp hread with ⟨p, hp, -⟩ | ⟨name, hname, -⟩
  · rw [hp]
    cases p <;> decide
  · rw [hname]
    exact name.valid

/-- Only two of the reasons leave a body that can be read on its own, and then it ends with
a mark. -/
theorem Refuses.nullable_of_render (h : Refuses body fault) (hu : u.Expressible)
    (hrender : u.render = body) :
    u.nullable = true ∧ (fault = .badName ∨ fault = .textBehindParameters) := by
  have hbalanced : Brackets.Balanced body := hrender ▸ (unsplit_render u).1
  cases h with
  | openMapKey hcut =>
    exact absurd hcut (Brackets.Balanced.cut?_ne_none (s := "map") hbalanced (by decide))
  | missingMapKey value => exact absurd hrender (hu.render_ne_missingMapKey value)
  | missingMapValue hkey => exact absurd hrender (hu.render_ne_missingMapValue hkey)
  | namelessParameters rest =>
    have hhead := head?_render_ne_bracket u
    rw [hrender] at hhead
    exact absurd rfl hhead
  | openParameters hname hcut => exact absurd hcut (hbalanced.cut?_ne_none hname)
  | textBehindParameters hname hmap hlist hparameters hbehind =>
    refine ⟨?_, .inr rfl⟩
    by_contra hn
    rw [Bool.not_eq_true] at hn
    exact hbehind (hu.parameters_of_render hn hname hmap hlist hparameters hrender).1
  | @emptyParameter name parameters hname hmap hparameters hne hempty =>
    have hlast : u.render.getLast? = some ']' := by
      rw [hrender, ← List.cons_append, ← List.append_assoc, List.getLast?_concat]
    have hn := hu.nullable_of_getLast? hlast (by decide)
    have hlist := hparameters.not_empty_pair_suffix hne name
    exact absurd hempty (hu.parameters_of_render hn hname hmap hlist hparameters hrender).2
  | badName hname hinvalid =>
    refine ⟨?_, .inl rfl⟩
    by_contra hn
    rw [Bool.not_eq_true] at hn
    subst hrender
    rw [hu.isTypeName_render hn hname] at hinvalid
    cases hinvalid

/-- The part that a fault of an expression names is in the expression. If it is the notation of
a type, then of a nullable one whose mark is followed by another mark or by a bracket. -/
structure Names (t : Text) (part : MalformedType) : Prop where
  within : part.text <:+: t
  marked : part.fault ≠ .tooDeep → ∀ u : FieldType, u.Expressible → u.render = part.text →
    u.nullable = true ∧ (part.fault = .badName ∨ part.fault = .textBehindParameters) ∧
      (part.text ++ ['?'] <:+: t ∨ part.text ++ ['['] <:+: t)

theorem Names.of_part {s : Text} (h : Names s part) (hs : s <:+: t) : Names t part := by
  refine ⟨h.within.trans hs, fun hdeep u hu hrender => ?_⟩
  obtain ⟨hn, hfault, hnext⟩ := h.marked hdeep u hu hrender
  exact ⟨hn, hfault, hnext.imp (·.trans hs) (·.trans hs)⟩

theorem Blames.names {n : Bool} (hcut : cutMark t = (body, n))
    (hinner : ∀ s part, inner s = .error part → Names s part) (h : Blames inner body part) :
    Names t part := by
  obtain ⟨rfl, hlast⟩ := cutMark_eq_iff.mp hcut
  have hbody : body <:+: body ++ mark n := (List.prefix_append body _).isInfix
  cases h with
  | whole h =>
    refine ⟨hbody, fun _ u hu hrender => ?_⟩
    obtain ⟨hn, hfault⟩ := h.nullable_of_render hu hrender
    refine ⟨hn, hfault, .inl ?_⟩
    -- The body ends with a mark, so what was cut off behind it is another one.
    have hend : body.getLast? = some '?' := by
      rw [← show u.render = body from hrender]
      exact hu.getLast?_render_iff.mpr hn
    cases n with
    | true => exact List.infix_rfl
    | false => exact absurd (by simpa [mark] using hend) (hlast rfl)
  | @name name rest hsplit h =>
    subst hsplit
    have hname : name <:+: name ++ '[' :: rest := (List.prefix_append name _).isInfix
    refine ⟨hname.trans hbody, fun _ u hu hrender => ?_⟩
    obtain ⟨hn, hfault⟩ := h.nullable_of_render hu hrender
    exact ⟨hn, hfault, .inr (List.IsInfix.trans ⟨[], rest, by simp⟩ hbody)⟩
  | part hs hfail => exact (hinner _ _ hfail).of_part (hs.trans hbody)

theorem names_of_not_notation (h : ∀ u : FieldType, u.Expressible → u.render ≠ t) :
    Names t ⟨t, fault⟩ :=
  ⟨List.infix_rfl, fun _ u hu hrender => absurd hrender (h u hu)⟩

theorem Expressible.render_ne_mark (h : u.Expressible) (n : Bool) : u.render ≠ mark n := by
  intro hrender
  have hn : u.nullable = n := by
    have hlast := h.getLast?_render_iff
    rw [hrender] at hlast
    cases n <;> simpa [mark] using hlast
  rw [render_eq_append_mark, hn] at hrender
  exact render_ne_nil _ (List.append_cancel_right (hrender : _ = [] ++ mark n))

/-- By induction on the levels that are left: each level blames itself or a level below. -/
theorem names_of_readCompact {room : ℕ} (h : readCompact room t = .error part) :
    Names t part := by
  induction room generalizing t part with
  | zero =>
    unfold readCompact at h
    split_ifs at h with hempty
    · cases h
      rw [List.isEmpty_iff] at hempty
      exact names_of_not_notation fun u _ => hempty ▸ u.render_ne_nil
    · cases h
      exact ⟨List.infix_rfl, fun hdeep => absurd rfl hdeep⟩
  | succ room ih =>
    obtain ⟨⟨body, n⟩, hcut⟩ : ∃ cut, cutMark t = cut := ⟨_, rfl⟩
    unfold readCompact at h
    simp only [hcut, List.isEmpty_iff] at h
    split_ifs at h with hempty hlone
    · cases h
      exact names_of_not_notation fun u _ => hempty ▸ u.render_ne_nil
    · cases h
      obtain ⟨rfl, -⟩ := cutMark_eq_iff.mp hcut
      subst hlone
      exact names_of_not_notation fun u hu => hu.render_ne_mark n
    · rcases bind_eq_error_iff.mp h with hfail | ⟨v, -, h⟩
      · exact (readBody_blames hfail).names hcut fun s part => ih
      · cases h

end FieldType

/-- Where the fault of a type points: at the whole expression, with a part of it that is named.
Unless the expression nests too deep, that part cannot be read on its own, except for a nullable
type whose mark is followed by another mark or by a bracket. -/
theorem readType_error_names_part {text : Text} {fault : Fault}
    (h : readType text = .error fault) :
    ∃ part, fault = .malformedType part ⟨0, text.byteLength⟩ ∧
      part.text <:+: Text.withoutBlanks text ∧
      (part.fault ≠ .tooDeep → ∀ t, readType part.text = .ok t →
        t.nullable = true ∧ (part.fault = .badName ∨ part.fault = .textBehindParameters) ∧
          (part.text ++ ['?'] <:+: Text.withoutBlanks text ∨
            part.text ++ ['['] <:+: Text.withoutBlanks text)) := by
  obtain ⟨part, hpart, rfl⟩ := mapError_eq_error_iff.mp h
  have hnames := FieldType.names_of_readCompact hpart
  refine ⟨part, by simp [Span.ofText], hnames.within, fun hdeep t ht => ?_⟩
  obtain ⟨hrender, -, hexpr⟩ := FieldType.read_eq_ok_iff.mp (mapError_eq_ok_iff.mp ht)
  rw [Text.withoutBlanks_of_part hnames.within] at hrender
  exact hnames.marked hdeep t hexpr hrender

/-- The innermost part is named, and it cannot be read on its own. -/
theorem readType_error_names_part_innermost :
    let text : Text := "map[string] Box[int?] x"
    let part : Text := "Box[int?]x"
    (∃ fault, readType text = .error (.malformedType ⟨part, fault⟩ ⟨0, 23⟩) ∧ fault ≠ .tooDeep) ∧
      part <:+: Text.withoutBlanks text ∧ ∀ t, readType part ≠ .ok t := by
  intro text part
  have hfail : readType text =
      .error (.malformedType ⟨part, .textBehindParameters⟩ ⟨0, 23⟩) := by decide +kernel
  obtain ⟨named, hfault, hwithin, hmarked⟩ := readType_error_names_part hfail
  obtain ⟨rfl, -⟩ := Fault.malformedType.inj hfault
  refine ⟨⟨_, hfail, by decide⟩, hwithin, fun t ht => ?_⟩
  obtain ⟨-, -, hmark | hbracket⟩ := hmarked (by decide) t ht
  · exact absurd hmark (by decide +kernel)
  · exact absurd hbracket (by decide +kernel)

/-- Behind a mark, another mark or a bracket makes an expression unreadable, but the part that
is named ends with the first mark and can be read on its own. -/
theorem readType_error_names_readable_part :
    let reads (text : Text) : Bool := (readType text).toOption.isSome
    readType "int??" = .error (.malformedType ⟨"int?", .badName⟩ ⟨0, 5⟩) ∧ reads "int?" ∧
      readType "Box?[int]" = .error (.malformedType ⟨"Box?", .badName⟩ ⟨0, 9⟩) ∧ reads "Box?" ∧
      readType "Box[int]??" =
        .error (.malformedType ⟨"Box[int]?", .textBehindParameters⟩ ⟨0, 10⟩) ∧
      reads "Box[int]?" := by
  decide +kernel

end ClassSchema
