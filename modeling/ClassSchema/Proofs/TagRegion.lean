import ClassSchema.Proofs.Text
import ClassSchema.Source.Line

/-!
# Tag regions

The lexer is run over one stretch of text after the other: the state that one
stretch ends with is all that the next one sees. A text spells some tags if the
lexer is between tokens behind it and the scan finds these tags and nothing
else in it. Texts that spell tags can be written one behind the other.
-/

namespace ClassSchema

namespace Token

section Step

variable {offset start : ℕ} {reversed : Text} {c : Char}

end Step

/-- The state behind a stretch of text and the tokens that are complete there. -/
def run (offset : ℕ) (pending : Pending) : Text → Pending × List Token
  | [] => (pending, [])
  | c :: t =>
    let (next, tokens) := step offset pending c
    let (final, more) := run (offset + c.utf8Size) next t
    (final, tokens ++ more)

theorem run_append (offset : ℕ) (pending : Pending) (s t : Text) :
    run offset pending (s ++ t) =
      ((run (offset + s.byteLength) (run offset pending s).1 t).1,
        (run offset pending s).2 ++
          (run (offset + s.byteLength) (run offset pending s).1 t).2) := by
  induction s generalizing offset pending with
  | nil => simp [run]
  | cons c s ih => simp [run, ih, Nat.add_assoc]

theorem lexFrom_eq_run (offset : ℕ) (pending : Pending) (t : Text) :
    lexFrom offset pending t = (run offset pending t).2 ++ finish (run offset pending t).1 := by
  induction t generalizing offset pending with
  | nil => simp [run, lexFrom]
  | cons c t ih => simp [run, lexFrom, ih]

theorem lexFrom_append (offset : ℕ) (pending : Pending) (s t : Text) :
    lexFrom offset pending (s ++ t) = (run offset pending s).2 ++
      lexFrom (offset + s.byteLength) (run offset pending s).1 t := by
  rw [lexFrom_eq_run, lexFrom_eq_run, run_append, List.append_assoc]

theorem run_gaps {t : Text} (h : ∀ c ∈ t, isGap c = true) (offset : ℕ) :
    run offset .nothing t = (.nothing, []) := by
  induction t generalizing offset with
  | nil => rfl
  | cons c t ih =>
    obtain ⟨hc, ht⟩ := List.forall_mem_cons.mp h
    simp [run, step, enter, hc, ih ht]

theorem run_targetChars {t : Text} (h : ∀ c ∈ t, isTargetChar c = true) (offset start : ℕ)
    (reversed : Text) :
    run offset (.target start reversed) t = (.target start (t.reverse ++ reversed), []) := by
  induction t generalizing offset reversed with
  | nil => rfl
  | cons c t ih =>
    obtain ⟨hc, ht⟩ := List.forall_mem_cons.mp h
    simp [run, step_target_of_isTargetChar hc, ih ht]

theorem run_target (target : TagTarget) (offset : ℕ) :
    run offset .nothing target.text = (.target offset target.text.reverse, []) := by
  obtain ⟨text, hvalid⟩ := target
  cases text with
  | nil => simp [isTagTarget] at hvalid
  | cons c t =>
    simp only [isTagTarget, Bool.and_eq_true, List.all_eq_true] at hvalid
    obtain ⟨hc, ht⟩ := hvalid
    simp [run, step, enter, isGap_of_isAlpha hc, hc, run_targetChars ht]

theorem run_unquoted {t : Text} (h : '"' ∉ t) (offset start : ℕ) (reversed : Text) :
    run offset (.literal start reversed) t = (.literal start (t.reverse ++ reversed), []) := by
  induction t generalizing offset reversed with
  | nil => rfl
  | cons c t ih =>
    rw [List.mem_cons, not_or] at h
    simp [run, step_literal_of_ne (Ne.symm h.1), ih h.2]

theorem run_unclosed {t : Text} (h : '"' ∉ t) (offset : ℕ) :
    run offset .nothing ('"' :: t) = (.literal offset ('"' :: t).reverse, []) := by
  have hopen : run offset .nothing ['"'] = (.literal offset ['"'], []) := by
    simp [run, step, enter, isGap]
  rw [← List.singleton_append, run_append, hopen, run_unquoted h]
  simp

theorem run_quoted {t : Text} (h : '"' ∉ t) (offset : ℕ) :
    run offset .nothing ('"' :: t ++ ['"']) =
      (.nothing, [⟨.literal, '"' :: t ++ ['"'], offset⟩]) := by
  rw [run_append, run_unclosed h]
  simp [run, step_literal_quote]

/-- What may stand between a target and its colon: the mark of a nullable tag, or gaps. -/
def Marks (nullable : Bool) (marker : Text) : Prop :=
  (nullable = true ∧ marker = "?") ∨ (nullable = false ∧ ∀ c ∈ marker, isGap c = true)

theorem run_colon (offset : ℕ) :
    run offset .nothing [':'] = (.nothing, [⟨.colon, [':'], offset⟩]) := rfl

/-- A colon, or a mark or gap before it, completes the target. -/
theorem run_marker {nullable : Bool} {marker : Text} (h : Marks nullable marker)
    (offset start : ℕ) (reversed : Text) :
    run offset (.target start reversed) (marker ++ [':']) =
      (.nothing, [⟨.target, reversed.reverse ++ FieldType.mark nullable, start⟩,
        ⟨.colon, [':'], offset + marker.byteLength⟩]) := by
  rcases h with ⟨rfl, rfl⟩ | ⟨rfl, hgaps⟩
  · rw [run_append]
    have hmark : run offset (.target start reversed) ("?" : String).toList =
        (.nothing, [⟨.target, reversed.reverse ++ ['?'], start⟩]) := by
      simp [run, step_target_mark]
    rw [hmark, run_colon]
    rfl
  · cases marker with
    | nil =>
      have hchar : isTargetChar ':' = false := by decide
      have halpha : Char.isAlpha ':' = false := by decide
      simp [run, step, enter, isGap, hchar, halpha, FieldType.mark]
    | cons c marker =>
      obtain ⟨hc, hmarker⟩ := List.forall_mem_cons.mp hgaps
      obtain ⟨hchar, hne⟩ := isTargetChar_of_isGap hc
      have hfirst : run offset (.target start reversed) [c] =
          (.nothing, [⟨.target, reversed.reverse, start⟩]) := by
        simp [run, step, enter, hchar, hne, hc]
      rw [List.cons_append, ← List.singleton_append, run_append, hfirst, run_append,
        run_gaps hmarker, run_colon]
      simp [FieldType.mark, Nat.add_assoc]

/-- The three tokens of a tag. -/
theorem run_tag (target : TagTarget) {nullable : Bool} {marker values : Text}
    (hmarker : Marks nullable marker) (hvalues : '"' ∉ values) (offset : ℕ) :
    ∃ colonStart valuesStart,
      run offset .nothing (target.text ++ marker ++ ":\"" ++ values ++ "\"") =
        (.nothing, [⟨.target, target.text ++ FieldType.mark nullable, offset⟩,
          ⟨.colon, [':'], colonStart⟩, ⟨.literal, '"' :: values ++ ['"'], valuesStart⟩]) := by
  have hparts : target.text ++ marker ++ ":\"" ++ values ++ "\"" =
      target.text ++ ((marker ++ [':']) ++ ('"' :: values ++ ['"'])) := by
    simp
  refine ⟨offset + target.text.byteLength + marker.byteLength,
    offset + target.text.byteLength + (marker ++ [':']).byteLength, ?_⟩
  rw [hparts, run_append, run_target, run_append, run_marker hmarker, run_quoted hvalues]
  simp

end Token

def RawTag.IsOf (raw : RawTag) (tag : Tag) : Prop :=
  raw.target = tag.target.text ∧ raw.nullable = tag.nullable ∧ raw.values = tag.joinedValues

/-- The mark and the quotation marks are taken off. -/
theorem RawTag.ofTokens_eq (target : TagTarget) (n : Bool) (values : Text)
    (start valuesStart : ℕ) :
    RawTag.ofTokens ⟨.target, target.text ++ FieldType.mark n, start⟩
        ⟨.literal, '"' :: values ++ ['"'], valuesStart⟩ =
      ⟨target.text, n, values,
        ⟨start, (Span.ofText valuesStart ('"' :: values ++ ['"'])).stop⟩⟩ := by
  have hcut : Text.withoutEnding? "?" (target.text ++ FieldType.mark n) =
      if n then some target.text else none := by
    cases n with
    | true => exact Text.withoutEnding?_append _ _
    | false =>
      refine Text.withoutEnding?_eq_none_iff.mpr fun hsuffix => ?_
      have hmark : '?' ∈ target.text ++ FieldType.mark false :=
        hsuffix.subset (by decide : '?' ∈ ("?" : String).toList)
      have hmem : '?' ∈ target.text := by simpa [FieldType.mark] using hmark
      have hchar := target.isTargetChar_of_mem hmem
      revert hchar
      decide
  simp only [RawTag.ofTokens, hcut, Token.span]
  cases n <;> simp [FieldType.mark, Span.ofText]

theorem TagScan.ofTokens_append {tokens : List Token} (h : (ofTokens tokens).2 = none)
    (more : List Token) :
    ofTokens (tokens ++ more) =
      ((ofTokens tokens).1 ++ (ofTokens more).1, (ofTokens more).2) := by
  fun_induction ofTokens tokens with
  | case1 => simp
  | case2 text start tokens ih => simpa [ofTokens] using ih h
  | case3 name start text colonStart values valuesStart tokens tags stop hrest ih =>
    simp_all [ofTokens]
  | case4 => simp at h

/-- Behind the text the lexer is between tokens, and the scan finds the given tags
and nothing else. -/
def Text.Spells (t : Text) (tags : List Tag) : Prop :=
  ∀ offset, (Token.run offset .nothing t).1 = .nothing ∧
    (TagScan.ofTokens (Token.run offset .nothing t).2).2 = none ∧
    List.Forall₂ RawTag.IsOf (TagScan.ofTokens (Token.run offset .nothing t).2).1 tags

namespace Text

variable {s t : Text} {tags more : List Tag}

theorem Spells.append (hs : s.Spells tags) (ht : t.Spells more) :
    (s ++ t).Spells (tags ++ more) := by
  intro offset
  obtain ⟨hstate, hstop, htags⟩ := hs offset
  obtain ⟨hstate', hstop', htags'⟩ := ht (offset + s.byteLength)
  rw [Token.run_append, hstate, TagScan.ofTokens_append hstop]
  exact ⟨hstate', hstop', List.rel_append htags htags'⟩

theorem spells_gaps (h : ∀ c ∈ t, Token.isGap c = true) : t.Spells [] := by
  intro offset
  rw [Token.run_gaps h]
  exact ⟨rfl, rfl, List.Forall₂.nil⟩

theorem spells_filler : Spells ("-" : String).toList [] := by
  intro offset
  have hrun : Token.run offset .nothing ("-" : String).toList =
      (.nothing, [⟨.filler, ['-'], offset⟩]) := rfl
  rw [hrun]
  exact ⟨rfl, rfl, List.Forall₂.nil⟩

theorem spells_tag (tag : Tag) {marker : Text} (hmarker : Token.Marks tag.nullable marker)
    (hvalues : '"' ∉ tag.joinedValues) :
    Spells (tag.target.text ++ marker ++ ":\"" ++ tag.joinedValues ++ "\"") [tag] := by
  intro offset
  obtain ⟨colonStart, valuesStart, hrun⟩ := Token.run_tag tag.target hmarker hvalues offset
  rw [hrun]
  refine ⟨rfl, rfl, List.Forall₂.cons ?_ List.Forall₂.nil⟩
  rw [RawTag.ofTokens_eq]
  exact ⟨rfl, rfl, rfl⟩

theorem Spells.scan (h : t.Spells tags) :
    ∃ raws, TagScan.scan t = ⟨raws, none⟩ ∧ List.Forall₂ RawTag.IsOf raws tags := by
  obtain ⟨hstate, hstop, htags⟩ := h 0
  refine ⟨_, ?_, htags⟩
  simp only [TagScan.scan, Token.lex, Token.lexFrom_eq_run, hstate, Token.finish, List.append_nil,
    hstop, Option.map_none]

end Text

namespace Token

/-- A pending token is a beginning of one: a target, or an opened quotation whose
characters satisfy `p`. -/
def Pending.Sound (p : Char → Prop) : Pending → Prop
  | nothing => True
  | target _ reversed => isTagTarget reversed.reverse = true
  | literal _ reversed => ∃ body, reversed.reverse = '"' :: body ∧ '"' ∉ body ∧ ∀ c ∈ body, p c

/-- A target is a valid one with an optional mark, and a literal is a quotation
whose characters satisfy `p`. -/
def Sound (p : Char → Prop) (token : Token) : Prop :=
  match token.kind with
  | .target => ∃ (target : TagTarget) (n : Bool), token.text = target.text ++ FieldType.mark n
  | .literal => ∃ body, token.text = '"' :: body ++ ['"'] ∧ '"' ∉ body ∧ ∀ c ∈ body, p c
  | _ => True

variable {p : Char → Prop} {pending : Pending} {c : Char}

theorem enter_sound (offset : ℕ) (c : Char) :
    (enter offset c).1.Sound p ∧ ∀ token ∈ (enter offset c).2, token.Sound p := by
  unfold enter
  split_ifs with hgap halpha hquote
  · exact ⟨trivial, by simp⟩
  · exact ⟨by simp [Pending.Sound, isTagTarget, halpha], by simp⟩
  · exact ⟨⟨[], by simp [hquote], by simp, by simp⟩, by simp⟩
  all_goals exact ⟨trivial, by simp [Sound]⟩

theorem sound_of_isTagTarget {t : Text} (h : isTagTarget t = true) (start : ℕ) :
    Sound p ⟨.target, t, start⟩ :=
  ⟨⟨t, h⟩, false, by simp [FieldType.mark]⟩

theorem step_target_sound {reversed : Text} (h : isTagTarget reversed.reverse = true)
    (offset start : ℕ) (c : Char) :
    (step offset (.target start reversed) c).1.Sound p ∧
      ∀ token ∈ (step offset (.target start reversed) c).2, token.Sound p := by
  by_cases hchar : isTargetChar c = true
  · rw [step_target_of_isTargetChar hchar]
    refine ⟨?_, by simp⟩
    simpa [Pending.Sound] using isTagTarget_concat h hchar
  by_cases hmark : c = '?'
  · subst hmark
    rw [step_target_mark]
    refine ⟨trivial, List.forall_mem_singleton.mpr ?_⟩
    exact ⟨⟨reversed.reverse, h⟩, true, by simp [FieldType.mark]⟩
  · rw [step_target_of_ne hchar hmark]
    obtain ⟨hnext, htokens⟩ := enter_sound (p := p) offset c
    exact ⟨hnext, List.forall_mem_cons.mpr ⟨sound_of_isTagTarget h start, htokens⟩⟩

theorem step_literal_sound {reversed body : Text} (hrev : reversed.reverse = '"' :: body)
    (hquote : '"' ∉ body) (hbody : ∀ d ∈ body, p d) (hc : p c) (offset start : ℕ) :
    (step offset (.literal start reversed) c).1.Sound p ∧
      ∀ token ∈ (step offset (.literal start reversed) c).2, token.Sound p := by
  by_cases hclose : c = '"'
  · subst hclose
    rw [step_literal_quote]
    refine ⟨trivial, List.forall_mem_singleton.mpr ?_⟩
    exact ⟨body, by simp [hrev], hquote, hbody⟩
  · rw [step_literal_of_ne hclose]
    refine ⟨⟨body ++ [c], by simp [hrev], ?_, ?_⟩, by simp⟩
    · simp [hquote, Ne.symm hclose]
    · exact List.forall_mem_append.mpr ⟨hbody, List.forall_mem_singleton.mpr hc⟩

theorem step_sound (h : pending.Sound p) (hc : p c) (offset : ℕ) :
    (step offset pending c).1.Sound p ∧ ∀ token ∈ (step offset pending c).2, token.Sound p := by
  cases pending with
  | nothing => exact enter_sound offset c
  | target start reversed => exact step_target_sound h offset start c
  | literal start reversed =>
    obtain ⟨body, hrev, hquote, hbody⟩ := h
    exact step_literal_sound hrev hquote hbody hc offset start

theorem lexFrom_sound {t : Text} (h : pending.Sound p) (ht : ∀ c ∈ t, p c) (offset : ℕ) :
    ∀ token ∈ lexFrom offset pending t, token.Sound p := by
  induction t generalizing offset pending with
  | nil =>
    cases pending with
    | nothing => simp [lexFrom, finish]
    | target start reversed =>
      exact List.forall_mem_singleton.mpr (sound_of_isTagTarget h start)
    | literal start reversed =>
      exact List.forall_mem_singleton.mpr trivial
  | cons c t ih =>
    obtain ⟨hc, ht⟩ := List.forall_mem_cons.mp ht
    obtain ⟨hnext, htokens⟩ := step_sound h hc offset
    intro token htoken
    rcases List.mem_append.mp htoken with htoken | htoken
    · exact htokens token htoken
    · exact ih hnext ht _ token htoken

end Token

/-- The target is valid, and the values are text between two quotation marks whose
characters satisfy `p`. -/
structure RawTag.Sound (p : Char → Prop) (raw : RawTag) : Prop where
  target : ∃ target : TagTarget, raw.target = target.text
  unquoted : '"' ∉ raw.values
  values : ∀ c ∈ raw.values, p c

theorem TagScan.ofTokens_sound {p : Char → Prop} {tokens : List Token}
    (h : ∀ token ∈ tokens, token.Sound p) : ∀ raw ∈ (ofTokens tokens).1, raw.Sound p := by
  fun_induction ofTokens tokens with
  | case1 => simp
  | case2 text start tokens ih =>
    exact ih fun token htoken => h token (List.mem_cons_of_mem _ htoken)
  | case3 name start text colonStart values valuesStart tokens tags stop hrest ih =>
    simp only [List.forall_mem_cons] at h
    obtain ⟨⟨target, n, hname⟩, -, ⟨body, hvalues, hquote, hbody⟩, htokens⟩ := h
    dsimp only at hname hvalues
    subst hname hvalues
    refine List.forall_mem_cons.mpr ⟨?_, by simpa [hrest] using ih htokens⟩
    rw [RawTag.ofTokens_eq]
    exact ⟨⟨target, rfl⟩, hquote, hbody⟩
  | case4 => simp

theorem TagScan.scan_sound (region : Text) :
    ∀ raw ∈ (scan region).tags, raw.Sound (· ∈ region) := by
  have hstart : Token.Pending.Sound (· ∈ region) .nothing := trivial
  exact ofTokens_sound (Token.lexFrom_sound hstart (fun _ hc => hc) 0)

end ClassSchema
