import ClassSchema.Proofs.FieldLine
import ClassSchema.Proofs.TagDecomposition

/-!
# Tokens are longest matches

A kind of token is given by its texts, without any lexer. At each place that is no gap
the lexer takes the longest text there that any kind has. What begins no such text is
an unmatched token of one character, or of all that is left behind a quotation mark
that is never closed. So the tokens tile their region, and a text that is a target with
or without a mark is one token.
-/

namespace ClassSchema

theorem Span.Covers.eq_of_whole {t part : Text} (h : (Span.ofText 0 t).Covers t part) :
    part = t := by
  obtain ⟨before, after, ht, hspan⟩ := h
  simp only [Span.ofText, Span.mk.injEq] at hspan
  have hlength := congrArg Text.byteLength ht
  simp only [Text.byteLength_append] at hlength
  obtain rfl : before = [] := Text.byteLength_eq_zero_iff.mp hspan.1.symm
  obtain rfl : after = [] := Text.byteLength_eq_zero_iff.mp (by omega)
  simpa using ht.symm

namespace Token

variable {offset : ℕ} {t word after : Text} {kind : TokenKind} {token : Token}
  {tokens : List Token}

/-- A target with or without a mark, a colon, a quotation, or a filler. No text is an
unmatched one by itself. -/
def Matches : TokenKind → Text → Prop
  | .target, t => ∃ (target : TagTarget) (n : Bool), t = target.text ++ FieldType.mark n
  | .colon, t => t = [':']
  | .literal, t => ∃ body, t = '"' :: body ++ ['"'] ∧ '"' ∉ body
  | .filler, t => t = ['-']
  | .unmatched, _ => False

/-- Where the text of a kind stands, a token of this kind begins with it. -/
theorem exists_lexFrom_of_matches (h : Matches kind word) (offset : ℕ) (more : Text) :
    ∃ further rest, more = further ++ rest ∧ lexFrom offset .nothing (word ++ more) =
      ⟨kind, word ++ further, offset⟩ ::
        lexFrom (offset + Text.byteLength (word ++ further)) .nothing rest := by
  have hwhole (hrun : run offset .nothing word = (.nothing, [⟨kind, word, offset⟩])) :
      ∃ further rest, more = further ++ rest ∧ lexFrom offset .nothing (word ++ more) =
        ⟨kind, word ++ further, offset⟩ ::
          lexFrom (offset + Text.byteLength (word ++ further)) .nothing rest := by
    refine ⟨[], more, rfl, ?_⟩
    rw [lexFrom_append, hrun, List.append_nil]
    rfl
  cases kind with
  | target =>
    obtain ⟨target, n, rfl⟩ := h
    cases n with
    | true =>
      refine hwhole ?_
      rw [run_append, run_target]
      simp [run, FieldType.mark, step_target_mark]
    | false =>
      -- The target stays pending and may go on behind the word.
      obtain ⟨further, rest, hmore, hlex⟩ := exists_lexFrom_target
        (offset + target.text.byteLength) offset target.text.reverse more
      refine ⟨further, rest, hmore, ?_⟩
      have hmark : FieldType.mark false = [] := rfl
      rw [hmark, List.append_nil, lexFrom_append, run_target, hlex, List.reverse_reverse,
        Text.byteLength_append, Nat.add_assoc]
      rfl
  | colon =>
    obtain rfl : word = [':'] := h
    exact hwhole rfl
  | literal =>
    obtain ⟨body, rfl, hbody⟩ := h
    exact hwhole (run_quoted hbody offset)
  | filler =>
    obtain rfl : word = ['-'] := h
    exact hwhole rfl
  | unmatched => exact h.elim

/-- What a token is at the head of the text that it makes together with `after`. -/
inductive IsLongest (token : Token) (after : Text) : Prop
  /-- It is a text of its kind. All texts of any kind that stand at this place are of this
  kind and no longer. -/
  | matched (text : Matches token.kind token.text)
      (longest : ∀ kind word, Matches kind word → word <+: token.text ++ after →
        kind = token.kind ∧ word <+: token.text)
  /-- It is a character with which neither a gap nor a text of any kind begins. -/
  | unknown {c : Char} (kind : token.kind = .unmatched) (text : token.text = [c])
      (gap : isGap c = false) (quote : c ≠ '"')
      (none : ∀ kind word, Matches kind word → ¬ word <+: token.text ++ after)
  /-- It is a quotation that is not closed up to the end of the text. -/
  | unclosed {body : Text} (kind : token.kind = .unmatched) (text : token.text = '"' :: body)
      (quote : '"' ∉ body) (rest : after = [])

theorem prefix_of_matches (hlex : lexFrom offset .nothing (token.text ++ after) = token :: tokens)
    (hmatch : Matches kind word) (hword : word <+: token.text ++ after) :
    kind = token.kind ∧ word <+: token.text := by
  obtain ⟨more, hmore⟩ := hword
  obtain ⟨further, _, -, hfirst⟩ := exists_lexFrom_of_matches hmatch offset more
  rw [hmore, hlex] at hfirst
  obtain ⟨rfl, -⟩ := List.cons.inj hfirst
  exact ⟨rfl, List.prefix_append _ _⟩

theorem lexFrom_unclosed {body : Text} (h : '"' ∉ body) (offset : ℕ) :
    lexFrom offset .nothing ('"' :: body) = [⟨.unmatched, '"' :: body, offset⟩] := by
  rw [lexFrom_eq_run, run_unclosed h, finish, List.reverse_reverse]
  rfl

/-- A character that is no text of any kind and opens no quotation is unmatched. -/
theorem lexFrom_unknown {c : Char} (hgap : isGap c = false) (hquote : c ≠ '"')
    (hnone : ∀ kind, ¬ Matches kind [c]) (offset : ℕ) (t : Text) :
    lexFrom offset .nothing (c :: t) =
      ⟨.unmatched, [c], offset⟩ :: lexFrom (offset + c.utf8Size) .nothing t := by
  have halpha : c.isAlpha = false := by
    by_contra halpha
    rw [Bool.not_eq_false] at halpha
    have htarget : isTagTarget [c] = true := by simp [isTagTarget, halpha]
    exact hnone .target ⟨⟨[c], htarget⟩, false, rfl⟩
  have hcolon : c ≠ ':' := fun h => hnone .colon (congrArg (fun d => [d]) h)
  have hfiller : c ≠ '-' := fun h => hnone .filler (congrArg (fun d => [d]) h)
  have henter : enter offset c = (.nothing, [⟨.unmatched, [c], offset⟩]) := by
    simp [enter, hgap, halpha, hquote, hcolon, hfiller]
  simp [lexFrom, step, henter]

/-- An unmatched token is one character, or a quotation that is never closed. -/
theorem isLongest_of_unmatched
    (hlex : lexFrom offset .nothing (token.text ++ after) = token :: tokens)
    (hopens : token.Opens) (hkind : token.kind = .unmatched) : token.IsLongest after := by
  have hnone (kind : TokenKind) (word : Text) (hmatch : Matches kind word) :
      ¬ word <+: token.text ++ after := by
    intro hword
    obtain ⟨rfl, -⟩ := prefix_of_matches hlex hmatch hword
    rw [hkind] at hmatch
    exact hmatch
  obtain ⟨c, more, htext, hc⟩ := hopens.head (by simp [hkind])
  have hgap : isGap c = false := by
    by_contra hgap
    rw [isPadding_of_isGap (by simpa using hgap)] at hc
    cases hc
  rw [htext, List.cons_append] at hlex hnone
  by_cases hquote : c = '"'
  · subst hquote
    -- A mark behind the first one would close a quotation, which is a text of a kind.
    have hopen : '"' ∉ more ++ after := by
      intro hmem
      obtain ⟨body, rest, hbody, hfree⟩ := List.eq_append_cons_of_mem hmem
      refine hnone .literal ('"' :: body ++ ['"']) ⟨body, rfl, hfree⟩ ⟨rest, ?_⟩
      simp [hbody]
    obtain ⟨rfl, -⟩ := List.cons.inj ((lexFrom_unclosed hopen offset).symm.trans hlex)
    obtain ⟨-, hmore⟩ := List.cons.inj htext
    have hmoreOpen : '"' ∉ more := fun hmem => hopen (List.mem_append_left _ hmem)
    exact .unclosed rfl htext hmoreOpen (by simpa using hmore)
  · have hchar (kind : TokenKind) (hmatch : Matches kind [c]) : False :=
      hnone kind [c] hmatch ⟨more ++ after, rfl⟩
    have hfirst := lexFrom_unknown hgap hquote hchar offset (more ++ after)
    obtain ⟨rfl, -⟩ := List.cons.inj (hfirst.symm.trans hlex)
    obtain ⟨-, rfl⟩ := List.cons.inj htext
    exact .unknown rfl rfl hgap hquote hnone

theorem isLongest_of_lexFrom
    (hlex : lexFrom offset .nothing (token.text ++ after) = token :: tokens)
    (hopens : token.Opens) (hsound : token.Sound fun _ => True) : token.IsLongest after := by
  have hmatched (hmatch : Matches token.kind token.text) : token.IsLongest after :=
    .matched hmatch fun _ _ => prefix_of_matches hlex
  obtain ⟨kind, text, start⟩ := token
  cases kind with
  | target => exact hmatched hsound
  | colon => exact hmatched hopens
  | literal =>
    obtain ⟨body, htext, hquote, -⟩ := hsound
    exact hmatched ⟨body, htext, hquote⟩
  | filler => exact hmatched hopens
  | unmatched => exact isLongest_of_unmatched hlex hopens rfl

/-- Every token stands in the region, and is the longest match at its place. -/
theorem isLongest_of_mem_lexFrom (front t : Text) :
    ∀ token ∈ lexFrom front.byteLength .nothing t, ∃ before after,
      front ++ t = before ++ token.text ++ after ∧
        token.span = .ofText before.byteLength token.text ∧ token.IsLongest after := by
  have hstart : Pending.Sound (fun _ => True) .nothing := trivial
  have hsound := lexFrom_sound hstart (t := t) (fun _ _ => trivial) front.byteLength
  generalize htokens : lexFrom front.byteLength .nothing t = tokens at hsound
  induction tokens generalizing front t with
  | nil => simp
  | cons token tokens ih =>
    obtain ⟨gap, after, rfl, hgap, htoken, hopens, hrest⟩ := exists_of_lexFrom_eq_cons htokens
    obtain ⟨hfirst, hmore⟩ := List.forall_mem_cons.mp hsound
    rw [lexFrom_gaps_append hgap] at htokens
    refine List.forall_mem_cons.mpr ⟨⟨front ++ gap, after, by simp, ?_, ?_⟩, ?_⟩
    · rw [span, htoken, Text.byteLength_append]
    · exact isLongest_of_lexFrom htokens hopens hfirst
    · rw [← Text.byteLength_append] at hrest
      simpa using ih (front ++ (gap ++ token.text)) after hrest hmore

theorem Tiles.pairwise (h : Tiles offset t tokens) :
    (∀ token ∈ tokens, offset ≤ token.span.start ∧ token.span.start < token.span.stop) ∧
      tokens.Pairwise fun token next => token.span.stop ≤ next.span.start := by
  induction tokens generalizing offset t with
  | nil => simp
  | cons token tokens ih =>
    obtain ⟨gap, rest, -, -, hne, hstart, hrest⟩ := h
    obtain ⟨hbounds, hpairwise⟩ := ih hrest
    have hle : offset ≤ token.span.start := by
      change offset ≤ token.start
      omega
    have hlt : token.span.start < token.span.stop :=
      Nat.lt_add_of_pos_right (Nat.pos_of_ne_zero (mt Text.byteLength_eq_zero_iff.mp hne))
    refine ⟨List.forall_mem_cons.mpr ⟨⟨hle, hlt⟩, fun next hnext => ?_⟩,
      List.pairwise_cons.mpr ⟨fun next hnext => (hbounds next hnext).1, hpairwise⟩⟩
    obtain ⟨hstop, hnonempty⟩ := hbounds next hnext
    exact ⟨(hle.trans hlt.le).trans hstop, hnonempty⟩

def GapAt (region : Text) (i : ℕ) : Prop :=
  ∃ (before : Text) (c : Char) (rest : Text),
    region = before ++ c :: rest ∧ before.byteLength = i ∧ isGap c = true

theorem gapAt_append {gap : Text} (h : ∀ c ∈ gap, isGap c = true) (front rest : Text) {i : ℕ}
    (hfront : front.byteLength ≤ i) (hi : i < Text.byteLength (front ++ gap)) :
    GapAt (front ++ (gap ++ rest)) i := by
  induction gap generalizing front with
  | nil =>
    rw [List.append_nil] at hi
    omega
  | cons c gap ih =>
    obtain ⟨hc, hgap⟩ := List.forall_mem_cons.mp h
    rcases hfront.eq_or_lt with rfl | hlt
    · exact ⟨front, c, gap ++ rest, rfl, rfl, hc⟩
    · have hbehind : Text.byteLength (front ++ [c]) ≤ i := by
        simp only [Text.byteLength_append, Text.byteLength_cons, Text.byteLength_nil,
          utf8Size_of_isGap hc]
        omega
      simpa using ih hgap (front ++ [c]) hbehind (by simpa using hi)

/-- A byte behind `front` belongs to a token, or it is a gap. -/
theorem Tiles.covered {front : Text} (h : Tiles front.byteLength t tokens) {i : ℕ}
    (hfront : front.byteLength ≤ i) (hi : i < Text.byteLength (front ++ t)) :
    (∃ token ∈ tokens, token.span.start ≤ i ∧ i < token.span.stop) ∨ GapAt (front ++ t) i := by
  induction tokens generalizing front t with
  | nil => exact .inr (by simpa using gapAt_append h front [] hfront hi)
  | cons token tokens ih =>
    obtain ⟨gap, rest, rfl, hgap, -, hstart, hrest⟩ := h
    rw [← Text.byteLength_append] at hstart
    by_cases hbefore : i < Text.byteLength (front ++ gap)
    · exact .inr (gapAt_append hgap front _ hfront hbefore)
    by_cases hwithin : i < Text.byteLength (front ++ gap ++ token.text)
    · refine .inl ⟨token, List.mem_cons_self, ?_, ?_⟩
      · change token.start ≤ i
        omega
      · change i < token.start + token.text.byteLength
        rwa [hstart, ← Text.byteLength_append]
    · rw [hstart, ← Text.byteLength_append] at hrest
      have hmore := ih hrest (by omega) (by simpa using hi)
      rcases hmore with ⟨next, hnext, hspan⟩ | hgapAt
      · exact .inl ⟨next, List.mem_cons_of_mem _ hnext, hspan⟩
      · exact .inr (by simpa using hgapAt)

/-- The tokens of a region are not empty and stand one behind the other, each at the place
that its span says and as the longest match there. All bytes outside of them are gaps. -/
theorem lex_spans_tile (region : Text) :
    (∀ token ∈ lex region, token.span.start < token.span.stop ∧
      region.IsBoundary token.span.start ∧ region.IsBoundary token.span.stop) ∧
    (lex region).Pairwise (fun token next =>
      token.span.start < next.span.start ∧ token.span.stop ≤ next.span.start) ∧
    (∀ token ∈ lex region, ∃ before after,
      region = before ++ token.text ++ after ∧
        token.span = .ofText before.byteLength token.text ∧ token.IsLongest after) ∧
    ∀ i < region.byteLength,
      (∃ token ∈ lex region, token.span.start ≤ i ∧ i < token.span.stop) ∨ GapAt region i := by
  have htiles : Tiles (Text.byteLength []) region (lex region) := tiles_lex region
  obtain ⟨hbounds, hpairwise⟩ := htiles.pairwise
  refine ⟨fun token htoken => ?_, ?_, ?_, fun i hi => ?_⟩
  · exact ⟨(hbounds token htoken).2, (htiles.covers htoken).isBoundary⟩
  · refine hpairwise.imp_of_mem fun htoken _ hle => ⟨?_, hle⟩
    exact (hbounds _ htoken).2.trans_le hle
  · exact isLongest_of_mem_lexFrom [] region
  · simpa using htiles.covered (Nat.zero_le i) hi

theorem lex_of_matches (h : Matches kind t) : lex t = [⟨kind, t, 0⟩] := by
  obtain ⟨further, rest, hmore, hlex⟩ := exists_lexFrom_of_matches h 0 []
  obtain ⟨rfl, rfl⟩ := List.append_eq_nil_iff.mp hmore.symm
  rw [List.append_nil] at hlex
  exact hlex

theorem matches_of_lex_eq_singleton (hlex : lex t = [token]) (hkind : token.kind = .target)
    (hspan : token.span = .ofText 0 t) : Matches .target t := by
  have hmem : token ∈ lex t := by simp [hlex]
  have htiles : Tiles (Text.byteLength []) t (lex t) := tiles_lex t
  have hcovers := htiles.covers hmem
  rw [hspan] at hcovers
  have hstart : Pending.Sound (fun _ => True) .nothing := trivial
  have hsound := lexFrom_sound hstart (fun _ _ => trivial) 0 token hmem
  obtain ⟨kind, text, start⟩ := token
  obtain rfl : kind = .target := hkind
  obtain rfl : text = t := hcovers.eq_of_whole
  exact hsound

end Token

/-- A text is a tag target exactly if the lexer reads all of it as one target, and it does not
end with a mark. -/
theorem TagTarget.ofText_eq_ok_iff_lex (t : Text) :
    (∃ target, TagTarget.ofText t = .ok target) ↔
      (∃ token, Token.lex t = [token] ∧ token.kind = .target ∧ token.span = .ofText 0 t) ∧
        ¬ ['?'] <:+ t := by
  constructor
  · rintro ⟨target, h⟩
    obtain rfl := TagTarget.ofText_eq_ok_iff.mp h
    have hmatches : Token.Matches .target target.text :=
      ⟨target, false, (List.append_nil _).symm⟩
    refine ⟨⟨_, Token.lex_of_matches hmatches, rfl, rfl⟩, fun hmark => ?_⟩
    have hchar := target.isTargetChar_of_mem (hmark.subset (List.mem_singleton_self '?'))
    revert hchar
    decide
  · rintro ⟨⟨token, hlex, hkind, hspan⟩, hmark⟩
    obtain ⟨target, n, rfl⟩ := Token.matches_of_lex_eq_singleton hlex hkind hspan
    cases n with
    | true => exact absurd (List.suffix_append _ _) hmark
    | false => exact ⟨target, by simp [FieldType.mark]⟩

end ClassSchema
