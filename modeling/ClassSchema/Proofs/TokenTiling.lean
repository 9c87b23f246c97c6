import ClassSchema.Proofs.Spans
import ClassSchema.Proofs.TagRegion

/-!
# Tokens tile their region

The tokens of a region stand in it one behind the other, each at its own offset,
and what is left between them are gap characters. So the span of a token covers
the text of the token, and the span of a scanned tag covers everything from its
target to its closing quotation mark.
-/

namespace ClassSchema

namespace Token

/-- A text that begins at an offset is made of the tokens and of gap characters
before, between and behind them. -/
def Tiles : ℕ → Text → List Token → Prop
  | _, t, [] => ∀ c ∈ t, isGap c = true
  | offset, t, token :: tokens =>
    ∃ gap rest : Text, t = gap ++ (token.text ++ rest) ∧ (∀ c ∈ gap, isGap c = true) ∧
      token.text ≠ [] ∧ token.start = offset + gap.byteLength ∧
      Tiles (token.start + token.text.byteLength) rest tokens

variable {offset start : ℕ} {s t : Text} {tokens more : List Token} {pending : Pending}

theorem Tiles.gap_append {gap : Text} (hgap : ∀ c ∈ gap, isGap c = true)
    (h : Tiles (offset + gap.byteLength) t tokens) : Tiles offset (gap ++ t) tokens := by
  cases tokens with
  | nil => exact List.forall_mem_append.mpr ⟨hgap, h⟩
  | cons token tokens =>
    obtain ⟨gap', rest, rfl, hgap', hne, hstart, hrest⟩ := h
    refine ⟨gap ++ gap', rest, by simp, List.forall_mem_append.mpr ⟨hgap, hgap'⟩, hne, ?_, hrest⟩
    rw [hstart, Text.byteLength_append]
    omega

theorem Tiles.append (hs : Tiles offset s tokens) (ht : Tiles (offset + s.byteLength) t more) :
    Tiles offset (s ++ t) (tokens ++ more) := by
  induction tokens generalizing offset s with
  | nil => exact ht.gap_append hs
  | cons token tokens ih =>
    obtain ⟨gap, rest, rfl, hgap, hne, hstart, hrest⟩ := hs
    refine ⟨gap, rest ++ t, by simp, hgap, hne, hstart, ih hrest ?_⟩
    have hoffset : token.start + token.text.byteLength + rest.byteLength =
        offset + Text.byteLength (gap ++ (token.text ++ rest)) := by
      simp only [Text.byteLength_append, hstart]
      omega
    rwa [hoffset]

theorem tiles_singleton (kind : TokenKind) (offset : ℕ) {text : Text} (h : text ≠ []) :
    Tiles offset text [⟨kind, text, offset⟩] :=
  ⟨[], [], by simp, by simp, h, rfl, by simp [Tiles]⟩

def Pending.text : Pending → Text
  | nothing => []
  | target _ reversed | literal _ reversed => reversed.reverse

/-- The lexer stands at `offset`, and what is pending goes from `start` up to there. -/
def Pending.ReachesFrom (start offset : ℕ) (pending : Pending) : Prop :=
  start + pending.text.byteLength = offset ∧
    match pending with
    | nothing => True
    | target begun reversed | literal begun reversed => begun = start ∧ reversed ≠ []

/-- What is done goes up to `start`, what is pending on to `offset`. -/
def Pending.Continues (start offset : ℕ) (text : Text) (after : Pending × List Token) : Prop :=
  ∃ done : Text, text = done ++ after.1.text ∧ Tiles start done after.2 ∧
    after.1.ReachesFrom (start + done.byteLength) offset

theorem continues_enter (offset : ℕ) (c : Char) :
    Pending.Continues offset (offset + c.utf8Size) [c] (enter offset c) := by
  unfold enter
  split_ifs with hgap halpha hquote hcolon hfiller
  · exact ⟨[c], rfl, by simpa [Tiles] using hgap, rfl, trivial⟩
  · exact ⟨[], rfl, by simp [Tiles], rfl, rfl, by simp⟩
  · exact ⟨[], rfl, by simp [Tiles], rfl, rfl, by simp⟩
  all_goals exact ⟨[c], rfl, tiles_singleton _ offset (by simp), rfl, trivial⟩

theorem continues_step (h : pending.ReachesFrom start offset) (c : Char) :
    Pending.Continues start (offset + c.utf8Size) (pending.text ++ [c])
      (step offset pending c) := by
  cases pending with
  | nothing =>
    obtain rfl : start = offset := h.1
    exact continues_enter start c
  | target begun reversed =>
    obtain ⟨rfl, rfl, hne⟩ := h
    by_cases hchar : isTargetChar c = true
    · rw [step_target_of_isTargetChar hchar]
      refine ⟨[], by simp [Pending.text], by simp [Tiles], ?_, rfl, by simp⟩
      simp [Pending.text, Nat.add_assoc]
    by_cases hmark : c = '?'
    · subst hmark
      rw [step_target_mark]
      refine ⟨('?' :: reversed).reverse, by simp [Pending.text], ?_, ?_, trivial⟩
      · exact tiles_singleton .target begun (by simp)
      · simp [Pending.text, Nat.add_assoc]
    · -- The target is complete, and the character begins anew behind it.
      rw [step_target_of_ne hchar hmark]
      obtain ⟨done, hdone, htiles, hreaches⟩ :=
        continues_enter (begun + Text.byteLength reversed.reverse) c
      refine ⟨reversed.reverse ++ done, by simp [Pending.text, hdone], ?_, ?_⟩
      · exact (tiles_singleton .target begun (by simpa using hne)).append htiles
      · simpa [Nat.add_assoc, Pending.text] using hreaches
  | literal begun reversed =>
    obtain ⟨rfl, rfl, hne⟩ := h
    by_cases hclose : c = '"'
    · subst hclose
      rw [step_literal_quote]
      refine ⟨('"' :: reversed).reverse, by simp [Pending.text], ?_, ?_, trivial⟩
      · exact tiles_singleton .literal begun (by simp)
      · simp [Pending.text, Nat.add_assoc]
    · rw [step_literal_of_ne hclose]
      refine ⟨[], by simp [Pending.text], by simp [Tiles], ?_, rfl, by simp⟩
      simp [Pending.text, Nat.add_assoc]

theorem tiles_finish (h : pending.ReachesFrom start offset) :
    Tiles start pending.text (finish pending) := by
  cases pending with
  | nothing => simp [finish, Tiles, Pending.text]
  | target begun reversed | literal begun reversed =>
    obtain ⟨-, rfl, hne⟩ := h
    exact tiles_singleton _ begun (by simpa [Pending.text] using hne)

theorem tiles_lexFrom (h : pending.ReachesFrom start offset) (t : Text) :
    Tiles start (pending.text ++ t) (lexFrom offset pending t) := by
  induction t generalizing start offset pending with
  | nil => simpa [lexFrom] using tiles_finish h
  | cons c t ih =>
    obtain ⟨done, hdone, htiles, hreaches⟩ := continues_step h c
    have hsplit : pending.text ++ c :: t = done ++ ((step offset pending c).1.text ++ t) := by
      rw [← List.append_assoc, ← hdone]
      simp
    rw [hsplit, lexFrom]
    exact htiles.append (ih hreaches)

theorem tiles_lex (region : Text) : Tiles 0 region (lex region) := by
  have hstart : Pending.ReachesFrom 0 0 .nothing := ⟨rfl, trivial⟩
  exact tiles_lexFrom hstart region

theorem Tiles.uncons {front : Text} {token : Token}
    (h : Tiles front.byteLength t (token :: tokens)) :
    ∃ gap rest : Text, t = gap ++ (token.text ++ rest) ∧
      token.start = Text.byteLength (front ++ gap) ∧
      Tiles (Text.byteLength (front ++ gap ++ token.text)) rest tokens := by
  obtain ⟨gap, rest, ht, -, -, hstart, hrest⟩ := h
  rw [← Text.byteLength_append] at hstart
  rw [hstart, ← Text.byteLength_append] at hrest
  exact ⟨gap, rest, ht, hstart, hrest⟩

theorem Tiles.covers {front : Text} {token : Token} (h : Tiles front.byteLength t tokens)
    (hmem : token ∈ tokens) : token.span.Covers (front ++ t) token.text := by
  induction tokens generalizing front t with
  | nil => simp at hmem
  | cons first tokens ih =>
    obtain ⟨gap, rest, rfl, hstart, hrest⟩ := h.uncons
    rcases List.mem_cons.mp hmem with rfl | hmem
    · exact ⟨front ++ gap, rest, by simp, by rw [span, hstart]⟩
    · simpa using ih hrest hmem

end Token

namespace RawTag

theorem target_prefix (target literal : Token) :
    (ofTokens target literal).target <+: target.text := by
  unfold ofTokens
  cases hcut : Text.withoutEnding? "?" target.text with
  | none => exact List.prefix_rfl
  | some name => exact ⟨_, (Text.withoutEnding?_eq_some_iff.mp hcut).symm⟩

end RawTag

namespace TagScan

open Token (Tiles)

variable {front t : Text} {tokens : List Token}

/-- The span of a tag goes from its target to its closing quotation mark. -/
theorem ofTokens_covers (h : Tiles front.byteLength t tokens) :
    ∀ raw ∈ (ofTokens tokens).1,
      ∃ part, raw.span.Covers (front ++ t) part ∧ raw.target <+: part := by
  fun_induction ofTokens tokens generalizing front t with
  | case1 => simp
  | case2 text start tokens ih =>
    obtain ⟨gap, rest, rfl, -, hrest⟩ := h.uncons
    simpa using ih hrest
  | case3 name start text colonStart values valuesStart tokens tags stop hscan ih =>
    obtain ⟨gap, rest, rfl, hstart, h⟩ := h.uncons
    obtain ⟨gap', rest, rfl, -, h⟩ := h.uncons
    obtain ⟨gap'', rest, rfl, hvalues, h⟩ := h.uncons
    dsimp only at hstart hvalues h ⊢
    refine List.forall_mem_cons.mpr ⟨?_, ?_⟩
    · refine ⟨name ++ (gap' ++ text ++ gap'' ++ values), ⟨front ++ gap, rest, by simp, ?_⟩, ?_⟩
      · simp only [RawTag.ofTokens, Token.span, Span.ofText, hstart, hvalues,
          Text.byteLength_append, Span.mk.injEq, true_and]
        omega
      · exact (RawTag.target_prefix _ _).trans (List.prefix_append _ _)
    · simpa [hscan] using ih h
  | case4 => simp

theorem scan_tags_covers (region : Text) :
    ∀ raw ∈ (scan region).tags, ∃ part, raw.span.Covers region part ∧ raw.target <+: part := by
  have h : Tiles (Text.byteLength []) region (Token.lex region) := Token.tiles_lex region
  exact ofTokens_covers h

theorem scan_trailing_covers {region : Text} {trailing : Trailing}
    (h : (scan region).trailing = some trailing) : trailing.span.Covers region trailing.text := by
  obtain ⟨token, hstop, rfl⟩ := Option.map_eq_some_iff.mp h
  have htiles : Tiles (Text.byteLength []) region (Token.lex region) := Token.tiles_lex region
  obtain ⟨before, after, hregion, hspan⟩ := htiles.covers (ofTokens_stop_mem hstop)
  have hstart : token.start = before.byteLength := congrArg Span.start hspan
  have hcovers := Span.covers_trimEnd before (token.text ++ after)
  rw [List.nil_append, List.append_assoc] at hregion
  have hdrop : Text.dropBytes token.start region = token.text ++ after := by
    rw [hstart, hregion, Text.dropBytes_append]
  rw [← hregion, ← hstart] at hcovers
  simpa only [trailingFrom, hdrop] using hcovers

end TagScan

end ClassSchema
