import ClassSchema.Proofs.TokenTiling

/-!
# Scanning behind a beginning

The lexer looks at offsets only to put them into its tokens. So a text that begins
further to the right has the same tokens, tags and trailing text, all of them moved by
the same distance. Behind a region without trailing text the lexer is between tokens, so
two regions are scanned together as each is scanned alone, the second one moved by the first.
-/

namespace ClassSchema

theorem Text.dropBytes_byteLength_add (before t : Text) (n : ℕ) :
    Text.dropBytes (before.byteLength + n) (before ++ t) = Text.dropBytes n t := by
  induction before with
  | nil => simp
  | cons c before ih =>
    have hpos := c.utf8Size_pos
    obtain ⟨k, hk⟩ : ∃ k, Text.byteLength (c :: before) + n = k + 1 :=
      ⟨c.utf8Size - 1 + Text.byteLength before + n, by rw [Text.byteLength_cons]; omega⟩
    have hrest : k + 1 - c.utf8Size = Text.byteLength before + n := by
      rw [Text.byteLength_cons] at hk
      omega
    rw [hk, List.cons_append, Text.dropBytes, hrest, ih]
    omega

namespace Token

def shifted (n : ℕ) (t : Token) : Token := ⟨t.kind, t.text, t.start + n⟩

theorem eq_of_shifted {n start : ℕ} {t : Token} {kind : TokenKind} {text : Text}
    (h : t.shifted n = ⟨kind, text, start⟩) : t = ⟨kind, text, t.start⟩ := by
  cases h
  rfl

theorem span_shifted (n : ℕ) (t : Token) : (t.shifted n).span = t.span.shifted n :=
  (Span.shifted_ofText t.start n t.text).symm

def Pending.shifted (n : ℕ) : Pending → Pending
  | nothing => nothing
  | target start reversed => target (start + n) reversed
  | literal start reversed => literal (start + n) reversed

theorem enter_shifted (n offset : ℕ) (c : Char) :
    enter (offset + n) c =
      ((enter offset c).1.shifted n, (enter offset c).2.map (shifted n)) := by
  unfold enter
  split_ifs <;> rfl

theorem step_shifted (n offset : ℕ) (pending : Pending) (c : Char) :
    step (offset + n) (pending.shifted n) c =
      ((step offset pending c).1.shifted n, (step offset pending c).2.map (shifted n)) := by
  cases pending with
  | nothing => exact enter_shifted n offset c
  | target start reversed =>
    simp only [step, Pending.shifted, enter_shifted]
    split_ifs <;> rfl
  | literal start reversed =>
    simp only [step, Pending.shifted]
    split_ifs <;> rfl

theorem lexFrom_shifted (n offset : ℕ) (pending : Pending) (t : Text) :
    lexFrom (offset + n) (pending.shifted n) t = (lexFrom offset pending t).map (shifted n) := by
  induction t generalizing offset pending with
  | nil => cases pending <;> rfl
  | cons c t ih =>
    have hoffset : offset + n + c.utf8Size = offset + c.utf8Size + n := by omega
    simp only [lexFrom, step_shifted, hoffset, ih, List.map_append]

theorem lex_append {s : Text} (h : (run 0 .nothing s).1 = .nothing) (t : Text) :
    lex (s ++ t) = lex s ++ (lex t).map (shifted s.byteLength) := by
  have hfirst : lex s = (run 0 .nothing s).2 := by
    rw [lex, lexFrom_eq_run, h, finish, List.append_nil]
  have hsecond : lexFrom s.byteLength .nothing t = (lex t).map (shifted s.byteLength) := by
    simpa [lex, Pending.shifted] using lexFrom_shifted s.byteLength 0 .nothing t
  rw [hfirst, ← hsecond, lex, lexFrom_append, h, Nat.zero_add]

end Token

def RawTag.shifted (n : ℕ) (raw : RawTag) : RawTag :=
  ⟨raw.target, raw.nullable, raw.values, raw.span.shifted n⟩

/-- The trailing text of a region that begins further to the right. -/
def Trailing.shifted (n : ℕ) (trailing : Trailing) : Trailing :=
  ⟨trailing.text, trailing.span.shifted n⟩

theorem RawTag.ofTokens_shifted (n : ℕ) (target literal : Token) :
    RawTag.ofTokens (target.shifted n) (literal.shifted n) =
      (RawTag.ofTokens target literal).shifted n := by
  simp only [RawTag.ofTokens, Token.span_shifted]
  rfl

namespace TagScan

theorem ofTokens_shifted (n : ℕ) (tokens : List Token) :
    ofTokens (tokens.map (Token.shifted n)) =
      ((ofTokens tokens).1.map (RawTag.shifted n), (ofTokens tokens).2.map (Token.shifted n)) := by
  fun_induction ofTokens tokens with
  | case1 => rfl
  | case2 text start tokens ih => simpa [ofTokens, Token.shifted] using ih
  | case3 name start text colonStart values valuesStart tokens tags stop hscan ih =>
    have htag := RawTag.ofTokens_shifted n ⟨.target, name, start⟩ ⟨.literal, values, valuesStart⟩
    simp only [Token.shifted] at htag
    simp only [hscan] at ih
    simp [ofTokens, Token.shifted, ih, htag]
  | case4 token tokens hfiller htag =>
    -- Moved tokens have their kinds, so they continue no tag either.
    rw [List.map_cons, ofTokens]
    · rfl
    · intro text start hshifted
      exact hfiller _ _ (Token.eq_of_shifted hshifted)
    · intro name start text start' values valuesStart rest hshifted hrest
      obtain ⟨colon, more, rfl, hcolon, hmore⟩ := List.map_eq_cons_iff.mp hrest
      obtain ⟨literal, more, rfl, hliteral, -⟩ := List.map_eq_cons_iff.mp hmore
      have htokens : colon :: literal :: more =
          ⟨.colon, text, colon.start⟩ :: ⟨.literal, values, literal.start⟩ :: more := by
        rw [← Token.eq_of_shifted hcolon, ← Token.eq_of_shifted hliteral]
      exact htag _ _ _ _ _ _ _ (Token.eq_of_shifted hshifted) htokens

theorem getLast?_kind_of_ofTokens {tokens : List Token} (h : (ofTokens tokens).2 = none) :
    ∀ token ∈ tokens.getLast?, token.kind = .filler ∨ token.kind = .literal := by
  fun_induction ofTokens tokens with
  | case1 => simp
  | case2 text start tokens ih =>
    cases tokens with
    | nil => simp
    | cons token tokens => simpa using ih h
  | case3 name start text colonStart values valuesStart tokens tags stop hscan ih =>
    cases tokens with
    | nil => simp
    | cons token tokens => simpa [hscan] using ih (by simpa [hscan] using h)
  | case4 => simp at h

theorem run_of_trailing_eq_none {region : Text} (h : (scan region).trailing = none) :
    (Token.run 0 .nothing region).1 = .nothing := by
  have hstop : (ofTokens (Token.lex region)).2 = none := Option.map_eq_none_iff.mp h
  have hlast := getLast?_kind_of_ofTokens hstop
  rw [Token.lex, Token.lexFrom_eq_run] at hlast
  -- A pending target or quotation would be the last token, and neither ends a tag.
  cases hpending : (Token.run 0 .nothing region).1 with
  | nothing => rfl
  | target start reversed | literal start reversed => simp [hpending, Token.finish] at hlast

/-- Behind a region without trailing text, another one is scanned as if it stood alone. -/
theorem scan_append {region : Text} (h : (scan region).trailing = none) (more : Text) :
    scan (region ++ more) =
      ⟨(scan region).tags ++ (scan more).tags.map (RawTag.shifted region.byteLength),
        (scan more).trailing.map (Trailing.shifted region.byteLength)⟩ := by
  have hstop : (ofTokens (Token.lex region)).2 = none := Option.map_eq_none_iff.mp h
  have htrailing (start : ℕ) : trailingFrom (region ++ more) (start + region.byteLength) =
      (trailingFrom more start).shifted region.byteLength := by
    simp only [trailingFrom, Trailing.shifted, Span.shifted_ofText]
    rw [Nat.add_comm start, Text.dropBytes_byteLength_add]
  unfold scan
  rw [Token.lex_append (run_of_trailing_eq_none h), ofTokens_append hstop, ofTokens_shifted]
  simp only [Option.map_map, mk.injEq, true_and]
  congr 1
  funext token
  exact htrailing token.start

theorem scan_gaps {gaps : Text} (h : ∀ c ∈ gaps, Token.isGap c = true) :
    scan gaps = ⟨[], none⟩ := by
  have hlex : Token.lex gaps = [] := by
    rw [Token.lex, Token.lexFrom_eq_run, Token.run_gaps h]
    rfl
  rw [scan, hlex]
  rfl

theorem scan_gaps_append {gaps : Text} (h : ∀ c ∈ gaps, Token.isGap c = true) (region : Text) :
    scan (gaps ++ region) =
      ⟨(scan region).tags.map (RawTag.shifted gaps.byteLength),
        (scan region).trailing.map (Trailing.shifted gaps.byteLength)⟩ := by
  have hgaps := scan_gaps h
  rw [scan_append (by rw [hgaps]), hgaps]
  rfl

/-- Regions with a space between them: the tags of the first one, which leaves no trailing
text, are followed by the tags and the trailing text of the second one. -/
theorem scan_append_space {region : Text} (h : (scan region).trailing = none) (more : Text) :
    scan (region ++ " " ++ more) =
      ⟨(scan region).tags ++ (scan more).tags.map (RawTag.shifted (region.byteLength + 1)),
        (scan more).trailing.map (Trailing.shifted (region.byteLength + 1))⟩ := by
  have hspace : scan (" " : String).toList = ⟨[], none⟩ :=
    scan_gaps (List.all_eq_true.mp (by decide))
  have hfirst : scan (region ++ " ") = ⟨(scan region).tags, none⟩ := by
    rw [scan_append h, hspace, List.map_nil, List.append_nil]
    rfl
  have hlength : Text.byteLength (region ++ " ") = region.byteLength + 1 :=
    Text.byteLength_append region " "
  rw [scan_append (by rw [hfirst]), hfirst, hlength]

theorem scan_append_space_mixed :
    (scan "json?:\"é\" -").trailing = none ∧
      scan ("json?:\"é\" -" ++ " " ++ "xml:\"c\" # ") =
        ⟨[⟨"json", true, "é", ⟨0, 10⟩⟩, ⟨"xml", false, "c", ⟨13, 20⟩⟩],
          some ⟨"#", ⟨21, 22⟩⟩⟩ := by
  have hfirst : (scan "json?:\"é\" -").trailing = none := by decide +kernel
  refine ⟨hfirst, (scan_append_space hfirst _).trans ?_⟩
  decide +kernel

end TagScan

end ClassSchema
