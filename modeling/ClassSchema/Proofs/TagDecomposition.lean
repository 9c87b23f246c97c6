import ClassSchema.Proofs.TokenTiling

/-!
# How a tag region falls into tags

Behind each token the lexer begins anew, so the tokens from any one of them on are
those of the text that begins there. From that a region is cut into tags without
loss: in front of each tag and behind the last one stand gaps and fillers only, and
where the scan stops before the end there is another character, from which on no tag
can be read.
-/

namespace ClassSchema

namespace Token

variable {offset start : ℕ} {t : Text} {token : Token} {tokens : List Token}

/-- The characters that may stand before, between and behind tags. -/
def isPadding (c : Char) : Bool := isGap c || c == '-'

theorem isPadding_of_isGap {c : Char} (h : isGap c = true) : isPadding c = true := by
  simp [isPadding, h]

/-- A colon and a filler are one character. Any other token begins with a character that
is no padding. -/
def Opens (token : Token) : Prop :=
  match token.kind with
  | .colon => token.text = [':']
  | .filler => token.text = ['-']
  | _ => ∃ c more, token.text = c :: more ∧ isPadding c = false

theorem Opens.head (h : token.Opens) (hkind : token.kind ≠ .filler) :
    ∃ c more, token.text = c :: more ∧ isPadding c = false := by
  unfold Opens at h
  split at h
  · exact ⟨':', [], h, by decide⟩
  · next hfiller => exact absurd hfiller hkind
  · exact h

/-- A pending target takes in what continues it, and the lexer begins anew behind that. -/
theorem exists_lexFrom_target (offset start : ℕ) (reversed t : Text) :
    ∃ word rest, t = word ++ rest ∧
      lexFrom offset (.target start reversed) t =
        ⟨.target, reversed.reverse ++ word, start⟩ ::
          lexFrom (offset + word.byteLength) .nothing rest := by
  induction t generalizing offset reversed with
  | nil => exact ⟨[], [], rfl, by simp [lexFrom, finish]⟩
  | cons c t ih =>
    by_cases hchar : isTargetChar c = true
    · obtain ⟨word, rest, rfl, hlex⟩ := ih (offset + c.utf8Size) (c :: reversed)
      refine ⟨c :: word, rest, rfl, ?_⟩
      rw [lexFrom, step_target_of_isTargetChar hchar]
      simp [hlex, Nat.add_assoc]
    by_cases hmark : c = '?'
    · subst hmark
      refine ⟨['?'], t, rfl, ?_⟩
      rw [lexFrom, step_target_mark]
      simp
    · refine ⟨[], c :: t, rfl, ?_⟩
      rw [lexFrom, step_target_of_ne hchar hmark]
      simp [lexFrom, step]

/-- An open quotation goes up to its end, or up to the end of the text. -/
theorem exists_lexFrom_literal (offset start : ℕ) (reversed t : Text) :
    ∃ kind word rest, (kind = .literal ∨ kind = .unmatched) ∧ t = word ++ rest ∧
      lexFrom offset (.literal start reversed) t =
        ⟨kind, reversed.reverse ++ word, start⟩ ::
          lexFrom (offset + word.byteLength) .nothing rest := by
  induction t generalizing offset reversed with
  | nil => exact ⟨.unmatched, [], [], .inr rfl, rfl, by simp [lexFrom, finish]⟩
  | cons c t ih =>
    by_cases hclose : c = '"'
    · subst hclose
      refine ⟨.literal, ['"'], t, .inl rfl, rfl, ?_⟩
      rw [lexFrom, step_literal_quote]
      simp
    · obtain ⟨kind, word, rest, hkind, rfl, hlex⟩ := ih (offset + c.utf8Size) (c :: reversed)
      refine ⟨kind, c :: word, rest, hkind, rfl, ?_⟩
      rw [lexFrom, step_literal_of_ne hclose]
      simp [hlex, Nat.add_assoc]

/-- A character that is no gap opens a token, and the lexer begins anew behind it. -/
theorem exists_lexFrom_cons {c : Char} (hgap : isGap c = false) (offset : ℕ) (t : Text) :
    ∃ token rest, token.start = offset ∧ token.Opens ∧ c :: t = token.text ++ rest ∧
      lexFrom offset .nothing (c :: t) =
        token :: lexFrom (offset + token.text.byteLength) .nothing rest := by
  have hlex : lexFrom offset .nothing (c :: t) =
      (enter offset c).2 ++ lexFrom (offset + c.utf8Size) (enter offset c).1 t := rfl
  rw [hlex]
  unfold enter
  simp only [hgap, Bool.false_eq_true, if_false]
  split_ifs with halpha hquote hcolon hfiller
  · obtain ⟨word, rest, rfl, hword⟩ := exists_lexFrom_target (offset + c.utf8Size) offset [c] t
    have hdash : c ≠ '-' := by
      rintro rfl
      revert halpha
      decide
    refine ⟨⟨.target, c :: word, offset⟩, rest, rfl, ⟨c, word, rfl, ?_⟩, rfl, ?_⟩
    · simp [isPadding, hgap, hdash]
    · rw [List.nil_append, hword]
      simp [Nat.add_assoc]
  · subst hquote
    obtain ⟨kind, word, rest, hkind, rfl, hword⟩ :=
      exists_lexFrom_literal (offset + ('"').utf8Size) offset ['"'] t
    refine ⟨⟨kind, '"' :: word, offset⟩, rest, rfl, ?_, rfl, ?_⟩
    · rcases hkind with rfl | rfl
      all_goals exact ⟨'"', word, rfl, by decide⟩
    · rw [List.nil_append, hword]
      simp [Nat.add_assoc]
  · exact ⟨⟨.colon, [c], offset⟩, t, rfl, by simp [Opens, hcolon], rfl, by simp⟩
  · exact ⟨⟨.filler, [c], offset⟩, t, rfl, by simp [Opens, hfiller], rfl, by simp⟩
  · exact ⟨⟨.unmatched, [c], offset⟩, t, rfl, ⟨c, [], rfl, by simp [isPadding, hgap, hfiller]⟩,
      rfl, by simp⟩

/-- The first token stands behind gaps, and the others are those of what follows it. -/
theorem exists_of_lexFrom_eq_cons (h : lexFrom offset .nothing t = token :: tokens) :
    ∃ gap rest : Text, t = gap ++ (token.text ++ rest) ∧ (∀ c ∈ gap, isGap c = true) ∧
      token.start = offset + gap.byteLength ∧ token.Opens ∧
      lexFrom (offset + Text.byteLength (gap ++ token.text)) .nothing rest = tokens := by
  induction t generalizing offset with
  | nil => cases h
  | cons c t ih =>
    cases hgap : isGap c with
    | true =>
      have hskip : lexFrom offset .nothing (c :: t) =
          lexFrom (offset + c.utf8Size) .nothing t := by
        simp [lexFrom, step, enter, hgap]
      obtain ⟨gap, rest, rfl, hgaps, hstart, hopens, hrest⟩ := ih (hskip.symm.trans h)
      refine ⟨c :: gap, rest, rfl, List.forall_mem_cons.mpr ⟨hgap, hgaps⟩, ?_, hopens, ?_⟩
      · rw [hstart, Text.byteLength_cons, Nat.add_assoc]
      · rwa [List.cons_append, Text.byteLength_cons, ← Nat.add_assoc]
    | false =>
      obtain ⟨first, rest, hstart, hopens, htext, hlex⟩ := exists_lexFrom_cons hgap offset t
      obtain ⟨rfl, rfl⟩ := List.cons.inj (hlex.symm.trans h)
      exact ⟨[], rest, htext, by simp, hstart, hopens, rfl⟩

theorem lexFrom_gaps_append {gap : Text} (h : ∀ c ∈ gap, isGap c = true) (offset : ℕ) (t : Text) :
    lexFrom offset .nothing (gap ++ t) = lexFrom (offset + gap.byteLength) .nothing t := by
  rw [lexFrom_append, run_gaps h, List.nil_append]

theorem isGap_of_lexFrom_eq_nil (h : lexFrom offset .nothing t = []) :
    ∀ c ∈ t, isGap c = true := by
  have hreaches : Pending.ReachesFrom offset offset .nothing := ⟨rfl, trivial⟩
  have htiles := tiles_lexFrom hreaches t
  rwa [h] at htiles

end Token

open Token (isGap isPadding)

/-- A tag as it may stand in a region: the target with its mark, a colon and the values
between quotation marks, with gaps around the colon only. -/
structure RawTag.SpelledBy (raw : RawTag) (part : Text) : Prop where
  target : isTagTarget raw.target = true
  values : '"' ∉ raw.values
  parts : ∃ gap gap' : Text, (∀ c ∈ gap, isGap c = true) ∧ (∀ c ∈ gap', isGap c = true) ∧
    part = raw.target ++ FieldType.mark raw.nullable ++ gap ++ [':'] ++ gap' ++
      ('"' :: raw.values ++ ['"'])

theorem RawTag.SpelledBy.byteLength_pos {raw : RawTag} {part : Text} (h : raw.SpelledBy part) :
    0 < part.byteLength := by
  obtain ⟨gap, gap', -, -, rfl⟩ := h.parts
  have hcolon := (':').utf8Size_pos
  simp only [Text.byteLength_append, Text.byteLength_cons]
  omega

namespace Token

theorem run_mark_colon (nullable : Bool) {gap : Text} (h : ∀ c ∈ gap, isGap c = true)
    (offset start : ℕ) (reversed : Text) :
    ∃ colonStart, run offset (.target start reversed) (FieldType.mark nullable ++ gap ++ [':']) =
      (.nothing, [⟨.target, reversed.reverse ++ FieldType.mark nullable, start⟩,
        ⟨.colon, [':'], colonStart⟩]) := by
  cases nullable with
  | false => exact ⟨_, run_marker (.inr ⟨rfl, h⟩) offset start reversed⟩
  | true =>
    have hmark : run offset (.target start reversed) (FieldType.mark true) =
        (.nothing, [⟨.target, reversed.reverse ++ FieldType.mark true, start⟩]) := by
      simp [run, FieldType.mark, step_target_mark]
    refine ⟨offset + Text.byteLength (FieldType.mark true) + gap.byteLength, ?_⟩
    rw [List.append_assoc, run_append, hmark, run_append, run_gaps h, run_colon]
    rfl

/-- Where a tag is written, its three tokens are read. -/
theorem exists_lexFrom_of_spelledBy {raw : RawTag} {part : Text} (h : raw.SpelledBy part)
    (offset : ℕ) (rest : Text) :
    ∃ colonStart valuesStart more, lexFrom offset .nothing (part ++ rest) =
      ⟨.target, raw.target ++ FieldType.mark raw.nullable, offset⟩ ::
        ⟨.colon, [':'], colonStart⟩ ::
        ⟨.literal, '"' :: raw.values ++ ['"'], valuesStart⟩ :: more := by
  obtain ⟨gap, gap', hgap, hgap', rfl⟩ := h.parts
  let target : TagTarget := ⟨raw.target, h.target⟩
  have hparts : raw.target ++ FieldType.mark raw.nullable ++ gap ++ [':'] ++ gap' ++
      ('"' :: raw.values ++ ['"']) ++ rest =
      target.text ++ ((FieldType.mark raw.nullable ++ gap ++ [':']) ++
        (gap' ++ (('"' :: raw.values ++ ['"']) ++ rest))) := by
    simp [target]
  obtain ⟨colonStart, hcolon⟩ := run_mark_colon raw.nullable hgap
    (offset + target.text.byteLength) offset target.text.reverse
  rw [hparts, lexFrom_eq_run, run_append, run_target, run_append, hcolon, run_append,
    run_gaps hgap', run_append, run_quoted h.values]
  simp only [List.reverse_reverse, List.nil_append, List.cons_append]
  exact ⟨_, _, _, rfl⟩

end Token

namespace TagScan

open Token (lexFrom)

/-- A text that begins at an offset, cut into tags with padding in front of each. What is
behind the last tag is padding, up to the end of the text or up to where the scan stops. -/
inductive Decomposes : ℕ → Text → List RawTag → Option ℕ → Prop
  | padding {offset : ℕ} {t : Text} (padding : ∀ c ∈ t, isPadding c = true) :
      Decomposes offset t [] none
  | stop {offset : ℕ} {gap tail : Text} (padding : ∀ c ∈ gap, isPadding c = true)
      (head : ∃ c more, tail = c :: more ∧ isPadding c = false)
      (noTag : ∀ raw part, RawTag.SpelledBy raw part → ¬ part <+: tail) :
      Decomposes offset (gap ++ tail) [] (some (offset + gap.byteLength))
  | tag {offset : ℕ} {gap part rest : Text} {raw : RawTag} {tags : List RawTag} {stop : Option ℕ}
      (padding : ∀ c ∈ gap, isPadding c = true) (spelled : raw.SpelledBy part)
      (span : raw.span = .ofText (offset + gap.byteLength) part)
      (more : Decomposes (offset + Text.byteLength (gap ++ part)) rest tags stop) :
      Decomposes offset (gap ++ part ++ rest) (raw :: tags) stop

variable {offset : ℕ} {front t : Text} {tags : List RawTag} {stop : Option ℕ}

theorem Decomposes.padding_append {gap : Text} (hgap : ∀ c ∈ gap, isPadding c = true)
    (h : Decomposes (offset + gap.byteLength) t tags stop) :
    Decomposes offset (gap ++ t) tags stop := by
  have hpadding {gap' : Text} (hgap' : ∀ c ∈ gap', isPadding c = true) :
      ∀ c ∈ gap ++ gap', isPadding c = true := List.forall_mem_append.mpr ⟨hgap, hgap'⟩
  cases h with
  | padding h => exact .padding (hpadding h)
  | stop h hhead hnone =>
    rw [← List.append_assoc, Nat.add_assoc, ← Text.byteLength_append]
    exact .stop (hpadding h) hhead hnone
  | tag h hpart hspan hmore =>
    rw [← List.append_assoc, ← List.append_assoc]
    refine .tag (hpadding h) hpart ?_ ?_
    · rw [hspan, Text.byteLength_append, Nat.add_assoc]
    · rwa [List.append_assoc, Text.byteLength_append, ← Nat.add_assoc]

/-- A target, a colon and a literal with gaps around the colon are a tag. -/
theorem spelledBy_ofTokens {p : Char → Prop} {target literal : Token} {gap gap' : Text}
    (htarget : target.kind = .target) (hliteral : literal.kind = .literal)
    (htargetSound : target.Sound p) (hliteralSound : literal.Sound p)
    (hgap : ∀ c ∈ gap, isGap c = true) (hgap' : ∀ c ∈ gap', isGap c = true) :
    (RawTag.ofTokens target literal).SpelledBy
      (target.text ++ gap ++ [':'] ++ gap' ++ literal.text) := by
  obtain ⟨kind, name, start⟩ := target
  obtain ⟨kind', quoted, start'⟩ := literal
  obtain rfl : kind = .target := htarget
  obtain rfl : kind' = .literal := hliteral
  obtain ⟨name, n, rfl⟩ := htargetSound
  obtain ⟨values, rfl, hvalues, -⟩ := hliteralSound
  rw [RawTag.ofTokens_eq]
  exact ⟨name.valid, hvalues, gap, gap', hgap, hgap', rfl⟩

/-- The scan decomposes the text that it is given. -/
theorem decomposes_lexFrom (offset : ℕ) (t : Text) :
    Decomposes offset t (ofTokens (lexFrom offset .nothing t)).1
      ((ofTokens (lexFrom offset .nothing t)).2.map (·.start)) := by
  have hstart : Token.Pending.Sound (fun _ => True) .nothing := trivial
  have hsound := Token.lexFrom_sound hstart (t := t) (fun _ _ => trivial) offset
  generalize htokens : lexFrom offset .nothing t = tokens at hsound
  fun_induction ofTokens tokens generalizing offset t with
  | case1 =>
    exact .padding fun c hc =>
      Token.isPadding_of_isGap (Token.isGap_of_lexFrom_eq_nil htokens c hc)
  | case2 text start tokens ih =>
    obtain ⟨gap, rest, rfl, hgap, -, hopens, hrest⟩ := Token.exists_of_lexFrom_eq_cons htokens
    obtain rfl : text = ['-'] := hopens
    rw [← List.append_assoc]
    refine Decomposes.padding_append ?_ (ih _ _ hrest (List.forall_mem_cons.mp hsound).2)
    refine List.forall_mem_append.mpr ⟨fun c hc => Token.isPadding_of_isGap (hgap c hc), ?_⟩
    exact List.forall_mem_singleton.mpr (by decide)
  | case3 name start text colonStart values valuesStart tokens tags stop hscan ih =>
    simp only [List.forall_mem_cons] at hsound
    obtain ⟨htarget, -, hliteral, hsound⟩ := hsound
    obtain ⟨gap, rest, rfl, hgap, hstart, -, h⟩ := Token.exists_of_lexFrom_eq_cons htokens
    obtain ⟨gap', rest, rfl, hgap', -, hopens, h⟩ := Token.exists_of_lexFrom_eq_cons h
    obtain ⟨gap'', rest, rfl, hgap'', hvalues, -, h⟩ := Token.exists_of_lexFrom_eq_cons h
    obtain rfl : text = [':'] := hopens
    dsimp only at hstart hvalues h
    have hspelled := spelledBy_ofTokens rfl rfl htarget hliteral hgap' hgap''
    have htext : gap ++ (name ++ (gap' ++ ([':'] ++ (gap'' ++ (values ++ rest))))) =
        gap ++ (name ++ gap' ++ [':'] ++ gap'' ++ values) ++ rest := by
      simp
    rw [htext]
    refine .tag (fun c hc => Token.isPadding_of_isGap (hgap c hc)) hspelled ?_ ?_
    · simp only [RawTag.ofTokens, Token.span, Span.ofText, hstart, hvalues,
        Text.byteLength_append, Span.mk.injEq, true_and]
      omega
    · have hmore := ih _ _ h hsound
      rw [hscan] at hmore
      convert hmore using 1
      simp only [Text.byteLength_append]
      omega
  | case4 token tokens hfiller htag =>
    obtain ⟨gap, rest, rfl, hgap, hstart, hopens, -⟩ := Token.exists_of_lexFrom_eq_cons htokens
    dsimp only [Option.map_some]
    rw [hstart]
    refine .stop (fun c hc => Token.isPadding_of_isGap (hgap c hc)) ?_ ?_
    · obtain ⟨c, more, htext, hc⟩ := hopens.head fun hkind => hfiller _ _ (by rw [← hkind])
      exact ⟨c, more ++ rest, by rw [htext, List.cons_append], hc⟩
    · rintro raw part hpart ⟨more, htail⟩
      rw [Token.lexFrom_gaps_append hgap, ← htail] at htokens
      obtain ⟨_, _, _, hlex⟩ := Token.exists_lexFrom_of_spelledBy hpart _ more
      obtain ⟨rfl, rfl⟩ := List.cons.inj (hlex.symm.trans htokens)
      exact htag _ _ _ _ _ _ _ rfl rfl

def PaddedBetween (region : Text) (s s' : Span) : Prop :=
  ∃ gap, Span.Covers ⟨s.stop, s'.start⟩ region gap ∧ ∀ c ∈ gap, isPadding c = true

/-- Where the last of some tags ends; an offset if there is none. -/
def lastStop (offset : ℕ) (tags : List RawTag) : ℕ := (tags.map (·.span.stop)).getLastD offset

namespace Decomposes

theorem covers (h : Decomposes front.byteLength t tags stop) :
    ∀ raw ∈ tags, ∃ part, raw.span.Covers (front ++ t) part ∧ raw.SpelledBy part := by
  generalize hoffset : front.byteLength = offset at h
  induction h generalizing front with
  | padding | stop => simp
  | @tag offset gap part rest raw tags stop _ hpart hspan _ ih =>
    subst hoffset
    refine List.forall_mem_cons.mpr ⟨⟨part, ⟨front ++ gap, rest, by simp, ?_⟩, hpart⟩, ?_⟩
    · rw [hspan, Text.byteLength_append]
    · have hmore := ih (Text.byteLength_append front (gap ++ part))
      simpa using hmore

theorem isChain (h : Decomposes front.byteLength t tags stop) {s : Span}
    (hs : s.stop = front.byteLength) :
    List.IsChain (PaddedBetween (front ++ t)) (s :: tags.map (·.span)) := by
  generalize hoffset : front.byteLength = offset at h
  induction h generalizing front s with
  | padding | stop => simp
  | @tag offset gap part rest raw tags stop hgap _ hspan _ ih =>
    subst hoffset
    have hstop : raw.span.stop = Text.byteLength (front ++ (gap ++ part)) := by
      rw [hspan]
      simp [Span.ofText, Nat.add_assoc]
    have hmore := ih hstop (Text.byteLength_append _ _)
    refine List.IsChain.cons_cons ⟨gap, ⟨front, part ++ rest, by simp, ?_⟩, hgap⟩ ?_
    · dsimp only
      rw [hs, hspan]
      rfl
    · simpa using hmore

/-- The tags stand one behind the other. -/
theorem pairwise (h : Decomposes offset t tags stop) :
    (∀ raw ∈ tags, offset ≤ raw.span.start) ∧
      tags.Pairwise fun raw raw' => raw.span.stop ≤ raw'.span.start := by
  induction h with
  | padding | stop => simp
  | @tag offset gap part rest raw tags stop _ _ hspan _ ih =>
    obtain ⟨hle, hpairwise⟩ := ih
    have hstart : offset ≤ raw.span.start := by
      rw [hspan]
      exact Nat.le_add_right _ _
    have hstop : raw.span.stop = offset + Text.byteLength (gap ++ part) := by
      rw [hspan]
      simp [Span.ofText, Nat.add_assoc]
    refine ⟨List.forall_mem_cons.mpr ⟨hstart, fun raw' hraw' => ?_⟩,
      List.pairwise_cons.mpr ⟨fun raw' hraw' => ?_, hpairwise⟩⟩
    · have := hle raw' hraw'
      omega
    · rw [hstop]
      exact hle raw' hraw'

theorem exists_behind (h : Decomposes offset t tags stop) :
    ∃ done rest, t = done ++ rest ∧ offset + done.byteLength = lastStop offset tags ∧
      Decomposes (lastStop offset tags) rest [] stop := by
  induction h with
  | padding h => exact ⟨[], _, rfl, rfl, .padding h⟩
  | stop h hhead hnone => exact ⟨[], _, rfl, rfl, .stop h hhead hnone⟩
  | @tag offset gap part rest raw tags stop _ _ hspan _ ih =>
    obtain ⟨done, rest, rfl, hdone, hrest⟩ := ih
    have hlast : lastStop offset (raw :: tags) =
        lastStop (offset + Text.byteLength (gap ++ part)) tags := by
      rw [lastStop, List.map_cons, List.getLastD_cons, hspan]
      simp [lastStop, Span.ofText, Nat.add_assoc]
    rw [hlast]
    refine ⟨gap ++ part ++ done, rest, by simp, ?_, hrest⟩
    rw [← hdone, Text.byteLength_append (gap ++ part), Nat.add_assoc]

theorem stop_eq_none_iff (h : Decomposes offset t [] stop) :
    stop = none ↔ ∀ c ∈ t, isPadding c = true := by
  cases h with
  | padding h => simpa using h
  | stop _ hhead _ =>
    obtain ⟨c, more, rfl, hc⟩ := hhead
    refine ⟨nofun, fun hall => ?_⟩
    rw [hall c (by simp)] at hc
    cases hc

end Decomposes

/-- Trailing text behind the last tag, where `rest` begins at `offset`: it begins at the
first character that is no padding, no tag can be read there, and only white space is
behind it. -/
structure Trails (offset : ℕ) (rest : Text) (found : Trailing) : Prop where
  parts : ∃ gap tail blanks : Text, rest = gap ++ tail ∧ tail = found.text ++ blanks ∧
    (∀ c ∈ gap, isPadding c = true) ∧ (∃ c more, tail = c :: more ∧ isPadding c = false) ∧
    (∀ raw part, RawTag.SpelledBy raw part → ¬ part <+: tail) ∧
    (∀ c ∈ blanks, Text.isBlank c = true) ∧
    found.span.start = offset + gap.byteLength
  last : found.text = [] ∨ found.text.EndsInWord

theorem trails_trailingFrom {front rest : Text} {n : ℕ}
    (h : Decomposes front.byteLength rest [] (some n)) :
    Trails front.byteLength rest (trailingFrom (front ++ rest) n) := by
  cases h with
  | @stop _ gap tail hgap hhead hnone =>
    have htail : Text.trimEnd tail ++ tail.rtakeWhile Text.isBlank = tail :=
      List.rdropWhile_append_rtakeWhile ..
    have hblanks : ∀ c ∈ tail.rtakeWhile Text.isBlank, Text.isBlank c = true :=
      fun _ hc => List.mem_rtakeWhile_imp hc
    have hdrop : Text.dropBytes (front.byteLength + gap.byteLength) (front ++ (gap ++ tail)) =
        tail := by
      rw [← Text.byteLength_append, ← List.append_assoc, Text.dropBytes_append]
    unfold trailingFrom
    rw [hdrop]
    refine ⟨⟨gap, tail, _, rfl, htail.symm, hgap, hhead, hnone, hblanks, rfl⟩, ?_⟩
    by_cases hnil : Text.trimEnd tail = []
    · exact .inl hnil
    · exact .inr (Text.endsInWord_trimEnd hnil)

/-- A region is decomposed without loss. The spans of its tags are not empty and come one
behind the other, with padding in front of the first and between neighbours, and each
covers a target, its mark, a colon and quoted values. Behind the last tag there is padding
only, or trailing text from the first other character on, where no tag can be read. -/
theorem scan_decomposes (region : Text) :
    let tags := (scan region).tags
    (∀ raw ∈ tags, raw.span.start < raw.span.stop) ∧
    tags.Pairwise (fun raw raw' => raw.span.stop ≤ raw'.span.start) ∧
    List.IsChain (PaddedBetween region) (⟨0, 0⟩ :: tags.map (·.span)) ∧
    (∀ raw ∈ tags, ∃ part, raw.span.Covers region part ∧ raw.SpelledBy part) ∧
    ∃ done rest, region = done ++ rest ∧ done.byteLength = lastStop 0 tags ∧
      ((scan region).trailing = none ↔ ∀ c ∈ rest, isPadding c = true) ∧
      ∀ found, (scan region).trailing = some found →
        Trails (lastStop 0 tags) rest found ∧ found.span.Covers region found.text := by
  intro tags
  let stop := (ofTokens (Token.lex region)).2
  have hscan : Decomposes 0 region tags (stop.map (·.start)) := decomposes_lexFrom 0 region
  have hfront : Decomposes (Text.byteLength []) region tags (stop.map (·.start)) := hscan
  have hcovers := hfront.covers
  refine ⟨fun raw hraw => ?_, hscan.pairwise.2, hfront.isChain rfl, hcovers, ?_⟩
  · obtain ⟨part, ⟨before, after, -, hspan⟩, hpart⟩ := hcovers raw hraw
    have hpos := hpart.byteLength_pos
    rw [hspan]
    exact Nat.lt_add_of_pos_right hpos
  · obtain ⟨done, rest, hregion, hdone, hrest⟩ := hscan.exists_behind
    rw [Nat.zero_add] at hdone
    refine ⟨done, rest, hregion, hdone, ?_, fun found hfound => ⟨?_, scan_trailing_covers hfound⟩⟩
    · rw [← hrest.stop_eq_none_iff]
      simp [scan, stop]
    · obtain ⟨token, hstop, rfl⟩ := Option.map_eq_some_iff.mp hfound
      rw [show stop = some token from hstop, ← hdone] at hrest
      rw [← hdone, hregion]
      exact trails_trailingFrom hrest

end TagScan

end ClassSchema
