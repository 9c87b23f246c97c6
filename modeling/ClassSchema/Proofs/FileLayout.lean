import ClassSchema.Proofs.LineWise
import ClassSchema.Proofs.Separators
import Mathlib.Logic.Relation

/-!
# The layout of a file

Without strictness the layout of a file does not matter: blank lines, carriage returns and
white space around a line change neither the model nor the faults, apart from their places.
All three kinds of change keep the trimmed lines of a text that are not empty, and these are
all that reading looks at.
-/

namespace ClassSchema

namespace Token

/-- The tokens that a pending one makes in front of white space, apart from unmatched ones. -/
def Pending.settled : Pending → List Token
  | nothing => []
  | target start reversed => [⟨.target, reversed.reverse, start⟩]
  | literal _ _ => []

/-- White space at the end completes a pending target and leaves a quotation open; it has no
other tokens but unmatched ones. -/
theorem exists_lexFrom_blanks {b : Text} (hb : ∀ c ∈ b, Text.isBlank c = true) (offset : ℕ)
    (pending : Pending) :
    ∃ rest, lexFrom offset pending b = pending.settled ++ rest ∧
      ∀ t ∈ rest, t.kind = .unmatched := by
  -- A target ends at the first character; behind it nothing is pending any more.
  induction b generalizing offset pending with
  | nil =>
    cases pending with
    | nothing => exact ⟨[], rfl, List.forall_mem_nil _⟩
    | target start reversed => exact ⟨[], rfl, List.forall_mem_nil _⟩
    | literal start reversed => exact ⟨_, rfl, List.forall_mem_singleton.mpr rfl⟩
  | cons c b ih =>
    obtain ⟨hc, hb⟩ := List.forall_mem_cons.mp hb
    obtain ⟨tokens, henter, htokens⟩ := exists_enter_of_isBlank hc offset
    cases pending with
    | nothing =>
      obtain ⟨rest, hrest, hunmatched⟩ := ih hb (offset + c.utf8Size) .nothing
      refine ⟨tokens ++ rest, ?_, List.forall_mem_append.mpr ⟨htokens, hunmatched⟩⟩
      rw [lexFrom, step, henter]
      exact congrArg (tokens ++ ·) hrest
    | target start reversed =>
      obtain ⟨rest, hrest, hunmatched⟩ := ih hb (offset + c.utf8Size) .nothing
      have hchar : ¬ isTargetChar c = true := by
        intro hchar
        exact Text.ne_of_isBlank hc (isBlank_of_isTargetChar hchar) rfl
      have hmark : c ≠ '?' := Text.ne_of_isBlank hc (by decide)
      refine ⟨tokens ++ rest, ?_, List.forall_mem_append.mpr ⟨htokens, hunmatched⟩⟩
      rw [lexFrom, step_target_of_ne hchar hmark, henter]
      exact congrArg (⟨.target, reversed.reverse, start⟩ :: tokens ++ ·) hrest
    | literal start reversed =>
      have hquote : c ≠ '"' := Text.ne_of_isBlank hc (by decide)
      rw [lexFrom, step_literal_of_ne hquote]
      exact ih hb (offset + c.utf8Size) (.literal start (c :: reversed))

end Token

namespace TagScan

/-- Unmatched tokens at the end are in no tag. -/
theorem ofTokens_append_unmatched {rest : List Token} (h : ∀ t ∈ rest, t.kind = .unmatched)
    (tokens : List Token) : (ofTokens (tokens ++ rest)).1 = (ofTokens tokens).1 := by
  fun_induction ofTokens tokens with
  | case1 =>
    cases rest with
    | nil => rfl
    | cons token rest =>
      obtain ⟨kind, text, start⟩ := token
      obtain rfl : kind = .unmatched := h _ List.mem_cons_self
      rfl
  | case2 text start tokens ih => exact ih
  | case3 name start text colonStart values valuesStart tokens tags stop hscan ih =>
    rw [hscan] at ih
    exact congrArg (_ :: ·) ih
  | case4 token tokens hfiller htag =>
    -- The colon and the literal of a tag would have to stand in `tokens` already.
    rw [List.cons_append, ofTokens]
    · exact hfiller
    · intro name start text colonStart values valuesStart more htarget hmore
      cases tokens with
      | nil =>
        rw [List.nil_append] at hmore
        simp [hmore] at h
      | cons colon tokens =>
        obtain ⟨hcolon, hliteral⟩ := List.cons.inj hmore
        cases tokens with
        | nil =>
          have hrest : rest = _ := hliteral
          simp [hrest] at h
        | cons literal tokens =>
          rw [hcolon, (List.cons.inj hliteral).1] at htag
          exact htag _ _ _ _ _ _ _ htarget rfl

theorem tags_scan_append_blanks {b : Text} (hb : ∀ c ∈ b, Text.isBlank c = true)
    (region : Text) : (scan (region ++ b)).tags = (scan region).tags := by
  let before := Token.run 0 .nothing region
  have htags {b : Text} (hb : ∀ c ∈ b, Text.isBlank c = true) :
      (scan (region ++ b)).tags = (ofTokens (before.2 ++ before.1.settled)).1 := by
    obtain ⟨rest, hrest, hunmatched⟩ :=
      Token.exists_lexFrom_blanks hb (0 + region.byteLength) before.1
    have hlex : Token.lex (region ++ b) = before.2 ++ before.1.settled ++ rest := by
      rw [List.append_assoc, ← hrest, Token.lexFrom_eq_run, Token.lex, Token.lexFrom_eq_run,
        Token.run_append, List.append_assoc]
    rw [← ofTokens_append_unmatched hunmatched, ← hlex]
    rfl
  -- The region alone is the case without white space.
  have hempty := htags (b := []) (List.forall_mem_nil _)
  rw [List.append_nil] at hempty
  rw [htags hb, hempty]

end TagScan

namespace FieldLine

variable {b : Text}

/-- The parts of a line with white space in front of it. -/
theorem split?_blanks_append (hb : ∀ c ∈ b, Text.isBlank c = true) (line : Text) :
    split? (b ++ line) = (split? line).map fun parts =>
      { parts with
        nameStart := b.byteLength + parts.nameStart
        typeStart := b.byteLength + parts.typeStart
        regionStart := b.byteLength + parts.regionStart } := by
  rw [split?, Text.nextWord?_blanks_append hb, split?]
  cases Text.nextWord? line with
  | none => rfl
  | some first =>
    cases hsecond : Text.nextWord? first.rest with
    | none => simp [hsecond]
    | some second => simp [hsecond, Nat.add_assoc]

theorem split?_append_blanks (hb : ∀ c ∈ b, Text.isBlank c = true) (line : Text) :
    split? (line ++ b) = (split? line).map fun parts =>
      { parts with region := parts.region ++ b } := by
  rw [split?, Text.nextWord?_append_blanks hb, split?]
  cases Text.nextWord? line with
  | none => rfl
  | some first =>
    simp only [Option.map_some, Option.bind_eq_bind, Option.bind_some,
      Text.nextWord?_append_blanks hb]
    cases Text.nextWord? first.rest <;> rfl

theorem readParts_lenient_congr {parts parts' : FieldLine} (hname : parts.name = parts'.name)
    (htype : parts.type = parts'.type)
    (htags : (TagScan.scan parts.region).tags = (TagScan.scan parts'.region).tags)
    (line line' : Text) :
    (parts.readParts false line).result.mapError Fault.unplaced =
      (parts'.readParts false line').result.mapError Fault.unplaced := by
  rw [result_readParts_lenient, result_readParts_lenient, mapError_bind, mapError_bind,
    readHead_unplaced_congr hname htype]
  congr 1
  funext head
  exact buildField_unplaced_congr parts parts' (congrArg _ htags) line line' head.1 head.2

end FieldLine

namespace Field

/-- Lines with the same words, tags and trimmed text are read alike. -/
theorem read_lenient_congr {line line' : Text} {f : FieldLine → FieldLine}
    (hsplit : FieldLine.split? line' = (FieldLine.split? line).map f)
    (hname : ∀ parts, (f parts).name = parts.name) (htype : ∀ parts, (f parts).type = parts.type)
    (htags : ∀ parts, (TagScan.scan (f parts).region).tags = (TagScan.scan parts.region).tags)
    (htrim : Text.trim line' = Text.trim line) :
    (Field.read false line').mapError Fault.unplaced =
      (Field.read false line).mapError Fault.unplaced := by
  cases hline : FieldLine.split? line with
  | none =>
    rw [hline] at hsplit
    rw [Field.read, FieldReading.ofLine, hsplit, Field.read, FieldReading.ofLine, hline]
    exact congrArg (fun t => Except.error (Fault.malformedField t ⟨0, 0⟩)) htrim
  | some parts =>
    rw [hline] at hsplit
    rw [read_of_split? hsplit, read_of_split? hline]
    exact FieldLine.readParts_lenient_congr (hname parts) (htype parts) (htags parts) line' line

theorem read_lenient_trim (line : Text) :
    (Field.read false line).mapError Fault.unplaced =
      (Field.read false (Text.trim line)).mapError Fault.unplaced := by
  refine Text.eq_trim_of_blanks (f := fun line => (Field.read false line).mapError Fault.unplaced)
    (fun b line hb => ?_) (fun b line hb => ?_) line
  · exact read_lenient_congr (FieldLine.split?_blanks_append hb line) (fun _ => rfl)
      (fun _ => rfl) (fun _ => rfl) (Text.trim_blanks_append hb line)
  · exact read_lenient_congr (FieldLine.split?_append_blanks hb line) (fun _ => rfl)
      (fun _ => rfl) (fun parts => TagScan.tags_scan_append_blanks hb parts.region)
      (Text.trim_append_blanks hb line)

end Field

namespace Text

variable {b : Text}

/-- The lines of a text that are not blank, each without the white space around it. -/
def contents (source : Text) : List Text :=
  ((splitOn '\n' source).map trim).filter fun line => !line.isEmpty

theorem contents_append_newline (s t : Text) :
    contents (s ++ '\n' :: t) = contents s ++ contents t := by
  rw [contents, splitOn_append_cons, List.map_append, List.filter_append, contents, contents]

theorem contents_of_not_mem {l : Text} (h : '\n' ∉ l) :
    contents l = [trim l].filter fun line => !line.isEmpty := by
  rw [contents, splitOn_eq, List.splitOn_eq_singleton h, List.map_singleton]

theorem contents_cons_blank {c : Char} (hc : isBlank c = true) (t : Text) :
    contents (c :: t) = contents t := by
  by_cases hnewline : c = '\n'
  · subst hnewline
    exact contents_append_newline [] t
  have htrim (l : Text) (hl : '\n' ∉ l) : contents (c :: l) = contents l := by
    have hcl : '\n' ∉ c :: l := by simp [Ne.symm hnewline, hl]
    have hblank := trim_blanks_append (List.forall_mem_singleton.mpr hc) l
    rw [List.singleton_append] at hblank
    rw [contents_of_not_mem hcl, contents_of_not_mem hl, hblank]
  induction t using lineInduction with
  | last l hl => exact htrim l hl
  | line l rest hl _ =>
    rw [← List.cons_append, contents_append_newline, contents_append_newline, htrim l hl]

theorem contents_concat_blank {c : Char} (hc : isBlank c = true) (t : Text) :
    contents (t ++ [c]) = contents t := by
  by_cases hnewline : c = '\n'
  · subst hnewline
    rw [contents_append_newline]
    exact List.append_nil _
  induction t using lineInduction with
  | last l hl =>
    have hlc : '\n' ∉ l ++ [c] := by simp [Ne.symm hnewline, hl]
    rw [contents_of_not_mem hlc, contents_of_not_mem hl,
      trim_append_blanks (List.forall_mem_singleton.mpr hc)]
  | line l rest hl ih =>
    rw [List.append_assoc, List.cons_append, contents_append_newline, contents_append_newline, ih]

theorem contents_blanks_append (hb : ∀ c ∈ b, isBlank c = true) (t : Text) :
    contents (b ++ t) = contents t := by
  induction b with
  | nil => rfl
  | cons c b ih =>
    obtain ⟨hc, hb⟩ := List.forall_mem_cons.mp hb
    rw [List.cons_append, contents_cons_blank hc, ih hb]

theorem contents_append_blanks (hb : ∀ c ∈ b, isBlank c = true) (t : Text) :
    contents (t ++ b) = contents t := by
  induction b generalizing t with
  | nil => rw [List.append_nil]
  | cons c b ih =>
    obtain ⟨hc, hb⟩ := List.forall_mem_cons.mp hb
    rw [← List.singleton_append, ← List.append_assoc, ih hb, contents_concat_blank hc]

theorem contents_joined (lines : List Text) :
    contents (joined "\n" lines) = lines.flatMap contents := by
  induction lines with
  | nil => rfl
  | cons line lines ih =>
    by_cases hnil : lines = []
    · simp [hnil]
    · rw [joined_cons hnil, List.append_assoc, List.flatMap_cons, ← ih]
      exact contents_append_newline line _

def withCarriageReturns (t : Text) : Text := t.flatMap fun c => if c = '\n' then "\r\n" else [c]

theorem withCarriageReturns_of_not_mem {l : Text} (h : '\n' ∉ l) : withCarriageReturns l = l := by
  induction l with
  | nil => rfl
  | cons c l ih =>
    rw [List.mem_cons, not_or] at h
    rw [withCarriageReturns, List.flatMap_cons, if_neg (Ne.symm h.1)]
    exact congrArg (c :: ·) (ih h.2)

theorem contents_withCarriageReturns (t : Text) :
    contents (withCarriageReturns t) = contents t := by
  induction t using lineInduction with
  | last l hl => rw [withCarriageReturns_of_not_mem hl]
  | line l rest hl ih =>
    have hline : withCarriageReturns (l ++ '\n' :: rest) =
        (l ++ ['\r']) ++ '\n' :: withCarriageReturns rest := by
      rw [withCarriageReturns, List.flatMap_append, ← withCarriageReturns,
        withCarriageReturns_of_not_mem hl, List.append_assoc]
      rfl
    rw [hline, contents_append_newline, contents_concat_blank (by decide), ih,
      contents_append_newline]

end Text

/-- One change of the layout of a text. -/
inductive LayoutEdit : Text → Text → Prop
  /-- A line of white space is inserted. -/
  | blankLine (before after : List Text) {blank : Text} (h : ∀ c ∈ blank, Text.isBlank c = true) :
      LayoutEdit (Text.joined "\n" (before ++ after)) (Text.joined "\n" (before ++ blank :: after))
  /-- White space is put around a line. -/
  | margins (before after : List Text) (line : Text) {lead trail : Text}
      (hlead : ∀ c ∈ lead, Text.isBlank c = true) (htrail : ∀ c ∈ trail, Text.isBlank c = true) :
      LayoutEdit (Text.joined "\n" (before ++ line :: after))
        (Text.joined "\n" (before ++ (lead ++ line ++ trail) :: after))
  /-- Every newline is replaced by a carriage return and a newline. -/
  | carriageReturns (source : Text) : LayoutEdit source source.withCarriageReturns

namespace LayoutEdit

variable {source source' : Text}

theorem contents_eq (h : LayoutEdit source source') : source.contents = source'.contents := by
  cases h with
  | blankLine before after hblank =>
    have hnil := Text.contents_append_blanks hblank []
    rw [List.nil_append] at hnil
    rw [Text.contents_joined, Text.contents_joined, List.flatMap_append, List.flatMap_append,
      List.flatMap_cons, hnil]
    rfl
  | margins before after line hlead htrail =>
    simp only [Text.contents_joined, List.flatMap_append, List.flatMap_cons,
      Text.contents_append_blanks htrail, Text.contents_blanks_append hlead]
  | carriageReturns => exact (Text.contents_withCarriageReturns source).symm

theorem contents_eq_of_eqvGen (h : Relation.EqvGen LayoutEdit source source') :
    source.contents = source'.contents := by
  induction h with
  | rel _ _ hedit => exact hedit.contents_eq
  | refl _ => rfl
  | symm _ _ _ ih => exact ih.symm
  | trans _ _ _ _ _ ih ih' => exact ih.trans ih'

end LayoutEdit

namespace SourceLine

theorem map_trim_contentLines (source : Text) :
    (contentLines source).map (fun line => Text.trim line.text) = source.contents := by
  have hends (t : Text) : Text.trim (Text.dropEndWhile isLineEnd t) = Text.trim t := by
    have hblank : ∀ c ∈ t.rtakeWhile isLineEnd, Text.isBlank c = true := by
      intro c hc
      have hend := List.mem_rtakeWhile_imp hc
      simp only [isLineEnd, Bool.or_eq_true, beq_iff_eq] at hend
      rcases hend with rfl | rfl <;> decide
    have ht : Text.dropEndWhile isLineEnd t ++ t.rtakeWhile isLineEnd = t :=
      List.rdropWhile_append_rtakeWhile ..
    rw [← Text.trim_append_blanks hblank, ht]
  have hfilter (lines : List SourceLine) :
      (lines.filter fun line => !Text.isAllBlank line.text).map (fun line => Text.trim line.text) =
        (lines.map fun line => Text.trim line.text).filter fun t => !t.isEmpty := by
    simp only [Text.isAllBlank_eq, List.filter_map]
    rfl
  rw [contentLines, hfilter, Text.contents]
  congr 1
  refine List.ext_getElem? fun i => ?_
  simp [Function.comp_def, hends]

theorem readHeader_unplaced_congr {line line' : Text} (h : Text.trim line = Text.trim line') :
    (readHeader line).mapError Fault.unplaced = (readHeader line').mapError Fault.unplaced := by
  simp only [readHeader, h]
  split_ifs
  · rfl
  · rw [mapError_mapError, mapError_mapError]
    rfl

end SourceLine

theorem FieldList.ofLines_lenient_congr {lines lines' : List SourceLine}
    (h : lines.map (fun line => Text.trim line.text) = lines'.map (fun line => Text.trim line.text))
    (seen : List FieldName) :
    (ofLines false seen lines).fields = (ofLines false seen lines').fields ∧
      (ofLines false seen lines).faults.map Fault.unplaced =
        (ofLines false seen lines').faults.map Fault.unplaced := by
  induction lines generalizing lines' seen with
  | nil =>
    obtain rfl : lines' = [] := List.map_eq_nil_iff.mp h.symm
    exact ⟨rfl, rfl⟩
  | cons line lines ih =>
    obtain ⟨line', lines', rfl, htrim, hrest⟩ := List.map_eq_cons_iff.mp h.symm
    have hread : (Field.read false line.text).mapError Fault.unplaced =
        (Field.read false line'.text).mapError Fault.unplaced := by
      have htrim : Text.trim line'.text = Text.trim line.text := htrim
      rw [Field.read_lenient_trim, ← htrim, ← Field.read_lenient_trim]
    cases hline : Field.read false line.text with
    | error fault =>
      rw [hline] at hread
      obtain ⟨fault', hline', hfault⟩ := mapError_eq_error_iff.mp hread.symm
      obtain ⟨hfields, hfaults⟩ := ih hrest.symm seen
      rw [ofLines_cons_of_error hline, ofLines_cons_of_error hline']
      refine ⟨hfields, ?_⟩
      rw [List.map_cons, List.map_cons, Fault.unplaced_shifted, Fault.unplaced_shifted, hfault,
        hfaults]
    | ok field =>
      rw [hline] at hread
      have hline' := mapError_eq_ok_iff.mp hread.symm
      by_cases hmem : field.name ∈ seen
      · obtain ⟨hfields, hfaults⟩ := ih hrest.symm seen
        rw [ofLines_cons_of_mem hline hmem, ofLines_cons_of_mem hline' hmem]
        exact ⟨hfields, congrArg (_ :: ·) hfaults⟩
      · obtain ⟨hfields, hfaults⟩ := ih hrest.symm (field.name :: seen)
        rw [ofLines_cons_of_not_mem hline hmem, ofLines_cons_of_not_mem hline' hmem]
        exact ⟨congrArg (field :: ·) hfields, hfaults⟩

namespace Model

/-- Without strictness, a file is read by what its lines hold. -/
theorem read_lenient_congr {source source' : Text} (h : source.contents = source'.contents) :
    (read false source).mapError (List.map Fault.unplaced) =
      (read false source').mapError (List.map Fault.unplaced) := by
  rw [← SourceLine.map_trim_contentLines, ← SourceLine.map_trim_contentLines] at h
  cases hlines : SourceLine.contentLines source with
  | nil =>
    rw [hlines] at h
    have hlines' := List.map_eq_nil_iff.mp h.symm
    rw [read_of_contentLines_nil hlines, read_of_contentLines_nil hlines']
    rfl
  | cons header lines =>
    rw [hlines] at h
    obtain ⟨header', lines', hlines', htrim, hrest⟩ := List.map_eq_cons_iff.mp h.symm
    obtain ⟨hfields, hfaults⟩ := FieldList.ofLines_lenient_congr hrest.symm []
    rw [FieldList.ofLines_faults_nil, FieldList.ofLines_faults_nil] at hfaults
    have hheader := SourceLine.readHeader_unplaced_congr htrim.symm
    rw [read_of_contentLines_cons hlines, read_of_contentLines_cons hlines']
    cases hread : SourceLine.readHeader header.text with
    | error fault =>
      rw [hread] at hheader
      obtain ⟨fault', hread', hfault⟩ := mapError_eq_error_iff.mp hheader.symm
      rw [hread']
      refine congrArg Except.error ?_
      rw [List.map_cons, List.map_cons, Fault.unplaced_shifted, Fault.unplaced_shifted, hfault,
        hfaults]
    | ok name =>
      rw [hread] at hheader
      rw [mapError_eq_ok_iff.mp hheader.symm]
      have hnil : fieldFaults false lines = [] ↔ fieldFaults false lines' = [] := by
        rw [← List.map_eq_nil_iff (f := Fault.unplaced), hfaults, List.map_eq_nil_iff]
      by_cases hempty : fieldFaults false lines = []
      · simp only [if_pos hempty, if_pos (hnil.mp hempty), hfields]
      · simp only [if_neg hempty, if_neg (hnil.not.mp hempty)]
        exact congrArg Except.error hfaults

/-- Without strictness, no change of the layout of a file changes its model or its faults,
apart from their places. -/
theorem read_eq_of_layoutEdits {source source' : Text}
    (h : Relation.EqvGen LayoutEdit source source') :
    (read false source).mapError (List.map Fault.unplaced) =
      (read false source').mapError (List.map Fault.unplaced) :=
  read_lenient_congr (LayoutEdit.contents_eq_of_eqvGen h)

/-- A file with trailing text, a line of one word, and an open quotation in a field that is
declared again: its margins are taken away, a blank line is inserted, and carriage returns
are put at the ends of its lines. -/
theorem read_eq_of_layoutEdits_faulty :
    let head : List Text := ["Person:"]
    let middle : List Text := ["id int json:\"id\" oops", "bad"]
    let last : Text := "id string db:\"x"
    let blank : Text := "\u3000 "
    let indented : Text := "\t" ++ last ++ "\u00a0\r"
    let source : Text := Text.joined "\n" (head ++ middle ++ [indented])
    let spaced : Text := Text.joined "\n" (head ++ blank :: (middle ++ [last]))
    Relation.EqvGen LayoutEdit source spaced.withCarriageReturns ∧
      (read false source).mapError (List.map Fault.unplaced) =
        (read false spaced.withCarriageReturns).mapError (List.map Fault.unplaced) ∧
      (read false source).mapError (List.map Fault.unplaced) =
        .error [.malformedField "bad" ⟨0, 0⟩, .violation (.repeatedField "id") ⟨0, 0⟩] := by
  intro head middle last blank indented source spaced
  have hlead : ∀ c ∈ ("\t" : String).toList, Text.isBlank c = true :=
    List.all_eq_true.mp (by decide)
  have htrail : ∀ c ∈ ("\u00a0\r" : String).toList, Text.isBlank c = true :=
    List.all_eq_true.mp (by decide)
  have hblank : ∀ c ∈ blank, Text.isBlank c = true := List.all_eq_true.mp (by decide)
  have hmargins : LayoutEdit (Text.joined "\n" (head ++ middle ++ [last])) source :=
    .margins (head ++ middle) [] last hlead htrail
  have hinserted : LayoutEdit (Text.joined "\n" (head ++ (middle ++ [last]))) spaced :=
    .blankLine head (middle ++ [last]) hblank
  have hedits : Relation.EqvGen LayoutEdit source spaced.withCarriageReturns := by
    refine .trans _ _ _ (.symm _ _ (.rel _ _ hmargins)) ?_
    rw [List.append_assoc]
    exact .trans _ _ _ (.rel _ _ hinserted) (.rel _ _ (.carriageReturns spaced))
  exact ⟨hedits, read_eq_of_layoutEdits hedits, by decide +kernel⟩

/-- Strict reading refuses white space behind a line if the lexer does not skip it. -/
example :
    (read true "Person:\nid int").toOption.isSome = true ∧
      (read true "Person:\nid int\u00a0").toOption.isSome = false := by
  decide +kernel

end Model

end ClassSchema
