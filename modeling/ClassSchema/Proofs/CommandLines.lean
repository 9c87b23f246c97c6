import ClassSchema.Proofs.Options

/-!
# Command lines in different styles

A command line without the options that only concern what is shown is read as well, with
the options of any style in front of it, and asks for the same command with the same
settings. Both lines are read side by side, first in front of the name of the command and
then behind it.
-/

namespace ClassSchema

open Switch (presentation)

namespace Level

variable {l l' l₁ m : Level} {name : CommandName} {s : Switch} {w : Text} {ws : List Text}
  {skip : Bool} {env : Environment} {style : Style}

theorem readInner_option (hw : (Word.ofText w).isOption = true) :
    l.readInner name false (w :: ws) =
      l.readWord (some name) name.switches (Word.ofText w) >>= fun l =>
        l.readInner name false ws := by
  rcases Word.isOption_cases hw with ⟨t, ht⟩ | ⟨c, t, ht⟩
  · simp [readInner, ht, readWord]
  · simp [readInner, ht, readWord]

/-- A word that is no option and no format is read on both sides. -/
theorem Agrees.readInner_other {ended : Bool} (h : Agrees style false l l')
    (hw : ended = true ∨ Word.ofText w = .other)
    (hok : l.readInner name ended (w :: ws) = .ok m) :
    ∃ l₁ l₁', Agrees style false l₁ l₁' ∧ l₁.readInner name ended ws = .ok m ∧
      ∀ ws', l'.readInner name ended (w :: ws') = l₁'.readInner name ended ws' := by
  cases hwaiting : l.waiting with
  | some s =>
    rw [readInner_value hw hwaiting] at hok
    refine ⟨_, _, h.place_value hwaiting w, hok, fun ws' => ?_⟩
    exact readInner_value hw (h.waiting_eq_of_false.trans hwaiting)
  | none =>
    rw [readInner_word hw hwaiting] at hok
    split_ifs at hok with haccepts
    refine ⟨_, _, h.add_word w, hok, fun ws' => ?_⟩
    rw [← h.words_eq] at haccepts
    rw [readInner_word hw (h.waiting_eq_of_false.trans hwaiting), if_pos haccepts]

theorem Agrees.readInner_ended (h : Agrees style false l l')
    (hok : l.readInner name true ws = .ok m) :
    ∃ m', l'.readInner name true ws = .ok m' ∧ Agrees style false m m' := by
  induction ws generalizing l l' with
  | nil =>
    cases hok
    exact ⟨l', rfl, h⟩
  | cons w ws ih =>
    obtain ⟨l₁, l₁', h₁, hrest, hread⟩ := h.readInner_other (.inl rfl) hok
    rw [hread]
    exact ih h₁ hrest

/-- Both sides are read to the end of the line. -/
theorem Agrees.readInner (h : Agrees style skip l l') (hok : l.readInner name false ws = .ok m) :
    ∃ skip' m', l'.readInner name false (withoutPresentationFrom skip ws) = .ok m' ∧
      Agrees style skip' m m' := by
  induction ws generalizing skip l l' with
  | nil =>
    cases hok
    cases skip <;> exact ⟨_, l', rfl, h⟩
  | cons w ws ih =>
    by_cases hw : (Word.ofText w).isOption = true
    · rw [readInner_option hw] at hok
      obtain ⟨l₁, hread, hrest⟩ := bind_eq_ok_iff.mp hok
      cases skip with
      | true => exact absurd hread (h.readWord_ne_ok hw)
      | false =>
        rcases h.readWord hw hread with ⟨skip, hskip, h₁⟩ | ⟨w', l₁', hkeep, hw', hread', h₁⟩
        · rw [hskip]
          exact ih h₁ hrest
        · rw [hkeep, readInner_option hw', hread']
          exact ih h₁ hrest
    · cases hword : Word.ofText w with
      | long t => simp [hword, Word.isOption] at hw
      | short t => simp [hword, Word.isOption] at hw
      | endOfOptions =>
        rw [readInner_endOfOptions hword] at hok
        split_ifs at hok with hwaiting
        rw [Option.not_isSome_iff_eq_none] at hwaiting
        cases skip with
        | true => simp [h.skip_iff.mp rfl] at hwaiting
        | false =>
          obtain ⟨m', hread, hm⟩ := h.readInner_ended hok
          refine ⟨false, m', ?_, hm⟩
          rw [withoutPresentationFrom_endOfOptions hword, readInner_endOfOptions hword,
            h.waiting_eq_of_false, hwaiting]
          exact hread
      | other =>
        cases skip with
        | true =>
          -- The format is left out with its option, and the other side stands still.
          rw [readInner_value (.inr hword) (h.skip_iff.mp rfl)] at hok
          exact ih (h.place_format w) hok
        | false =>
          obtain ⟨l₁, l₁', h₁, hrest, hread⟩ := h.readInner_other (.inr hword) hok
          rw [withoutPresentationFrom_other hword, hread]
          exact ih h₁ hrest

theorem readOuter_option (hw : (Word.ofText w).isOption = true) :
    l.readOuter (w :: ws) =
      l.readWord none Switch.common (Word.ofText w) >>= fun l => l.readOuter ws := by
  rcases Word.isOption_cases hw with ⟨t, ht⟩ | ⟨c, t, ht⟩
  · simp [readOuter, ht, readWord]
  · simp [readOuter, ht, readWord]

/-- Both sides are read up to the name of the command. -/
theorem Agrees.readOuter {rest : List Text} (h : Agrees style skip l l')
    (hok : l.readOuter ws = .ok (m, false, rest)) :
    ∃ skip' m', l'.readOuter (withoutPresentationFrom skip ws) =
        .ok (m', false, withoutPresentationFrom false rest) ∧ Agrees style skip' m m' := by
  induction ws generalizing skip l l' with
  | nil =>
    cases hok
    cases skip <;> exact ⟨_, l', rfl, h⟩
  | cons w ws ih =>
    by_cases hw : (Word.ofText w).isOption = true
    · rw [readOuter_option hw] at hok
      obtain ⟨l₁, hread, hrest⟩ := bind_eq_ok_iff.mp hok
      cases skip with
      | true => exact absurd hread (h.readWord_ne_ok hw)
      | false =>
        rcases h.readWord hw hread with ⟨skip, hskip, h₁⟩ | ⟨w', l₁', hkeep, hw', hread', h₁⟩
        · rw [hskip]
          exact ih h₁ hrest
        · rw [hkeep, readOuter_option hw', hread']
          exact ih h₁ hrest
    · cases hword : Word.ofText w with
      | long t => simp [hword, Word.isOption] at hw
      | short t => simp [hword, Word.isOption] at hw
      | endOfOptions =>
        rw [Level.readOuter, hword] at hok
        dsimp only at hok
        split_ifs at hok
        cases hok
      | other =>
        cases hwaiting : l.waiting with
        | none =>
          have hfalse : skip = false := by
            rw [← Bool.not_eq_true, h.skip_iff, hwaiting]
            simp
          subst hfalse
          rw [readOuter_word hword hwaiting] at hok
          cases hok
          refine ⟨false, l', ?_, h⟩
          rw [withoutPresentationFrom_other hword,
            readOuter_word hword (h.waiting_eq_of_false.trans hwaiting)]
        | some s =>
          rw [readOuter_value hword hwaiting] at hok
          cases skip with
          | true =>
            cases (h.skip_iff.mp rfl).symm.trans hwaiting
            exact ih (h.place_format w) hok
          | false =>
            rw [withoutPresentationFrom_other hword,
              readOuter_value hword (h.waiting_eq_of_false.trans hwaiting)]
            exact ih (h.place_value hwaiting w) hok

theorem lookup_inStyle (hs : s ≠ .format) :
    (l.inStyle style).values.lookup s = l.values.lookup s := by
  have hstyle : style.values.lookup s = none := by
    rw [List.lookup_eq_none_iff]
    intro p hp
    rw [eq_format_of_mem_values hp]
    exact bne_iff_ne.mpr hs
  change (l.values.filter (·.1 ≠ .format) ++ style.values).lookup s = _
  rw [List.lookup_append, hstyle, Option.or_none]
  induction l.values with
  | nil => rfl
  | cons p values ih =>
    by_cases hp : p.1 = .format
    · have hne : (s == p.1) = false := by simpa [hp] using hs
      rw [List.filter_cons_of_neg (by simpa using hp), ih, List.lookup_cons, hne]
    · rw [List.filter_cons_of_pos (by simpa using hp), List.lookup_cons, List.lookup_cons, ih]

theorem lookup_format_inStyle (l : Level) (style : Style) :
    (l.inStyle style).values.lookup .format = style.format.map Format.name := by
  have hnone : (l.values.filter (·.1 ≠ .format)).lookup .format = none := by
    rw [List.lookup_eq_none_iff]
    intro p hp
    have hformat : p.1 ≠ .format := by simpa using List.of_mem_filter hp
    exact bne_iff_ne.mpr hformat.symm
  change (l.values.filter (·.1 ≠ .format) ++ style.values).lookup .format = _
  rw [List.lookup_append, hnone, Option.none_or]
  unfold Style.values
  cases style.format <;> rfl

theorem mem_flags_inStyle_iff (hs : s ∉ presentation) :
    s ∈ (l.inStyle style).flags ↔ s ∈ l.flags := by
  change s ∈ l.flags.filter _ ++ style.flags ↔ _
  rw [List.mem_append, List.mem_filter]
  simpa [hs] using fun hmem => absurd (mem_presentation_of_mem_flags hmem) hs

theorem count_flags_inStyle (hs : s ∈ presentation) :
    (l.inStyle style).flags.count s = style.flags.count s := by
  have hnone : (l.flags.filter (· ∉ presentation)).count s = 0 := by
    rw [List.count_eq_zero]
    intro hmem
    have hnot : s ∉ presentation := by simpa using List.of_mem_filter hmem
    exact hnot hs
  change (l.flags.filter (· ∉ presentation) ++ style.flags).count s = _
  rw [List.count_append, hnone, Nat.zero_add]

theorem count_verbose_inStyle (l : Level) (style : Style) :
    (l.inStyle style).flags.count .verbose = style.verbosity := by
  rw [count_flags_inStyle (by decide)]
  unfold Style.flags
  cases style.quiet <;> simp

theorem quiet_mem_flags_inStyle_iff (l : Level) (style : Style) :
    .quiet ∈ (l.inStyle style).flags ↔ style.quiet = true := by
  rw [← List.count_pos_iff, count_flags_inStyle (by decide), List.count_pos_iff]
  unfold Style.flags
  cases style.quiet <;> simp

theorem Agrees.finish (h : Agrees style skip l l') (hok : l.finish env = .ok l₁) :
    l'.finish env = .ok (l₁.inStyle style) := by
  obtain ⟨l₀, hsettle, hok⟩ := bind_eq_ok_iff.mp hok
  obtain ⟨hwaiting, hvalues, rfl⟩ := (settle_eq_ok_iff h.admissible).mp hsettle
  split_ifs at hok with hsettings hflags
  cases hok
  have hvalues' : Admissible l'.taken.values := by
    rw [h.taken_eq]
    exact hvalues.inStyle style
  have hwaiting' : l'.waiting = none := by
    rw [h.waiting_eq, hwaiting]
    rfl
  have hsettle' : l'.settle = .ok (l.taken.inStyle style) :=
    (settle_eq_ok_iff (hvalues'.sublist (List.sublist_append_right _ _))).mpr
      ⟨hwaiting', hvalues', h.taken_eq.symm⟩
  have hexclusive : ¬(.quiet ∈ (l.taken.inStyle style).flags ∧
      .verbose ∈ (l.taken.inStyle style).flags) := by
    rintro ⟨hquiet, hverbose⟩
    have hnone := style.exclusive ((quiet_mem_flags_inStyle_iff l.taken style).mp hquiet)
    have hsome := List.count_pos_iff.mpr hverbose
    rw [count_verbose_inStyle] at hsome
    omega
  refine bind_eq_ok_iff.mpr ⟨_, hsettle', ?_⟩
  rw [lookup_inStyle (by decide), if_neg hsettings, if_neg hexclusive]
  rfl

theorem command_inStyle (l : Level) (style : Style) (name : CommandName) :
    (l.inStyle style).command name = l.command name := by
  have hwords : (l.inStyle style).words = l.words := rfl
  have hflag {s : Switch} (hs : s ∉ presentation) :
      decide (s ∈ (l.inStyle style).flags) = decide (s ∈ l.flags) := by
    simp only [mem_flags_inStyle_iff hs]
  cases name <;> simp only [Level.command, hwords, lookup_inStyle (s := .outputDir) (by decide),
    hflag (s := .strict) (by decide), hflag (s := .onlyCheck) (by decide),
    hflag (s := .printModel) (by decide)]

theorem invocation_inStyle (env : Environment) (outer inner : Level) (style : Style)
    (command : Command) :
    (outer.inStyle style).invocation env (inner.inStyle .unasked) command =
      (outer.invocation env inner command).inStyle style := by
  have hformat : (style.format.map Format.name).bind Format.ofName? = style.format := by
    cases style.format with
    | none => rfl
    | some f => cases f <;> rfl
  simp [invocation, Invocation.inStyle, valueOf, verbosity, lookup_inStyle, lookup_format_inStyle,
    count_verbose_inStyle, quiet_mem_flags_inStyle_iff, Style.unasked, hformat]

theorem readOuter_options (style : Style) (ws : List Text) :
    ({} : Level).readOuter (style.options ++ ws) = (inStyle {} style).readOuter ws := by
  have hformat (ws : List Text) :
      ({} : Level).readOuter
          ((style.format.toList.map fun f => ("--format=" : Text) ++ f.name) ++ ws) =
        ({ values := style.values } : Level).readOuter ws := by
    unfold Style.values
    cases style.format with
    | none => rfl
    | some f => exact readOuter_format f ws
  unfold Style.options
  rw [List.append_assoc, List.append_assoc, hformat, readOuter_verbose]
  unfold inStyle Style.flags
  cases hquiet : style.quiet with
  | false => rfl
  | true =>
    rw [style.exclusive hquiet]
    rfl

end Level

namespace Invocation

open Level

/-- A command line that names a command, with what is read on each level. -/
inductive Named (env : Environment) (args : List Text) : Invocation → Prop
  | intro {name : CommandName} {ws : List Text} {outer outer' inner inner' : Level}
      {command : Command}
      (houter : ({} : Level).readOuter args = .ok (outer, false, name.word :: ws))
      (hinner : ({} : Level).readInner name false ws = .ok inner)
      (hinner' : inner.finish env = .ok inner') (hcommand : inner'.command name = .ok command)
      (houter' : outer.finish env = .ok outer') :
      Named env args (outer'.invocation env inner' command)

variable {env : Environment} {args : List Text} {i : Invocation}

theorem Named.read_eq (h : Named env args i) : read env args = .ok i := by
  cases h with
  | @intro name ws outer outer' inner inner' command houter hinner hinner' hcommand houter' =>
    unfold read
    simp [houter, hinner, hinner', hcommand, houter', CommandName.ofWord?_word, word_ne_helpWord,
      bind, Except.bind, pure, Except.pure]

theorem named_of_read (h : read env args = .ok i) (hknown : ∀ words, i.command ≠ .unknown words) :
    Named env args i := by
  obtain ⟨⟨outer, ended, rest⟩, houter, h⟩ := bind_eq_ok_iff.mp h
  cases rest with
  | nil => cases h
  | cons w ws =>
    dsimp only at h
    have hnamed : (outer.finish env >>= fun outer =>
        pure (outer.invocation env {} (.unknown (w :: ws)))) ≠ .ok i := by
      intro h
      obtain ⟨outer', -, h⟩ := bind_eq_ok_iff.mp h
      cases h
      exact hknown (w :: ws) rfl
    split_ifs at h with hhelp hended
    · exact absurd h hnamed
    · rw [Bool.not_eq_true] at hended
      subst hended
      cases hname : CommandName.ofWord? w with
      | none =>
        rw [hname] at h
        exact absurd h hnamed
      | some name =>
        rw [hname] at h
        obtain ⟨inner, hinner, h⟩ := bind_eq_ok_iff.mp h
        obtain ⟨inner', hinner', h⟩ := bind_eq_ok_iff.mp h
        obtain ⟨command, hcommand, h⟩ := bind_eq_ok_iff.mp h
        obtain ⟨outer', houter', h⟩ := bind_eq_ok_iff.mp h
        cases h
        have hword : name.word = w := by simpa using List.find?_some hname
        subst hword
        exact .intro houter hinner hinner' hcommand houter'

theorem Named.inStyle (h : Named env args i) (style : Style) :
    Named env (style.options ++ withoutPresentation args) (i.inStyle style) := by
  cases h with
  | @intro name ws outer outer' inner inner' command houter hinner hinner' hcommand houter' =>
    obtain ⟨_, outer₁, houter₁, hagree⟩ := (Agrees.empty style).readOuter houter
    obtain ⟨_, inner₁, hinner₁, hagree₁⟩ := (Agrees.empty .unasked).readInner hinner
    rw [withoutPresentationFrom_other (Word.ofText_word name)] at houter₁
    rw [← invocation_inStyle]
    refine .intro ?_ hinner₁ (hagree₁.finish hinner') ?_ (hagree.finish houter')
    · rw [readOuter_options]
      exact houter₁
    · rw [command_inStyle, hcommand]

theorem read_inStyle (h : read env args = .ok i) (hknown : ∀ words, i.command ≠ .unknown words)
    (style : Style) :
    read env (style.options ++ withoutPresentation args) = .ok (i.inStyle style) :=
  ((named_of_read h hknown).inStyle style).read_eq

/-- Two command lines that differ only in options that concern what is shown ask for the same
command with the same settings. -/
theorem eq_of_withoutPresentation_eq {args' : List Text} {i' : Invocation}
    (h : read env args = .ok i) (h' : read env args' = .ok i')
    (hknown : ∀ words, i.command ≠ .unknown words)
    (hknown' : ∀ words, i'.command ≠ .unknown words)
    (hsame : withoutPresentation args' = withoutPresentation args) :
    i'.command = i.command ∧ i'.settingsPath = i.settingsPath := by
  have hread := read_inStyle h hknown .unasked
  rw [← hsame, read_inStyle h' hknown' .unasked] at hread
  simp only [inStyle, Except.ok.injEq, Invocation.mk.injEq] at hread
  exact ⟨hread.1, hread.2.1⟩

end Invocation

end ClassSchema
