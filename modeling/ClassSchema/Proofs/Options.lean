import ClassSchema.Proofs.Sessions

/-!
# Options that only concern what is shown

Some options of a command line only say how the answer is shown. They can be left out and
exchanged for those of a style. A line and the changed one are read side by side: a word that
is left out changes nothing but the presentation on one side, and any other word changes
both sides alike. A value in a word of its own is looked at when the next option comes, and
that may be a later one on the changed side, so the sides agree up to values that are put off.
-/

namespace ClassSchema

namespace Switch

def presentation : List Switch := [format, verbose, quiet, noColor]

theorem mem_presentation_iff (s : Switch) :
    s ∈ presentation ↔ presentation.any (·.long = s.long) = true := by
  rw [List.any_eq_true]
  constructor
  · intro hs
    exact ⟨s, hs, by simp⟩
  · rintro ⟨s', hs', heq⟩
    rw [← long_injective (of_decide_eq_true heq)]
    exact hs'

end Switch

open Switch (presentation)

def dashed : Text → List Text
  | [] => []
  | letters => ['-' :: letters]

/-- What is left of a word of some kind without the options that only concern what is shown. -/
def Word.kept (w : Text) : Word → List Text
  | .long t => if presentation.any (·.long = t.takeWhile (· != '=')) then [] else [w]
  | .short t => dashed (t.dropWhile (· ∈ presentation.filterMap Switch.short?))
  | .endOfOptions | .other => [w]

/-- A command line without the options that only concern what is shown, from some word on.
A format may stand in a word of its own behind its option and is then left out as well. -/
def withoutPresentationFrom : Bool → List Text → List Text
  | _, [] => []
  | true, _ :: ws => withoutPresentationFrom false ws
  | false, w :: ws =>
    if Word.ofText w = .endOfOptions then w :: ws
    else (Word.ofText w).kept w ++
      withoutPresentationFrom (decide (Word.ofText w = .long Switch.format.long)) ws

/-- A command line without the options that only concern what is shown. -/
def withoutPresentation (args : List Text) : List Text := withoutPresentationFrom false args

-- Behind the two dashes there are no options, and what follows a letter with a value is its value.
example :
    let args : List Text := ["-qcq", "--format", "json", "gen", "-vv", "--strict", "go", "--", "-q"]
    let others : List Text := ["-cq", "gen", "--strict", "go", "--", "-q"]
    withoutPresentation args = others := by
  decide

/-- A way in which things are shown, as options can ask for it. -/
structure Style where
  format : Option Format
  verbosity : ℕ
  quiet : Bool
  /-- One cannot ask for less and for more at once. -/
  exclusive : quiet = true → verbosity = 0

namespace Style

def values (style : Style) : List (Switch × Text) :=
  style.format.toList.map fun f => (.format, f.name)

def flags (style : Style) : List Switch :=
  (if style.quiet then [.quiet] else []) ++ List.replicate style.verbosity .verbose

def options (style : Style) : List Text :=
  (style.format.toList.map fun f => ("--format=" : Text) ++ f.name) ++
    List.replicate style.verbosity ("-v" : Text) ++ if style.quiet then [("-q" : Text)] else []

def unasked : Style := ⟨none, 0, false, by simp⟩

end Style

/-- The same invocation with its answer in a style. -/
def Invocation.inStyle (i : Invocation) (style : Style) : Invocation :=
  { i with
    format := style.format.getD .human
    verbosity := style.verbosity
    quiet := style.quiet }

namespace Level

variable {l l' l₁ : Level} {command : Option CommandName} {switches : List Switch} {s : Switch}
  {attached : Option Text} {t : Text} {skip : Bool} {style : Style}

/-- A level with the value that has been put off, not looked at yet. -/
def taken (l : Level) : Level := { l with values := l.held.toList ++ l.values, held := none }

@[simp] theorem waiting_taken (l : Level) : l.taken.waiting = l.waiting := rfl

theorem taken_of_held (h : l.held = none) : l.taken = l := by
  obtain ⟨values, flags, words, waiting, held⟩ := l
  subst h
  rfl

/-- No option has two values, and each value is one that its option can have. -/
structure Admissible (values : List (Switch × Text)) : Prop where
  accepted : ∀ p ∈ values, p.1.accepts p.2 = true
  nodup : (values.map Prod.fst).Nodup

theorem Admissible.sublist {values more : List (Switch × Text)} (h : Admissible more)
    (hsub : values.Sublist more) : Admissible values where
  accepted p hp := h.accepted p (hsub.subset hp)
  nodup := h.nodup.sublist (hsub.map _)

theorem admissible_cons_iff {value : Text} {values : List (Switch × Text)} :
    Admissible ((s, value) :: values) ↔
      (s.accepts value = true ∧ (values.lookup s).isNone = true) ∧ Admissible values := by
  rw [isNone_lookup_iff]
  constructor
  · intro h
    obtain ⟨haccepts, hvalues⟩ := List.forall_mem_cons.mp h.accepted
    obtain ⟨hnew, hnodup⟩ := List.nodup_cons.mp h.nodup
    exact ⟨⟨haccepts, hnew⟩, ⟨hvalues, hnodup⟩⟩
  · rintro ⟨⟨haccepts, hnew⟩, h⟩
    exact ⟨List.forall_mem_cons.mpr ⟨haccepts, h.accepted⟩, List.nodup_cons.mpr ⟨hnew, h.nodup⟩⟩

theorem admissible_setValue {value : Text} (h : Admissible l.values)
    (hset : l.setValue s value = .ok l₁) :
    Admissible ((s, value) :: l.values) ∧ l₁ = { l with values := (s, value) :: l.values } := by
  unfold setValue at hset
  split_ifs at hset with hnew
  cases hset
  exact ⟨admissible_cons_iff.mpr ⟨hnew, h⟩, rfl⟩

theorem setValue_of_admissible {value : Text} (h : Admissible ((s, value) :: l.values)) :
    l.setValue s value = .ok { l with values := (s, value) :: l.values } :=
  if_pos (admissible_cons_iff.mp h).1

theorem settle_eq_ok_iff (h : Admissible l.values) :
    l.settle = .ok l₁ ↔ l.waiting = none ∧ Admissible l.taken.values ∧ l₁ = l.taken := by
  obtain ⟨values, flags, words, waiting, held⟩ := l
  cases waiting with
  | some s => simp [settle]
  | none =>
    cases held with
    | none => simpa [settle, taken, eq_comm] using fun _ => h
    | some p =>
      constructor
      · intro hsettle
        exact ⟨rfl, admissible_setValue (l := ⟨values, flags, words, none, none⟩) h hsettle⟩
      · rintro ⟨-, htaken, rfl⟩
        exact setValue_of_admissible htaken

/-- What taking an option does once the value that has been put off is taken. -/
def take (command : Option CommandName) (l : Level) (s : Switch) (attached : Option Text) :
    Except Refusal Level :=
  match s.takesValue, attached with
  | true, some value => l.setValue s value
  | true, none => .ok { l with waiting := some s }
  | false, none => l.setFlag command s
  | false, some _ => .error .usage

theorem setOption_eq_ok_iff (h : Admissible l.values) :
    l.setOption command s attached = .ok l₁ ↔
      l.waiting = none ∧ Admissible l.taken.values ∧
        l.taken.take command s attached = .ok l₁ := by
  change (l.settle >>= fun l => l.take command s attached) = .ok l₁ ↔ _
  rw [bind_eq_ok_iff]
  constructor
  · rintro ⟨l₀, hsettle, htake⟩
    obtain ⟨hwaiting, hvalues, rfl⟩ := (settle_eq_ok_iff h).mp hsettle
    exact ⟨hwaiting, hvalues, htake⟩
  · rintro ⟨hwaiting, hvalues, htake⟩
    exact ⟨_, (settle_eq_ok_iff h).mpr ⟨hwaiting, hvalues, rfl⟩, htake⟩

theorem setFlag_eq_ok_iff (command : Option CommandName) :
    l.setFlag command s = .ok l₁ ↔
      s ∉ [Switch.help, Switch.version] ∧ (s = .verbose ∨ s ∉ l.flags) ∧
        l₁ = { l with flags := s :: l.flags } := by
  have hflag : (if s ≠ .verbose ∧ s ∈ l.flags then .error .usage
      else .ok { l with flags := s :: l.flags } : Except Refusal Level) = .ok l₁ ↔
        (s = .verbose ∨ s ∉ l.flags) ∧ l₁ = { l with flags := s :: l.flags } := by
    split_ifs with hrepeated
    · simp [hrepeated]
    · have hnew : s = .verbose ∨ s ∉ l.flags := by tauto
      simp [hnew, eq_comm]
  cases s
  case help => simp [setFlag]
  case version => simp [setFlag]
  all_goals
    exact hflag.trans (and_iff_right (by decide)).symm

/-- An option is taken with its value, to wait for its value, or as a flag. -/
theorem take_eq_ok_iff :
    l.take command s attached = .ok l₁ ↔
      (∃ value, attached = some value ∧ s.takesValue = true ∧ l.setValue s value = .ok l₁) ∨
      (attached = none ∧ s.takesValue = true ∧ l₁ = { l with waiting := some s }) ∨
      (attached = none ∧ s.takesValue = false ∧ s ∉ [Switch.help, Switch.version] ∧
        (s = .verbose ∨ s ∉ l.flags) ∧ l₁ = { l with flags := s :: l.flags }) := by
  rw [← setFlag_eq_ok_iff command]
  unfold take
  cases htakes : s.takesValue <;> cases attached <;> simp [eq_comm]

/-- A level in a style: what concerns what is shown comes from the style alone. -/
def inStyle (l : Level) (style : Style) : Level :=
  { l with
    values := l.values.filter (·.1 ≠ .format) ++ style.values
    flags := l.flags.filter (· ∉ presentation) ++ style.flags
    waiting := l.waiting.filter (· ≠ .format) }

theorem eq_format_of_mem_values {p : Switch × Text} (h : p ∈ style.values) : p.1 = .format := by
  obtain ⟨f, -, rfl⟩ := List.mem_map.mp h
  rfl

theorem mem_presentation_of_mem_flags (h : s ∈ style.flags) : s ∈ presentation := by
  rcases List.mem_append.mp h with h | h
  · split_ifs at h
    · rw [List.mem_singleton.mp h]
      decide
    · cases h
  · rw [List.eq_of_mem_replicate h]
    decide

theorem admissible_values (style : Style) : Admissible style.values := by
  unfold Style.values
  cases style.format with
  | none => exact ⟨by simp, by simp⟩
  | some f => exact ⟨by cases f <;> decide, by simp⟩

theorem Admissible.inStyle {values : List (Switch × Text)} (h : Admissible values)
    (style : Style) : Admissible (values.filter (·.1 ≠ .format) ++ style.values) := by
  have hrest : Admissible (values.filter (·.1 ≠ .format)) := h.sublist List.filter_sublist
  have hstyle := admissible_values style
  refine ⟨?_, ?_⟩
  · intro p hp
    exact (List.mem_append.mp hp).elim (hrest.accepted p) (hstyle.accepted p)
  · rw [List.map_append, List.nodup_append]
    refine ⟨hrest.nodup, hstyle.nodup, ?_⟩
    intro s hs s' hs' heq
    obtain ⟨p, hp, rfl⟩ := List.mem_map.mp hs
    obtain ⟨p', hp', rfl⟩ := List.mem_map.mp hs'
    have hformat : p.1 ≠ .format := by simpa using List.of_mem_filter hp
    exact hformat (heq.trans (eq_format_of_mem_values hp'))

theorem mem_presentation_of_takesValue (h : s.takesValue = true) :
    s ∈ presentation ↔ s = .format := by
  cases s <;> simp_all [presentation, Switch.takesValue]

theorem inStyle_take_of_mem (hs : s ∈ presentation) (h : l.take command s attached = .ok l₁)
    (hvalues : Admissible l.values) (hwaiting : l.waiting = none) (style : Style) :
    l₁.inStyle style = l.inStyle style := by
  rcases take_eq_ok_iff.mp h with ⟨value, -, htakes, hset⟩ | ⟨-, htakes, rfl⟩ | ⟨-, -, -, -, rfl⟩
  · obtain ⟨-, rfl⟩ := admissible_setValue hvalues hset
    simp [inStyle, (mem_presentation_of_takesValue htakes).mp hs]
  · simp [inStyle, (mem_presentation_of_takesValue htakes).mp hs, hwaiting]
  · simp [inStyle, hs]

/-- Any other option does the same in any style. -/
theorem take_inStyle_of_not_mem (hs : s ∉ presentation) (h : l.take command s attached = .ok l₁)
    (hvalues : Admissible l.values) (style : Style) :
    (l.inStyle style).take command s attached = .ok (l₁.inStyle style) := by
  apply take_eq_ok_iff.mpr
  rcases take_eq_ok_iff.mp h with ⟨value, hattached, htakes, hset⟩ | ⟨hattached, htakes, rfl⟩ |
    ⟨hattached, htakes, hrun, hnew, rfl⟩
  · have hformat : s ≠ .format := mt (mem_presentation_of_takesValue htakes).mpr hs
    obtain ⟨hmore, rfl⟩ := admissible_setValue hvalues hset
    have hstyle := hmore.inStyle style
    rw [List.filter_cons_of_pos (by simpa using hformat)] at hstyle
    refine .inl ⟨value, hattached, htakes, ?_⟩
    rw [setValue_of_admissible (l := l.inStyle style) hstyle]
    simp [inStyle, hformat]
  · have hformat : s ≠ .format := mt (mem_presentation_of_takesValue htakes).mpr hs
    exact .inr (.inl ⟨hattached, htakes, by simp [inStyle, hformat]⟩)
  · refine .inr (.inr ⟨hattached, htakes, hrun, ?_, by simp [inStyle, hs]⟩)
    refine hnew.imp_right fun hnot hmem => ?_
    rcases List.mem_append.mp hmem with hmem | hmem
    · exact hnot (List.mem_of_mem_filter hmem)
    · exact hs (mem_presentation_of_mem_flags hmem)

theorem admissible_take (h : l.take command s attached = .ok l₁) (hvalues : Admissible l.values) :
    Admissible l₁.values ∧ l₁.held = l.held ∧
      l₁.waiting = if s.takesValue ∧ attached = none then some s else l.waiting := by
  rcases take_eq_ok_iff.mp h with ⟨value, rfl, htakes, hset⟩ | ⟨rfl, htakes, rfl⟩ |
    ⟨rfl, htakes, -, -, rfl⟩
  · obtain ⟨hmore, rfl⟩ := admissible_setValue hvalues hset
    exact ⟨hmore, rfl, by simp⟩
  · exact ⟨hvalues, rfl, by simp [htakes]⟩
  · exact ⟨hvalues, rfl, by simp [htakes]⟩

/-- A level and the one of the line without the options that only concern what is shown.
The flag says that the next word is a format. -/
structure Agrees (style : Style) (skip : Bool) (l l' : Level) : Prop where
  taken_eq : l'.taken = l.taken.inStyle style
  skip_iff : skip = true ↔ l.waiting = some .format
  admissible : Admissible l.values
  held_eq : l.waiting ≠ none → l.held = none
  held_eq' : l'.waiting ≠ none → l'.held = none

namespace Agrees

theorem empty (style : Style) : Agrees style false {} (inStyle {} style) := by
  refine ⟨rfl, by simp, ⟨by simp, by simp⟩, by simp, ?_⟩
  intro _
  rfl

theorem words_eq (h : Agrees style skip l l') : l'.words = l.words := by
  have hwords : l'.taken.words = (l.taken.inStyle style).words := by rw [h.taken_eq]
  exact hwords

theorem waiting_eq (h : Agrees style skip l l') : l'.waiting = l.waiting.filter (· ≠ .format) := by
  have hwaiting : l'.taken.waiting = (l.taken.inStyle style).waiting := by rw [h.taken_eq]
  exact hwaiting

theorem waiting_eq_of_false (h : Agrees style false l l') : l'.waiting = l.waiting := by
  rw [h.waiting_eq]
  cases hwaiting : l.waiting with
  | none => rfl
  | some s =>
    have hformat : s ≠ .format := by
      rintro rfl
      cases h.skip_iff.mpr hwaiting
    simp [hformat]

theorem setOption_of_mem (h : Agrees style false l l') (hs : s ∈ presentation)
    (hok : l.setOption command s attached = .ok l₁) :
    Agrees style (decide (s = .format ∧ attached = none)) l₁ l' := by
  obtain ⟨hwaiting, hvalues, htake⟩ := (setOption_eq_ok_iff h.admissible).mp hok
  obtain ⟨hvalues₁, hheld, hwaiting₁⟩ := admissible_take htake hvalues
  refine ⟨?_, ?_, hvalues₁, fun _ => hheld, h.held_eq'⟩
  · rw [h.taken_eq, taken_of_held hheld, inStyle_take_of_mem hs htake hvalues hwaiting]
  · rw [hwaiting₁, waiting_taken, hwaiting, decide_eq_true_iff]
    cases s <;> simp_all [presentation, Switch.takesValue]

/-- Any other option is taken on both sides. -/
theorem setOption_of_not_mem (h : Agrees style false l l') (hs : s ∉ presentation)
    (hok : l.setOption command s attached = .ok l₁) :
    ∃ l₁', l'.setOption command s attached = .ok l₁' ∧ Agrees style false l₁ l₁' := by
  obtain ⟨hwaiting, hvalues, htake⟩ := (setOption_eq_ok_iff h.admissible).mp hok
  obtain ⟨hvalues₁, hheld, hwaiting₁⟩ := admissible_take htake hvalues
  have hvalues' : Admissible l'.taken.values := by
    rw [h.taken_eq]
    exact hvalues.inStyle style
  have htake' := take_inStyle_of_not_mem hs htake hvalues style
  rw [← h.taken_eq] at htake'
  have hheld₁ : (l₁.inStyle style).held = none := hheld
  refine ⟨(l₁.inStyle style), ?_, ?_⟩
  · refine (setOption_eq_ok_iff (hvalues'.sublist (List.sublist_append_right _ _))).mpr ?_
    exact ⟨h.waiting_eq_of_false.trans hwaiting, hvalues', htake'⟩
  · refine ⟨?_, ?_, hvalues₁, fun _ => hheld, fun _ => hheld₁⟩
    · rw [taken_of_held hheld, taken_of_held hheld₁]
    · have hformat : s ≠ .format := by
        rintro rfl
        exact hs (by decide)
      rw [hwaiting₁, waiting_taken, hwaiting]
      split_ifs <;> simp [hformat]

end Agrees

theorem mem_letters_iff {c : Char} (h : s.short? = some c) :
    c ∈ presentation.filterMap Switch.short? ↔ s ∈ presentation := by
  cases s <;> simp only [Switch.short?, Option.some.injEq, reduceCtorEq] at h <;> subst h <;> decide

theorem mem_of_letter {c : Char} (h : s.short? = some c) (htakes : s.takesValue = false)
    (hs : s ∉ presentation) : s ∈ [Switch.help, Switch.version] := by
  cases s <;> simp_all [presentation, Switch.short?, Switch.takesValue]

/-- Of the options in a word behind one dash, those in front that only concern what is
shown have no counterpart, and the next one takes all that follows. -/
theorem Agrees.readShort (h : Agrees style false l l')
    (hok : l.readShort command switches t = .ok l₁) :
    ∃ l₁', l'.readShort command switches
        (t.dropWhile (· ∈ presentation.filterMap Switch.short?)) = .ok l₁' ∧
      Agrees style false l₁ l₁' := by
  induction t generalizing l with
  | nil =>
    cases hok
    exact ⟨l', rfl, h⟩
  | cons c t ih =>
    obtain ⟨s, hshort, hread⟩ := exists_option_of_readShort hok
    have hletter := mem_letters_iff hshort
    have hformat : s ≠ .format := by
      rintro rfl
      cases hshort
    by_cases hs : s ∈ presentation
    · rw [List.dropWhile_cons_of_pos (by simpa using hletter.mpr hs)]
      rcases hread with ⟨htakes, -⟩ | ⟨-, hread⟩
      · exact absurd ((mem_presentation_of_takesValue htakes).mp hs) hformat
      · rw [hread] at hok
        obtain ⟨l₂, hset, hrest⟩ := bind_eq_ok_iff.mp hok
        have h₂ := h.setOption_of_mem hs hset
        simp only [hformat, false_and, decide_false] at h₂
        exact ih h₂ hrest
    · rw [List.dropWhile_cons_of_neg (by simpa using mt hletter.mp hs)]
      rcases hread with ⟨-, attached, hread⟩ | ⟨htakes, hread⟩
      · rw [hread] at hok ⊢
        exact h.setOption_of_not_mem hs hok
      · -- The letters that are left ask for help or for the version.
        rw [hread] at hok
        obtain ⟨l₂, hset, -⟩ := bind_eq_ok_iff.mp hok
        obtain ⟨-, -, htake⟩ := (setOption_eq_ok_iff h.admissible).mp hset
        rcases take_eq_ok_iff.mp htake with ⟨value, hvalue, -⟩ | ⟨-, hvalue, -⟩ | ⟨-, -, hrun, -⟩
        · cases hvalue
        · rw [htakes] at hvalue
          cases hvalue
        · exact absurd (mem_of_letter hshort htakes hs) hrun

/-- Reads a word with options. -/
def readWord (command : Option CommandName) (switches : List Switch) (l : Level) :
    Word → Except Refusal Level
  | .long t => l.readLong command switches t
  | .short t => l.readShort command switches t
  | _ => .ok l

end Level

def Word.isOption : Word → Bool
  | .long _ | .short _ => true
  | _ => false

theorem Word.ofText_eq_short {c : Char} {t : Text} (hc : c ≠ '-') :
    Word.ofText ('-' :: c :: t) = .short (c :: t) := by
  simp [Word.ofText, hc]

theorem Word.isOption_cases {w : Text} (h : (Word.ofText w).isOption = true) :
    (∃ t, Word.ofText w = .long t) ∨ ∃ c t, Word.ofText w = .short (c :: t) := by
  cases hw : Word.ofText w with
  | long t => exact .inl ⟨t, rfl⟩
  | short t =>
    obtain ⟨c, rest, rfl⟩ := exists_of_ofText_eq_short hw
    exact .inr ⟨c, rest, rfl⟩
  | endOfOptions => simp [hw, isOption] at h
  | other => simp [hw, isOption] at h

namespace Level

variable {l l' l₁ : Level} {command : Option CommandName} {switches : List Switch} {s : Switch}
  {attached : Option Text} {t w : Text} {ws : List Text} {skip : Bool} {style : Style}

theorem Agrees.readWord_ne_ok (h : Agrees style true l l') (hw : (Word.ofText w).isOption = true) :
    l.readWord command switches (Word.ofText w) ≠ .ok l₁ := by
  intro hok
  have hset {s : Switch} {attached : Option Text} {l₁ : Level} :
      l.setOption command s attached ≠ .ok l₁ := by
    intro hset
    have hwaiting := ((setOption_eq_ok_iff h.admissible).mp hset).1
    rw [h.skip_iff.mp rfl] at hwaiting
    cases hwaiting
  rcases Word.isOption_cases hw with ⟨t, ht⟩ | ⟨c, t, ht⟩
  · rw [ht] at hok
    obtain ⟨s, attached, -, -, hread⟩ := exists_option_of_readLong hok
    exact hset ((hread l).symm.trans hok)
  · rw [ht] at hok
    obtain ⟨s, -, ⟨-, attached, hread⟩ | ⟨-, hread⟩⟩ := exists_option_of_readShort hok
    · exact hset ((hread l).symm.trans hok)
    · obtain ⟨_, hok, -⟩ := bind_eq_ok_iff.mp ((hread l).symm.trans hok)
      exact hset hok

theorem eq_long_format_iff (hlong : s.long = t.takeWhile (· != '='))
    (hattached : attached = none ↔ t.dropWhile (· != '=') = []) :
    t = Switch.format.long ↔ s = .format ∧ attached = none := by
  constructor
  · rintro rfl
    exact ⟨Switch.long_injective (hlong.trans (by decide)), hattached.mpr (by decide)⟩
  · rintro ⟨rfl, hnone⟩
    calc t = t.takeWhile (· != '=') ++ t.dropWhile (· != '=') :=
          List.takeWhile_append_dropWhile.symm
      _ = Switch.format.long := by rw [← hlong, hattached.mp hnone, List.append_nil]

theorem withoutPresentationFrom_endOfOptions (h : Word.ofText w = .endOfOptions)
    (ws : List Text) : withoutPresentationFrom false (w :: ws) = w :: ws :=
  if_pos h

theorem withoutPresentationFrom_of_ne (h : Word.ofText w ≠ .endOfOptions) (ws : List Text) :
    withoutPresentationFrom false (w :: ws) = (Word.ofText w).kept w ++
      withoutPresentationFrom (decide (Word.ofText w = .long Switch.format.long)) ws :=
  if_neg h

theorem withoutPresentationFrom_other (h : Word.ofText w = .other) (ws : List Text) :
    withoutPresentationFrom false (w :: ws) = w :: withoutPresentationFrom false ws := by
  rw [withoutPresentationFrom_of_ne (by simp [h]), h]
  rfl

/-- A word with options has no counterpart, or one that does the same. -/
theorem Agrees.readWord (h : Agrees style false l l') (hw : (Word.ofText w).isOption = true)
    (hok : l.readWord command switches (Word.ofText w) = .ok l₁) :
    (∃ skip, (∀ ws, withoutPresentationFrom false (w :: ws) = withoutPresentationFrom skip ws) ∧
      Agrees style skip l₁ l') ∨
    ∃ w' l₁', (∀ ws, withoutPresentationFrom false (w :: ws) =
        w' :: withoutPresentationFrom false ws) ∧
      (Word.ofText w').isOption = true ∧
      l'.readWord command switches (Word.ofText w') = .ok l₁' ∧ Agrees style false l₁ l₁' := by
  rcases Word.isOption_cases hw with ⟨t, ht⟩ | ⟨c, t, ht⟩
  · rw [ht] at hok
    obtain ⟨s, attached, hlong, hattached, hread⟩ := exists_option_of_readLong hok
    have hset := (hread l).symm.trans hok
    have hformat := eq_long_format_iff hlong hattached
    have hline (ws : List Text) := withoutPresentationFrom_of_ne (w := w) (by simp [ht]) ws
    simp only [ht, Word.kept, ← hlong, Word.long.injEq, hformat] at hline
    by_cases hs : s ∈ presentation
    · refine .inl ⟨_, fun ws => ?_, h.setOption_of_mem hs hset⟩
      rw [hline, if_pos ((Switch.mem_presentation_iff s).mp hs), List.nil_append]
    · right
      obtain ⟨l₁', hset', h₁⟩ := h.setOption_of_not_mem hs hset
      refine ⟨w, l₁', fun ws => ?_, hw, ?_, h₁⟩
      · have hother : ¬(s = .format ∧ attached = none) := by
          rintro ⟨rfl, -⟩
          exact hs (by decide)
        rw [hline, if_neg (mt (Switch.mem_presentation_iff s).mpr hs), decide_eq_false hother]
        rfl
      · rw [ht]
        exact (hread l').trans hset'
  · rw [ht] at hok
    obtain ⟨l₁', hread, h₁⟩ := h.readShort hok
    have hline (ws : List Text) := withoutPresentationFrom_of_ne (w := w) (by simp [ht]) ws
    simp only [ht, Word.kept, reduceCtorEq, decide_false] at hline
    cases hrest : (c :: t).dropWhile (· ∈ presentation.filterMap Switch.short?) with
    | nil =>
      rw [hrest] at hread hline
      cases hread
      exact .inl ⟨false, hline, h₁⟩
    | cons d rest =>
      rw [hrest] at hread hline
      obtain ⟨s, hshort, -⟩ := exists_option_of_readShort hread
      have hword : Word.ofText ('-' :: d :: rest) = .short (d :: rest) := by
        apply Word.ofText_eq_short
        rintro rfl
        cases s <;> cases hshort
      refine .inr ⟨_, l₁', hline, ?_, ?_, h₁⟩
      · rw [hword]
        rfl
      · rw [hword]
        exact hread

theorem Agrees.place_format (h : Agrees style true l l') (w : Text) :
    Agrees style false { l with waiting := none, held := some (.format, w) } l' := by
  have hwaiting := h.skip_iff.mp rfl
  refine ⟨?_, by simp, h.admissible, by simp, h.held_eq'⟩
  rw [h.taken_eq, taken_of_held (h.held_eq (by simp [hwaiting]))]
  simp [taken, inStyle, hwaiting, h.held_eq]

theorem Agrees.place_value (h : Agrees style false l l') (hwaiting : l.waiting = some s)
    (w : Text) :
    Agrees style false { l with waiting := none, held := some (s, w) }
      { l' with waiting := none, held := some (s, w) } := by
  have hformat : s ≠ .format := by
    rintro rfl
    cases h.skip_iff.mpr hwaiting
  have hheld := h.held_eq (by simp [hwaiting])
  have hheld' := h.held_eq' (by simp [h.waiting_eq_of_false, hwaiting])
  have hstyle := h.taken_eq
  rw [taken_of_held hheld, taken_of_held hheld'] at hstyle
  refine ⟨?_, by simp, h.admissible, by simp, by simp⟩
  rw [hstyle]
  simp [taken, inStyle, hformat]

theorem Agrees.add_word (h : Agrees style skip l l') (w : Text) :
    Agrees style skip { l with words := l.words ++ [w] } { l' with words := l'.words ++ [w] } := by
  refine ⟨?_, h.skip_iff, h.admissible, h.held_eq, h.held_eq'⟩
  have htaken : { l' with words := l'.words ++ [w] }.taken =
      { l'.taken with words := l'.words ++ [w] } := rfl
  rw [htaken, h.taken_eq, h.words_eq]
  rfl

end Level

end ClassSchema
