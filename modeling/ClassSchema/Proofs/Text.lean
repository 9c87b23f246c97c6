import ClassSchema.Text.Blank
import Mathlib.Data.List.DropRight
import Mathlib.Data.List.TakeWhile
import Mathlib.Tactic

/-!
# Facts about texts

Words and the white space around them: the first word of a text and what is left
behind it, texts that end in a word, and what trimming takes off.
-/

namespace ClassSchema.Text

variable {s t u : Text}

theorem count_joined (c : Char) (separator : Text) (ts : List Text) :
    (joined separator ts).count c =
      (ts.map (List.count c)).sum + (ts.length - 1) * separator.count c := by
  induction ts with
  | nil => simp
  | cons t ts ih =>
    by_cases hts : ts = []
    · simp [hts]
    · have hlength : (t :: ts).length - 1 = (ts.length - 1) + 1 := by
        have := List.length_pos_iff.mpr hts
        rw [List.length_cons]
        omega
      rw [joined_cons hts, List.count_append, List.count_append, ih, hlength, List.map_cons,
        List.sum_cons]
      ring

def StartsBlank (t : Text) : Prop := ∀ c ∈ t.head?, isBlank c = true

@[simp] theorem startsBlank_nil : StartsBlank [] := by simp [StartsBlank]

/-- The first word stands between white space. -/
theorem nextWord?_eq_some_iff {w : LeadingWord} :
    nextWord? t = some w ↔
      t = w.gap ++ w.word ++ w.rest ∧ (∀ c ∈ w.gap, isBlank c = true) ∧ w.word ≠ [] ∧
        (∀ c ∈ w.word, isBlank c = false) ∧ w.rest.StartsBlank := by
  constructor
  · intro h
    simp only [nextWord?, List.isEmpty_iff] at h
    split_ifs at h with hword
    cases h
    refine ⟨?_, fun c hc => ?_, hword, fun c hc => ?_, ?_⟩
    · rw [List.append_assoc, List.takeWhile_append_dropWhile, leadingBlanks, trimStart,
        List.takeWhile_append_dropWhile]
    · exact List.mem_takeWhile_imp hc
    · simpa using List.mem_takeWhile_imp hc
    · intro c hc
      have hhead := List.head?_dropWhile_not (!isBlank ·) (trimStart t)
      rw [Option.mem_def.mp hc] at hhead
      simpa using hhead
  · obtain ⟨gap, word, rest⟩ := w
    rintro ⟨rfl, hgap, hne, hword, hrest⟩
    obtain ⟨c, word, rfl⟩ := List.exists_cons_of_ne_nil hne
    have hc := hword c List.mem_cons_self
    have hleading : leadingBlanks (gap ++ (c :: word) ++ rest) = gap := by
      rw [leadingBlanks, List.append_assoc, List.takeWhile_append_of_pos hgap]
      simp [hc]
    have hbody : trimStart (gap ++ (c :: word) ++ rest) = (c :: word) ++ rest := by
      rw [trimStart, List.append_assoc, List.dropWhile_append_of_pos hgap]
      simp [hc]
    have hblank : ∀ d ∈ c :: word, (!isBlank d) = true := by simpa using hword
    have hstop : rest.takeWhile (!isBlank ·) = [] ∧ rest.dropWhile (!isBlank ·) = rest := by
      cases rest with
      | nil => simp
      | cons d rest => simp [hrest d rfl]
    simp only [nextWord?, hleading, hbody, List.takeWhile_append_of_pos hblank,
      List.dropWhile_append_of_pos hblank, hstop.1, hstop.2]
    simp

theorem startsBlank_append {b : Text} (hb : ∀ c ∈ b, isBlank c = true) (ht : t.StartsBlank) :
    (b ++ t).StartsBlank := by
  cases b with
  | nil => exact ht
  | cons c b =>
    intro d hd
    obtain rfl : c = d := by simpa using hd
    exact hb c List.mem_cons_self

def EndsInWord (t : Text) : Prop := ∃ u c, t = u ++ [c] ∧ isBlank c = false

theorem EndsInWord.append (h : t.EndsInWord) (s : Text) : (s ++ t).EndsInWord := by
  obtain ⟨u, c, rfl, hc⟩ := h
  exact ⟨s ++ u, c, (List.append_assoc s u [c]).symm, hc⟩

theorem EndsInWord.ne_nil (h : t.EndsInWord) : t ≠ [] := by
  obtain ⟨u, c, rfl, -⟩ := h
  simp

theorem endsInWord_of_forall (hne : t ≠ []) (h : ∀ c ∈ t, isBlank c = false) : t.EndsInWord := by
  exact ⟨t.dropLast, t.getLast hne, (List.dropLast_append_getLast hne).symm,
    h _ (List.getLast_mem hne)⟩

theorem endsInWord_trimEnd (h : trimEnd t ≠ []) : (trimEnd t).EndsInWord := by
  refine ⟨_, _, (List.dropLast_append_getLast h).symm, ?_⟩
  exact Bool.eq_false_iff.mpr (List.rdropWhile_last_not isBlank t h)

theorem EndsInWord.isAllBlank (h : t.EndsInWord) : isAllBlank t = false := by
  obtain ⟨u, c, rfl, hc⟩ := h
  simp [Text.isAllBlank, hc]

theorem EndsInWord.dropEndWhile (h : t.EndsInWord) {p : Char → Bool}
    (hp : ∀ c, p c = true → isBlank c = true) : dropEndWhile p t = t := by
  obtain ⟨u, c, rfl, hc⟩ := h
  refine List.rdropWhile_concat_neg p u c fun hpc => ?_
  simp [hp c hpc] at hc

theorem trimEnd_append_blanks {b : Text} (hb : ∀ c ∈ b, isBlank c = true) (t : Text) :
    trimEnd (t ++ b) = trimEnd t := by
  have hnil : trimEnd b = [] := List.rdropWhile_eq_nil_iff.mpr hb
  rw [trimEnd_append, if_pos hnil]

theorem EndsInWord.trimEnd_eq (h : t.EndsInWord) : trimEnd t = t :=
  h.dropEndWhile fun _ => id

theorem EndsInWord.trimEnd_append_blanks {b : Text} (h : t.EndsInWord)
    (hb : ∀ c ∈ b, isBlank c = true) : trimEnd (t ++ b) = t := by
  rw [Text.trimEnd_append_blanks hb, h.trimEnd_eq]

theorem EndsInWord.trimEnd_append (h : t.EndsInWord) (s : Text) :
    trimEnd (t ++ s) = t ++ trimEnd s := by
  rw [Text.trimEnd_append]
  split_ifs with hnil
  · rw [h.trimEnd_eq, hnil, List.append_nil]
  · rfl

theorem EndsInWord.trim_eq (h : t.EndsInWord) (hhead : ∀ c ∈ t.head?, isBlank c = false) :
    trim t = t := by
  have hstart : trimStart t = t := by
    cases t with
    | nil => rfl
    | cons c t => simp [trimStart, hhead c rfl]
  rw [trim, hstart, h.trimEnd_eq]

theorem trimEnd_trimEnd (t : Text) : trimEnd (trimEnd t) = trimEnd t := by
  by_cases h : trimEnd t = []
  · rw [h]
    rfl
  · exact (endsInWord_trimEnd h).trimEnd_eq

theorem exists_eq_trimEnd_append (t : Text) :
    ∃ trail, t = trimEnd t ++ trail ∧ ∀ c ∈ trail, isBlank c = true :=
  ⟨t.rtakeWhile isBlank, (List.rdropWhile_append_rtakeWhile ..).symm,
    fun _ hc => List.mem_rtakeWhile_imp hc⟩

section Blanks

variable {b : Text}

theorem trimStart_eq_nil_iff {t : Text} : trimStart t = [] ↔ ∀ c ∈ t, isBlank c = true :=
  List.dropWhile_eq_nil_iff

theorem trim_append_blanks (hb : ∀ c ∈ b, isBlank c = true) (t : Text) :
    trim (t ++ b) = trim t := by
  by_cases ht : trimStart t = []
  · have hall := List.forall_mem_append.mpr ⟨trimStart_eq_nil_iff.mp ht, hb⟩
    rw [trim, trimStart_eq_nil_iff.mpr hall, trim, ht]
  · have hempty : ¬ (t.dropWhile isBlank).isEmpty = true := fun h => ht (List.isEmpty_iff.mp h)
    have hstart : trimStart (t ++ b) = trimStart t ++ b := by
      rw [trimStart, List.dropWhile_append, if_neg hempty, trimStart]
    rw [trim, hstart, trimEnd_append_blanks hb, trim]

/-- White space around words is taken off, and nothing else. -/
theorem EndsInWord.trim_blanks_around {lead trail : Text} (h : t.EndsInWord)
    (hhead : ∀ c ∈ t.head?, isBlank c = false) (hlead : ∀ c ∈ lead, isBlank c = true)
    (htrail : ∀ c ∈ trail, isBlank c = true) : trim (lead ++ t ++ trail) = t := by
  rw [trim_append_blanks htrail, trim_blanks_append hlead, h.trim_eq hhead]

theorem trim_eq_nil_iff {t : Text} : trim t = [] ↔ ∀ c ∈ t, isBlank c = true := by
  constructor
  · intro h
    have hend : ∀ c ∈ trimStart t, isBlank c = true := List.rdropWhile_eq_nil_iff.mp h
    rw [← List.takeWhile_append_dropWhile (p := isBlank) (l := t)]
    intro c hc
    rcases List.mem_append.mp hc with hc | hc
    · exact List.mem_takeWhile_imp hc
    · exact hend c hc
  · intro h
    exact trim_append_blanks h []

theorem isAllBlank_eq (t : Text) : isAllBlank t = (trim t).isEmpty := by
  rw [Bool.eq_iff_iff, isAllBlank, List.all_eq_true, List.isEmpty_iff, trim_eq_nil_iff]

theorem exists_eq_append_trim (t : Text) :
    ∃ lead trail, t = lead ++ trim t ++ trail ∧ (∀ c ∈ lead, isBlank c = true) ∧
      ∀ c ∈ trail, isBlank c = true := by
  obtain ⟨trail, htrail, hblank⟩ := exists_eq_trimEnd_append (trimStart t)
  refine ⟨leadingBlanks t, trail, ?_, fun _ => List.mem_takeWhile_imp, hblank⟩
  rw [List.append_assoc, trim, ← htrail]
  exact List.takeWhile_append_dropWhile.symm

theorem eq_trim_of_blanks {α : Type} {f : Text → α}
    (hlead : ∀ b t, (∀ c ∈ b, isBlank c = true) → f (b ++ t) = f t)
    (htrail : ∀ b t, (∀ c ∈ b, isBlank c = true) → f (t ++ b) = f t) (t : Text) :
    f t = f (trim t) := by
  obtain ⟨lead, trail, ht, hlead', htrail'⟩ := exists_eq_append_trim t
  calc f t = f (lead ++ trim t ++ trail) := congrArg f ht
    _ = f (lead ++ trim t) := htrail trail _ htrail'
    _ = f (trim t) := hlead lead _ hlead'

theorem nextWord?_eq_none_iff {t : Text} : nextWord? t = none ↔ ∀ c ∈ t, isBlank c = true := by
  rw [← trimStart_eq_nil_iff]
  have hhead := List.head?_dropWhile_not isBlank t
  cases hbody : trimStart t with
  | nil => simp [nextWord?, hbody]
  | cons c body =>
    rw [trimStart] at hbody
    rw [hbody] at hhead
    simp [nextWord?, trimStart, hbody, show isBlank c = false by simpa using hhead]

theorem words_of_nextWord?_eq_none {t : Text} (h : nextWord? t = none) : words t = [] := by
  have hwords := words_blanks_append (nextWord?_eq_none_iff.mp h) []
  rwa [List.append_nil] at hwords

theorem words_of_nextWord?_eq_some {t : Text} {w : LeadingWord} (h : nextWord? t = some w) :
    words t = w.word :: words w.rest := by
  obtain ⟨ht, hgap, hne, hword, hrest⟩ := nextWord?_eq_some_iff.mp h
  rw [ht, List.append_assoc, words_blanks_append hgap, words_word_append hne hword hrest]

theorem startsBlank_append_blanks {t : Text} (ht : t.StartsBlank)
    (hb : ∀ c ∈ b, isBlank c = true) : (t ++ b).StartsBlank := by
  cases t with
  | nil => simpa using startsBlank_append hb startsBlank_nil
  | cons c t => exact ht

theorem nextWord?_append_blanks (hb : ∀ c ∈ b, isBlank c = true) (t : Text) :
    nextWord? (t ++ b) = (nextWord? t).map fun w => ⟨w.gap, w.word, w.rest ++ b⟩ := by
  cases hword : nextWord? t with
  | none =>
    have ht := nextWord?_eq_none_iff.mp hword
    exact nextWord?_eq_none_iff.mpr (List.forall_mem_append.mpr ⟨ht, hb⟩)
  | some w =>
    obtain ⟨ht, hgap, hne, hblank, hrest⟩ := nextWord?_eq_some_iff.mp hword
    refine nextWord?_eq_some_iff.mpr ⟨?_, hgap, hne, hblank, startsBlank_append_blanks hrest hb⟩
    rw [ht, List.append_assoc]

end Blanks

end ClassSchema.Text
