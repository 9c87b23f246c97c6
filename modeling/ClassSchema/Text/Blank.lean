import ClassSchema.Text.Basic

/-!
# White space

Three sets of characters separate things in a schema. This module holds the
widest one, the Unicode property White_Space, which bounds words, lines and
names. The tag lexer skips a smaller set and line ends are a third one; both
are defined where they are used.
-/

namespace ClassSchema.Text

/-- The Unicode property White_Space. -/
def isBlank (c : Char) : Bool :=
  let n := c.toNat
  (0x09 ≤ n && n ≤ 0x0D) || n == 0x20 || n == 0x85 || n == 0xA0 || n == 0x1680 ||
    (0x2000 ≤ n && n ≤ 0x200A) || n == 0x2028 || n == 0x2029 || n == 0x202F ||
    n == 0x205F || n == 0x3000

theorem isBlank_eq_false_of_all {t : Text} {c : Char} (h : t.all (!isBlank ·) = true) (hc : c ∈ t) :
    isBlank c = false := by
  simpa using List.all_eq_true.mp h c hc

theorem ne_of_isBlank {c d : Char} (hc : isBlank c = true) (hd : isBlank d = false) : c ≠ d := by
  rintro rfl
  simp [hc] at hd

theorem isBlank_of_mem_replicate {n : Nat} {c : Char} (h : c ∈ List.replicate n ' ') :
    Text.isBlank c = true := by
  rw [List.eq_of_mem_replicate h]
  decide

theorem newline_not_mem_of_forall {t : Text} (h : ∀ c ∈ t, Text.isBlank c = false) :
    '\n' ∉ t := by
  intro hmem
  exact absurd (h _ hmem) (by decide)

/-- The white space in front of the first word. -/
def leadingBlanks (t : Text) : Text := t.takeWhile isBlank

def trimStart (t : Text) : Text := t.dropWhile isBlank

theorem trimStart_blanks_append {b : Text} (hb : ∀ c ∈ b, isBlank c = true) (t : Text) :
    trimStart (b ++ t) = trimStart t :=
  List.dropWhile_append_of_pos hb

def trimEnd (t : Text) : Text := dropEndWhile isBlank t

/-- Trimming a text reaches its first part only if the second one is blank. -/
theorem trimEnd_append (s t : Text) :
    trimEnd (s ++ t) = if trimEnd t = [] then trimEnd s else s ++ trimEnd t := by
  simp only [trimEnd, Text.dropEndWhile, List.reverse_append, List.dropWhile_append,
    List.isEmpty_iff, List.reverse_eq_nil_iff]
  split
  · rfl
  · rw [List.reverse_append, List.reverse_reverse]

def trim (t : Text) : Text := trimEnd (trimStart t)

theorem trim_blanks_append {b : Text} (hb : ∀ c ∈ b, isBlank c = true) (t : Text) :
    trim (b ++ t) = trim t := by
  rw [trim, trimStart_blanks_append hb, trim]

/-- Whether nothing is left after trimming. -/
def isAllBlank (t : Text) : Bool := t.all isBlank

def withoutBlanks (t : Text) : Text := t.filter (!isBlank ·)

/-- A part of a text without white space has none. -/
theorem withoutBlanks_of_part {s t : Text} (h : s <:+: withoutBlanks t) : withoutBlanks s = s :=
  List.filter_eq_self.mpr fun _ hc => (List.mem_filter.mp (h.subset hc)).2

/-- The words that stand between white space. -/
def words (t : Text) : List Text := (t.splitOnP isBlank).filter (!·.isEmpty)

theorem words_cons_of_isBlank {c : Char} (hc : isBlank c = true) (t : Text) :
    words (c :: t) = words t := by
  rw [words, List.splitOnP_cons_eq_if_modifyHead, if_pos hc]
  rfl

theorem words_blanks_append {b : Text} (hb : ∀ c ∈ b, isBlank c = true) (t : Text) :
    words (b ++ t) = words t := by
  induction b with
  | nil => rfl
  | cons c b ih =>
    obtain ⟨hc, hb⟩ := List.forall_mem_cons.mp hb
    rw [List.cons_append, words_cons_of_isBlank hc, ih hb]

/-- A word is cut off where white space follows. -/
theorem words_word_append {w t : Text} (hne : w ≠ []) (hw : ∀ c ∈ w, isBlank c = false)
    (ht : ∀ c ∈ t.head?, isBlank c = true) : words (w ++ t) = w :: words t := by
  cases t with
  | nil => simp [words, List.splitOnP_eq_singleton hw, List.splitOnP_nil, hne]
  | cons c t =>
    have hc := ht c rfl
    rw [words_cons_of_isBlank hc, words, List.splitOnP_append_cons_of_forall_mem hw c hc, words]
    simp [hne]

/-- A word at the head of a text, together with what surrounds it. -/
structure LeadingWord where
  /-- White space in front of the word. -/
  gap : Text
  word : Text
  rest : Text
deriving DecidableEq, Repr

/-- Cuts off the first word, if there is one. -/
def nextWord? (t : Text) : Option LeadingWord :=
  let body := trimStart t
  let word := body.takeWhile (!isBlank ·)
  if word.isEmpty then none else some ⟨leadingBlanks t, word, body.dropWhile (!isBlank ·)⟩

theorem nextWord?_blanks_append {b : Text} (hb : ∀ c ∈ b, isBlank c = true) (t : Text) :
    nextWord? (b ++ t) = (nextWord? t).map fun w => ⟨b ++ w.gap, w.word, w.rest⟩ := by
  have hgap : leadingBlanks (b ++ t) = b ++ leadingBlanks t := List.takeWhile_append_of_pos hb
  simp only [nextWord?, trimStart_blanks_append hb, hgap]
  split <;> rfl

end ClassSchema.Text
