/-!
# Text

Text is a list of characters, so that every reader of this library can say
what it consumed and what it left. Positions that are shown to a user count
bytes of the UTF-8 encoding, column widths count characters. A span names a
stretch of a text by the byte offsets of its two ends.
-/

namespace ClassSchema

abbrev Text := List Char

instance : Coe String Text := ⟨String.toList⟩

namespace Text

/-- A text that goes on with a character foreign to `t` ends before it where `t` does. -/
theorem takeWhile_ne_append {t : Text} {c : Char} (h : c ∉ t) (u : Text) :
    (t ++ c :: u).takeWhile (· != c) = t := by
  rw [List.takeWhile_append_of_pos, List.takeWhile_cons_of_neg] <;> simp
  rintro d hd rfl
  exact h hd

theorem dropWhile_ne_append {t : Text} {c : Char} (h : c ∉ t) (u : Text) :
    (t ++ c :: u).dropWhile (· != c) = c :: u := by
  rw [List.dropWhile_append_of_pos, List.dropWhile_cons_of_neg] <;> simp
  rintro d hd rfl
  exact h hd

/-- Words that nothing or a separator follows can be cut off in one way only. -/
theorem word_append_inj {s t v w : Text} {p : Char → Bool} (hv : ∀ c ∈ v, p c = false)
    (hw : ∀ c ∈ w, p c = false) (hs : ∀ c ∈ s.head?, p c = true) (ht : ∀ c ∈ t.head?, p c = true)
    (h : v ++ s = w ++ t) : v = w ∧ s = t := by
  have hcut {v s : Text} (hv : ∀ c ∈ v, p c = false) (hs : ∀ c ∈ s.head?, p c = true) :
      (v ++ s).takeWhile (!p ·) = v := by
    have hstop : s.takeWhile (!p ·) = [] := by
      cases s with
      | nil => rfl
      | cons c s => rw [List.takeWhile_cons_of_neg (by simp [hs c rfl])]
    rw [List.takeWhile_append_of_pos (by simpa using hv), hstop, List.append_nil]
  obtain rfl : v = w := by rw [← hcut hv hs, h, hcut hw ht]
  exact ⟨rfl, List.append_cancel_left h⟩

/-- The same for words behind nothing or a separator. -/
theorem append_word_inj {s t v w : Text} {p : Char → Bool} (hv : ∀ c ∈ v, p c = false)
    (hw : ∀ c ∈ w, p c = false) (hs : ∀ c ∈ s.getLast?, p c = true)
    (ht : ∀ c ∈ t.getLast?, p c = true) (h : s ++ v = t ++ w) : s = t ∧ v = w := by
  have hreverse : v.reverse ++ s.reverse = w.reverse ++ t.reverse := by
    rw [← List.reverse_append, h, List.reverse_append]
  obtain ⟨hwords, hrest⟩ := word_append_inj (by simpa using hv) (by simpa using hw)
    (by simpa using hs) (by simpa using ht) hreverse
  exact ⟨List.reverse_inj.mp hrest, List.reverse_inj.mp hwords⟩

/-- An ending that differs from the end of the front lies behind the front. -/
theorem exists_of_append_eq_concat {s t r : Text} {c : Char} (h : s ++ t = r ++ [c])
    (hs : s.getLast? ≠ some c) : ∃ t', t = t' ++ [c] ∧ r = s ++ t' := by
  rcases List.eq_nil_or_concat t with rfl | ⟨t', d, rfl⟩
  · rw [List.append_nil] at h
    rw [h, List.getLast?_concat] at hs
    exact absurd rfl hs
  · rw [List.concat_eq_append, ← List.append_assoc] at h
    obtain ⟨hfront, hlast⟩ := List.append_inj' h rfl
    obtain rfl := List.singleton_inj.mp hlast
    exact ⟨t', List.concat_eq_append, hfront.symm⟩

theorem singleton_suffix_iff {c : Char} {t : Text} : [c] <:+ t ↔ t.getLast? = some c := by
  rw [List.getLast?_eq_some_iff]
  exact ⟨fun ⟨s, h⟩ => ⟨s, h.symm⟩, fun ⟨s, h⟩ => ⟨s, h.symm⟩⟩

/-- Number of bytes of the UTF-8 encoding. -/
def byteLength (t : Text) : Nat := t.foldr (fun c n => c.utf8Size + n) 0

@[simp] theorem byteLength_nil : byteLength [] = 0 := rfl

@[simp] theorem byteLength_cons (c : Char) (t : Text) :
    byteLength (c :: t) = c.utf8Size + byteLength t := rfl

@[simp] theorem byteLength_append (t u : Text) :
    byteLength (t ++ u) = byteLength t + byteLength u := by
  induction t with
  | nil => simp
  | cons c t ih => simp [ih, Nat.add_assoc]

theorem byteLength_eq_zero_iff {t : Text} : t.byteLength = 0 ↔ t = [] := by
  cases t with
  | nil => simp
  | cons c t =>
    have hpos := c.utf8Size_pos
    simp only [Text.byteLength_cons, reduceCtorEq, iff_false]
    omega

/-- What is left after the first `n` bytes. -/
def dropBytes : Nat → Text → Text
  | 0, t => t
  | _, [] => []
  | n, c :: t => dropBytes (n - c.utf8Size) t

/-- Dropping the bytes of a beginning leaves what stands behind it. -/
theorem dropBytes_append (before t : Text) :
    Text.dropBytes before.byteLength (before ++ t) = t := by
  induction before with
  | nil => cases t <;> rfl
  | cons c before ih =>
    have hpos := c.utf8Size_pos
    have hcons : Text.byteLength (c :: before) =
        c.utf8Size - 1 + Text.byteLength before + 1 := by
      rw [Text.byteLength_cons]
      omega
    rw [hcons, List.cons_append, Text.dropBytes]
    · have hrest : c.utf8Size - 1 + Text.byteLength before + 1 - c.utf8Size =
          Text.byteLength before := by
        omega
      rw [hrest, ih]
    · intro hzero
      omega

theorem dropBytes_suffix (n : Nat) (t : Text) : Text.dropBytes n t <:+ t := by
  fun_induction Text.dropBytes n t with
  | case1 t => exact List.suffix_rfl
  | case2 n => exact List.suffix_rfl
  | case3 n c t hn ih => exact ih.trans (List.suffix_cons c t)

/-- Fills up with spaces to a width counted in characters. -/
def padRight (width : Nat) (t : Text) : Text :=
  t ++ List.replicate (width - t.length) ' '

theorem newline_not_mem_padRight {t : Text} (h : '\n' ∉ t) (width : Nat) :
    '\n' ∉ Text.padRight width t := by
  simp [Text.padRight, h]

theorem length_padRight {width : Nat} {t : Text} (h : t.length ≤ width) :
    (padRight width t).length = width := by
  rw [padRight, List.length_append, List.length_replicate]
  omega

def maxLength (ts : List Text) : Nat := (ts.map List.length).foldr max 0

theorem length_le_maxLength {ts : List Text} {t : Text} (h : t ∈ ts) : t.length ≤ maxLength ts := by
  induction ts with
  | nil => simp at h
  | cons u ts ih =>
    have hmax : maxLength (u :: ts) = max u.length (maxLength ts) := rfl
    rw [hmax]
    rcases List.mem_cons.mp h with rfl | h
    · exact Nat.le_max_left _ _
    · exact Nat.le_trans (ih h) (Nat.le_max_right _ _)

def ofNat (n : Nat) : Text := Nat.toDigits 10 n

theorem isDigit_of_mem_ofNat {c : Char} {n : Nat} (h : c ∈ ofNat n) : c.isDigit = true :=
  Nat.isDigit_of_mem_toDigits (by decide : 0 < 10) (by decide) h

theorem ofNat_injective : Function.Injective ofNat := by
  intro m n h
  calc
    m = Nat.ofDigitChars 10 (Nat.toDigits 10 m) 0 := Nat.ofDigitChars_ten_toDigits.symm
    _ = Nat.ofDigitChars 10 (Nat.toDigits 10 n) 0 := congrArg (Nat.ofDigitChars 10 · 0) h
    _ = n := Nat.ofDigitChars_ten_toDigits

/-- The texts one after the other, with `separator` between neighbours. -/
def joined (separator : Text) (ts : List Text) : Text := separator.intercalate ts

@[simp] theorem joined_nil (separator : Text) : joined separator [] = [] := rfl

@[simp] theorem joined_singleton (separator t : Text) : joined separator [t] = t := by
  simp [joined]

theorem joined_cons {separator : Text} {ts : List Text} (h : ts ≠ []) (t : Text) :
    joined separator (t :: ts) = t ++ separator ++ joined separator ts := by
  simp [joined, List.intercalate_cons_of_ne_nil h]

theorem joined_cons_eq_flatMap (separator t : Text) (ts : List Text) :
    joined separator (t :: ts) = t ++ ts.flatMap (separator ++ ·) := by
  induction ts generalizing t with
  | nil => simp
  | cons u ts ih => rw [joined_cons (by simp), ih, List.flatMap_cons, List.append_assoc,
      List.append_assoc]

theorem joined_append {separator : Text} {ts us : List Text} (hts : ts ≠ []) (hus : us ≠ []) :
    joined separator (ts ++ us) =
      joined separator ts ++ separator ++ joined separator us := by
  induction ts with
  | nil => exact absurd rfl hts
  | cons t ts ih =>
    by_cases hnil : ts = []
    · subst hnil
      rw [List.singleton_append, joined_cons hus, joined_singleton]
    · rw [List.cons_append, joined_cons (by simp [hnil]), ih hnil, joined_cons hnil]
      simp only [List.append_assoc]

theorem joined_ne_nil {separator : Text} {ts : List Text} (hne : ts ≠ [])
    (h : ∀ t ∈ ts, t ≠ []) : joined separator ts ≠ [] := by
  cases ts with
  | nil => exact absurd rfl hne
  | cons t ts =>
    have ht := h t List.mem_cons_self
    by_cases hts : ts = []
    · subst hts
      simpa using ht
    · simp [joined_cons hts, ht]

theorem infix_joined {t separator : Text} {ts : List Text} (ht : t ∈ ts) :
    t <:+: joined separator ts := by
  induction ts with
  | nil => simp at ht
  | cons u ts ih =>
    by_cases hts : ts = []
    · subst hts
      obtain rfl := List.mem_singleton.mp ht
      simp
    · rw [joined_cons hts]
      rcases List.mem_cons.mp ht with rfl | ht
      · exact ⟨[], separator ++ joined separator ts, by simp⟩
      · exact (ih ht).trans (List.suffix_append _ _).isInfix

theorem mem_joined_of_mem {t separator : Text} {ts : List Text} {c : Char} (ht : t ∈ ts)
    (hc : c ∈ t) : c ∈ joined separator ts :=
  (infix_joined ht).subset hc

/-- A joined text holds characters of its parts and of the separator. -/
theorem mem_joined {separator : Text} {ts : List Text} {c : Char} (hc : c ∈ joined separator ts) :
    (∃ t ∈ ts, c ∈ t) ∨ c ∈ separator := by
  induction ts with
  | nil => simp at hc
  | cons t ts ih =>
    by_cases hts : ts = []
    · subst hts
      exact Or.inl ⟨t, List.mem_cons_self, by simpa using hc⟩
    · rw [joined_cons hts, List.mem_append, List.mem_append] at hc
      rcases hc with (hc | hc) | hc
      · exact Or.inl ⟨t, List.mem_cons_self, hc⟩
      · exact Or.inr hc
      · rcases ih hc with ⟨u, hu, hcu⟩ | hsep
        · exact Or.inl ⟨u, List.mem_cons_of_mem _ hu, hcu⟩
        · exact Or.inr hsep

theorem not_mem_joined {c : Char} {separator : Text} {ts : List Text} (hc : c ∉ separator)
    (h : ∀ t ∈ ts, c ∉ t) : c ∉ joined separator ts := by
  intro hmem
  rcases mem_joined hmem with ⟨t, ht, hct⟩ | hsep
  · exact h t ht hct
  · exact hc hsep

/-- Joined texts with a further separator at the end. -/
theorem joined_append_separator {separator : Text} {ts : List Text} (h : ts ≠ []) :
    joined separator ts ++ separator = ts.flatMap (· ++ separator) := by
  induction ts with
  | nil => exact absurd rfl h
  | cons t ts ih =>
    by_cases hts : ts = []
    · simp [hts]
    · rw [joined_cons hts, List.append_assoc, ih hts, List.flatMap_cons]

/-- Puts a character in front of the first piece of a split text. -/
def consHead (c : Char) : List Text → List Text
  | [] => [[c]]
  | piece :: pieces => (c :: piece) :: pieces

theorem consHead_eq_modifyHead {ts : List Text} (h : ts ≠ []) (c : Char) :
    consHead c ts = ts.modifyHead (c :: ·) := by
  cases ts with
  | nil => exact absurd rfl h
  | cons p ps => rfl

theorem consHead_ne_nil (c : Char) (ts : List Text) : consHead c ts ≠ [] := by
  cases ts <;> simp [consHead]

theorem joined_consHead {separator : Text} {ts : List Text} (h : ts ≠ []) (c : Char) :
    joined separator (consHead c ts) = c :: joined separator ts := by
  cases ts with
  | nil => exact absurd rfl h
  | cons p ps => cases ps <;> simp [joined, consHead, List.intercalate_cons_cons]

/-- The pieces between occurrences of a character; there is always one. -/
def splitOn (separator : Char) : Text → List Text
  | [] => [[]]
  | c :: t =>
    if c = separator then [] :: splitOn separator t
    else consHead c (splitOn separator t)

theorem splitOn_eq (c : Char) (t : Text) : splitOn c t = List.splitOn c t := by
  induction t with
  | nil => simp [splitOn]
  | cons d t ih =>
    rw [splitOn, List.splitOn_cons_eq_if_modifyHead, ih,
      consHead_eq_modifyHead (List.splitOn_ne_nil c t)]
    simp

theorem splitOn_ne_nil (c : Char) (t : Text) : splitOn c t ≠ [] := by
  rw [splitOn_eq]
  exact List.splitOn_ne_nil c t

/-- Joining gives back what was split. -/
theorem joined_splitOn (c : Char) (t : Text) : joined [c] (splitOn c t) = t := by
  rw [splitOn_eq, joined, List.intercalate_splitOn]

/-- Splitting gives back what was joined, when no piece has the separator. -/
theorem splitOn_joined {c : Char} {ts : List Text} (hne : ts ≠ []) (h : ∀ t ∈ ts, c ∉ t) :
    splitOn c (joined [c] ts) = ts := by
  rw [splitOn_eq, joined, List.splitOn_intercalate c h hne]

theorem splitOn_of_not_mem {t : Text} {c : Char} (h : c ∉ t) : splitOn c t = [t] := by
  have hsplit := splitOn_joined (List.cons_ne_nil t []) (by simpa using h)
  rwa [joined_singleton] at hsplit

theorem splitOn_append_cons (c : Char) (t u : Text) :
    splitOn c (t ++ c :: u) = splitOn c t ++ splitOn c u := by
  induction t with
  | nil => simp [splitOn]
  | cons d t ih =>
    rw [List.cons_append, splitOn, splitOn, ih]
    split
    · rfl
    · cases hsplit : splitOn c t with
      | nil => exact absurd hsplit (splitOn_ne_nil c t)
      | cons piece pieces => rfl

theorem length_splitOn (c : Char) (t : Text) : (splitOn c t).length = t.count c + 1 := by
  induction t with
  | nil => rfl
  | cons d t ih =>
    rw [splitOn]
    split
    · next h =>
      rw [List.length_cons, ih, h, List.count_cons_self]
    · next h =>
      rw [consHead_eq_modifyHead (splitOn_ne_nil c t), List.length_modifyHead, ih,
        List.count_cons_of_ne h]

/-- The pieces hold characters of the text, other than the separator. -/
theorem mem_of_mem_splitOn {c d : Char} {t piece : Text} (hp : piece ∈ splitOn c t)
    (hd : d ∈ piece) : d ∈ t ∧ d ≠ c := by
  induction t generalizing piece with
  | nil =>
    rw [splitOn, List.mem_singleton] at hp
    subst hp
    simp at hd
  | cons e t ih =>
    rw [splitOn] at hp
    split at hp
    · rcases List.mem_cons.mp hp with rfl | hp
      · simp at hd
      · exact ⟨List.mem_cons_of_mem _ (ih hp hd).1, (ih hp hd).2⟩
    · next he =>
      cases hsplit : splitOn c t with
      | nil => exact absurd hsplit (splitOn_ne_nil c t)
      | cons q qs =>
        rw [hsplit] at hp ih
        rcases List.mem_cons.mp hp with rfl | hp
        · rcases List.mem_cons.mp hd with rfl | hd
          · exact ⟨List.mem_cons_self, he⟩
          · have hq := ih List.mem_cons_self hd
            exact ⟨List.mem_cons_of_mem _ hq.1, hq.2⟩
        · have hq := ih (List.mem_cons_of_mem _ hp) hd
          exact ⟨List.mem_cons_of_mem _ hq.1, hq.2⟩

def withoutEnding? (ending t : Text) : Option Text :=
  if ending.isSuffixOf t then some (t.take (t.length - ending.length)) else none

theorem withoutEnding?_eq_some_iff {ending s t : Text} :
    withoutEnding? ending t = some s ↔ t = s ++ ending := by
  unfold withoutEnding?
  split
  · next h =>
    obtain ⟨front, rfl⟩ := List.isSuffixOf_iff_suffix.mp h
    simp [eq_comm]
  · next h =>
    constructor
    · intro h
      simp at h
    · rintro rfl
      exact absurd (List.isSuffixOf_iff_suffix.mpr (List.suffix_append s ending)) h

theorem withoutEnding?_eq_none_iff {ending t : Text} :
    withoutEnding? ending t = none ↔ ¬ ending <:+ t := by
  rw [← List.isSuffixOf_iff_suffix]
  unfold withoutEnding?
  split <;> simp [*]

@[simp] theorem withoutEnding?_append (t ending : Text) :
    withoutEnding? ending (t ++ ending) = some t :=
  withoutEnding?_eq_some_iff.mpr rfl

def withoutStart? : Text → Text → Option Text
  | [], t => some t
  | _ :: _, [] => none
  | s :: start, c :: t => if s = c then withoutStart? start t else none

theorem withoutStart?_eq_some_iff {s t : Text} {start : Text} :
    withoutStart? start t = some s ↔ t = start ++ s := by
  fun_induction withoutStart? start t with
  | case1 t => simp
  | case2 c start => simp
  | case3 c start t ih => simp [ih]
  | case4 c start d t hne => simp [Ne.symm hne]

theorem withoutStart?_eq_none_iff {start t : Text} :
    withoutStart? start t = none ↔ ¬ start <+: t := by
  fun_induction withoutStart? start t with
  | case1 t => simp
  | case2 c start => simp
  | case3 c start t ih => simp [ih, List.cons_prefix_cons]
  | case4 c start d t hne => simp [hne, List.cons_prefix_cons]

@[simp] theorem withoutStart?_append (start t : Text) :
    withoutStart? start (start ++ t) = some t :=
  withoutStart?_eq_some_iff.mpr rfl

/-- Drops the longest ending whose characters all satisfy `p`. -/
def dropEndWhile (p : Char → Bool) (t : Text) : Text := (t.reverse.dropWhile p).reverse

/-- The order of the UTF-8 encodings, which is the order by code points. -/
def order (t u : Text) : Ordering := compareOfLessAndEq t u

theorem lt_iff_not_lt_and_ne (t u : Text) : t < u ↔ ¬ u < t ∧ t ≠ u := by
  constructor
  · intro h
    refine ⟨List.lt_asymm h, ?_⟩
    rintro rfl
    exact List.lt_irrefl t h
  · rintro ⟨hle, hne⟩
    exact (List.le_iff_lt_or_eq.mp (List.not_lt.mp hle)).resolve_right hne

instance : Std.TransCmp order :=
  Std.TransOrd.compareOfLessAndEq_of_lt_trans_of_lt_iff List.lt_trans lt_iff_not_lt_and_ne

instance : Std.LawfulEqCmp order where
  compare_self := Std.ReflCmp.compare_self
  eq_of_compare := by
    intro t u h
    unfold order compareOfLessAndEq at h
    split at h
    · cases h
    · split at h
      · assumption
      · cases h

/-- ASCII letters in lower case, all other characters unchanged. -/
def asciiLower (t : Text) : Text := t.map Char.toLower

end Text

structure Span where
  /-- Offset of the first byte. -/
  start : Nat
  /-- Offset behind the last byte. -/
  stop : Nat
deriving DecidableEq, Repr

namespace Span

/-- The span of a text that begins at an offset. -/
def ofText (start : Nat) (t : Text) : Span := ⟨start, start + t.byteLength⟩

/-- Moves a span to the right. -/
def shifted (s : Span) (offset : Nat) : Span := ⟨s.start + offset, s.stop + offset⟩

theorem shifted_ofText (start n : Nat) (t : Text) :
    (ofText start t).shifted n = ofText (start + n) t := by
  simp only [ofText, shifted, mk.injEq, true_and]
  omega

/-- Number of bytes; zero for a span whose ends are out of order. -/
def length (s : Span) : Nat := s.stop - s.start

def isEmpty (s : Span) : Bool := s.length == 0

/-- The form shown in messages: `start..stop`. -/
def render (s : Span) : Text := Text.ofNat s.start ++ ".." ++ Text.ofNat s.stop

@[simp] theorem shifted_zero (s : Span) : s.shifted 0 = s := rfl

@[simp] theorem shifted_shifted (s : Span) (m n : Nat) :
    (s.shifted m).shifted n = s.shifted (m + n) := by
  simp [shifted, Nat.add_assoc]

@[simp] theorem length_shifted (s : Span) (n : Nat) : (s.shifted n).length = s.length := by
  simp only [length, shifted]; omega

end Span

end ClassSchema
