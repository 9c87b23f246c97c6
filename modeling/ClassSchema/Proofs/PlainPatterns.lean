import ClassSchema.File.Search
import ClassSchema.Proofs.TypeNotation

/-!
# Patterns of plain text

Text without wildcards is read as the characters it has, and matches itself alone. So the
pattern that looks for an extension below a plain path is read as steps along the segments
of the path, and a last one that goes to any depth and compares the endings of names.
-/

namespace ClassSchema

namespace Pattern

def isWildcard (c : Char) : Bool := c == '*' || c == '?' || c == '['

def plain (t : Text) : Pattern := t.map .char

variable {t u : Text} {parts : Pattern}

/-- Plain text in front of a pattern is read character by character. -/
theorem readFrom_plain_append (hu : ∀ c ∈ u, isWildcard c = false) {fuel position : ℕ}
    {before : Option Char}
    (h : readFrom fuel (position + u.length) (u.getLast?.or before) t = .ok parts) :
    readFrom (u.length + fuel) position before (u ++ t) = .ok (plain u ++ parts) := by
  induction u generalizing position before with
  | nil => simpa [plain] using h
  | cons c u ih =>
    obtain ⟨hc, hu⟩ := List.forall_mem_cons.mp hu
    have hwild : c ≠ '*' ∧ c ≠ '?' ∧ c ≠ '[' := by simpa [isWildcard, and_assoc] using hc
    have hrest : readFrom (u.length + fuel) (position + 1) (some c) (u ++ t) =
        .ok (plain u ++ parts) := by
      refine ih hu ?_
      rw [← h]
      congr 1
      · simp [Nat.add_comm, Nat.add_left_comm]
      · rw [List.getLast?_cons]
        cases u.getLast? <;> simp
    have hfuel : (c :: u).length + fuel = u.length + fuel + 1 := by simp; omega
    rw [hfuel, List.cons_append, readFrom, if_neg hwild.2.1, if_neg hwild.1, if_neg hwild.2.2]
    exact bind_eq_ok_iff.mpr ⟨_, hrest, rfl⟩

theorem readFrom_plain (hu : ∀ c ∈ u, isWildcard c = false) (fuel position : ℕ)
    (before : Option Char) : readFrom (u.length + fuel) position before u = .ok (plain u) := by
  have hend : readFrom fuel (position + u.length) (u.getLast?.or before) [] = .ok [] :=
    readFrom_nil ..
  simpa using readFrom_plain_append hu hend

theorem read_plain (hu : ∀ c ∈ u, isWildcard c = false) : read u = .ok (plain u) :=
  readFrom_plain hu 0 0 none

theorem readFrom_star (hu : ∀ c ∈ u, isWildcard c = false) (fuel position : ℕ)
    (before : Option Char) :
    readFrom (u.length + fuel + 1) position before ('*' :: u) = .ok (.anyText :: plain u) := by
  have hdrop : u.dropWhile (· = '*') = u := by
    cases u with
    | nil => rfl
    | cons c u =>
      have hc := (List.forall_mem_cons.mp hu).1
      have hstar : c ≠ '*' := by
        rintro rfl
        cases hc
      simp [hstar]
  rw [readFrom, if_neg (by decide), if_pos rfl]
  simp only [hdrop, Nat.sub_self]
  exact bind_eq_ok_iff.mpr ⟨_, readFrom_plain hu fuel _ _, rfl⟩

theorem read_star (hu : ∀ c ∈ u, isWildcard c = false) :
    read ('*' :: u) = .ok (.anyText :: plain u) :=
  readFrom_star hu 0 0 none

theorem readFrom_depth {fuel position : ℕ}
    (h : readFrom fuel (position + 3) (some '/') t = .ok parts) :
    readFrom (fuel + 1) position (some '/') ('*' :: '*' :: '/' :: t) =
      .ok (.anyDepth :: parts) := by
  have hdrop : ('*' :: '/' :: t).dropWhile (· = '*') = '/' :: t := by simp
  have hone : ('*' :: '/' :: t).length - ('/' :: t).length = 1 := by simp
  have hcut : cutDepth position (some '/') ('/' :: t) = .ok t := rfl
  rw [readFrom, if_neg (by decide), if_pos rfl]
  simp only [hdrop, hone]
  have hwidth : t.length < ('/' :: t).length := by simp
  refine bind_eq_ok_iff.mpr ⟨t, hcut, ?_⟩
  rw [if_pos hwidth]
  exact bind_eq_ok_iff.mpr ⟨parts, h, rfl⟩

/-- A plain path with any depth behind it and names with a plain ending. -/
theorem exists_read_search (ht : ∀ c ∈ t, isWildcard c = false)
    (hu : ∀ c ∈ u, isWildcard c = false) :
    ∃ parts, read (t ++ '/' :: '*' :: '*' :: '/' :: '*' :: u) = .ok parts := by
  have hslash : ∀ c ∈ t ++ ['/'], isWildcard c = false :=
    List.forall_mem_append.mpr ⟨ht, List.forall_mem_singleton.mpr (by decide)⟩
  have hbehind : readFrom (u.length + 4) (0 + (t ++ ['/']).length) (some '/')
      ('*' :: '*' :: '/' :: '*' :: u) = .ok (.anyDepth :: .anyText :: plain u) :=
    readFrom_depth (readFrom_star hu 2 _ _)
  have htext : t ++ '/' :: '*' :: '*' :: '/' :: '*' :: u =
      (t ++ ['/']) ++ '*' :: '*' :: '/' :: '*' :: u := by
    simp
  have hlength : (t ++ '/' :: '*' :: '*' :: '/' :: '*' :: u).length =
      (t ++ ['/']).length + (u.length + 4) := by
    simp
    omega
  rw [read, hlength, htext]
  exact ⟨_, readFrom_plain_append hslash (by simpa using hbehind)⟩

theorem literal?_plain (t : Text) : literal? (plain t) = some t := by
  induction t with
  | nil => rfl
  | cons c t ih =>
    change (literal? (plain t)).map (c :: ·) = _
    rw [ih]
    rfl

theorem isAnyDepth_plain (t : Text) : isAnyDepth (plain t) = false := by
  simp [isAnyDepth, plain]

theorem isAnyDepth_star (t : Text) : isAnyDepth (.anyText :: plain t) = false := by
  simp [isAnyDepth, plain]

theorem matchesText_plain : matchesText (plain t) u = true ↔ u = t := by
  induction t generalizing u with
  | nil => cases u <;> simp [plain, matchesText]
  | cons c t ih =>
    change firstAndRest (· == c) (matchesText (plain t)) u = true ↔ _
    cases u with
    | nil => simp [firstAndRest]
    | cons d u => simp [firstAndRest, ih]

theorem matchesText_star : matchesText (.anyText :: plain t) u = true ↔ t <:+ u := by
  change someEnding (matchesText (plain t)) u = true ↔ _
  rw [someEnding_iff]
  simp [matchesText_plain]

end Pattern

namespace Search

open Pattern (isWildcard plain)

variable {t extension : Text} {d : Path}

/-- The steps along plain segments and then to any depth. -/
theorem ofPatterns_plain (segments : List Text) {last : Pattern}
    (hlast : last.isAnyDepth = false) :
    SearchStep.ofPatterns (segments.map plain ++ [[.anyDepth], last]) =
      segments.map .exactly ++ [.anywhere last] := by
  induction segments with
  | nil =>
    have hdepth : Pattern.isAnyDepth [.anyDepth] = true := rfl
    simp [SearchStep.ofPatterns, hdepth, hlast]
  | cons segment segments ih =>
    have hstep : SearchStep.ofPatterns.ofPattern (plain segment) = .exactly segment := by
      rw [SearchStep.ofPatterns.ofPattern, Pattern.literal?_plain]
    obtain ⟨next, more, hmore⟩ :=
      List.exists_cons_of_ne_nil (l := segments.map plain ++ [[.anyDepth], last]) (by simp)
    rw [List.map_cons, List.cons_append, hmore, SearchStep.ofPatterns,
      if_neg (by simp [Pattern.isAnyDepth_plain]), hstep, ← hmore, ih]
    rfl

/-- The pattern that looks for an extension at any depth below a path. -/
def extensionPattern (t extension : Text) : Text := t ++ "/**/*." ++ extension

theorem extensionPattern_eq (t extension : Text) :
    extensionPattern t extension = t ++ '/' :: '*' :: '*' :: '/' :: '*' :: '.' :: extension := by
  simp [extensionPattern]

theorem patternSegments_extensionPattern (t : Text) (hslash : '/' ∉ extension) :
    patternSegments (extensionPattern t extension) =
      Text.splitOn '/' t ++ [['*', '*'], '*' :: '.' :: extension] := by
  have hname : Text.splitOn '/' ('*' :: '.' :: extension) = ['*' :: '.' :: extension] :=
    Text.splitOn_of_not_mem (by simpa using hslash)
  have hdepth : Text.splitOn '/' ('*' :: '*' :: '/' :: '*' :: '.' :: extension) =
      [['*', '*'], '*' :: '.' :: extension] := by
    rw [← hname]
    exact Text.splitOn_append_cons '/' ['*', '*'] _
  unfold patternSegments
  rw [extensionPattern_eq, Text.splitOn_append_cons, hdepth]
  simp

theorem mapM_read_segments (ht : ∀ c ∈ t, isWildcard c = false)
    (hextension : ∀ c ∈ extension, isWildcard c = false) :
    (Text.splitOn '/' t ++ [['*', '*'], '*' :: '.' :: extension]).mapM Pattern.read =
      .ok ((Text.splitOn '/' t).map plain ++
        [[.anyDepth], .anyText :: plain ('.' :: extension)]) := by
  have hdot : ∀ c ∈ '.' :: extension, isWildcard c = false :=
    List.forall_mem_cons.mpr ⟨by decide, hextension⟩
  refine mapM_eq_ok_iff.mpr (List.rel_append ?_ (.cons rfl (.cons (Pattern.read_star hdot) .nil)))
  refine List.forall₂_map_right_iff.mpr (List.forall₂_same.mpr fun segment hsegment => ?_)
  exact Pattern.read_plain fun c hc => ht c (Text.mem_of_mem_splitOn hsegment hc).1

def startOf (d : Path) : Path := if d.isAbsolute then ⟨['/']⟩ else ⟨['.']⟩

/-- The segments of a path behind where the search along it begins. -/
def segmentsOf (d : Path) : List Text := if d.isAbsolute then d.segments.tail else d.segments

def forExtension (d : Path) (extension : Text) : Search where
  base := startOf d
  steps := (segmentsOf d).map .exactly ++ [.anywhere (.anyText :: plain ('.' :: extension))]
  onlyDirectories := false

theorem getLast?_extensionPattern (hslash : '/' ∉ extension) :
    (extensionPattern t extension).getLast? ≠ some '/' := by
  rw [extensionPattern_eq]
  have hlast (front : Text) : (front ++ '.' :: extension).getLast? ≠ some '/' := by
    intro h
    rw [List.getLast?_append_of_ne_nil _ (List.cons_ne_nil _ _)] at h
    have hmem := List.mem_of_getLast? h
    simp [hslash] at hmem
  simpa using hlast (t ++ ['/', '*', '*', '/', '*'])

theorem ofPattern_extensionPattern (hne : d.text ≠ []) (hd : ∀ c ∈ d.text, isWildcard c = false)
    (hextension : ∀ c ∈ extension, isWildcard c = false) (hslash : '/' ∉ extension) :
    ofPattern (extensionPattern d.text extension) = .ok (forExtension d extension) := by
  have hdot : ∀ c ∈ '.' :: extension, isWildcard c = false :=
    List.forall_mem_cons.mpr ⟨by decide, hextension⟩
  obtain ⟨parts, hparts⟩ := Pattern.exists_read_search hd hdot
  rw [← extensionPattern_eq] at hparts
  have hlast : ((extensionPattern d.text extension).getLast? == some '/') = false :=
    beq_false_of_ne (getLast?_extensionPattern hslash)
  unfold ofPattern
  refine bind_eq_ok_iff.mpr ⟨(), by rw [hparts]; rfl, ?_⟩
  rw [hlast]
  -- Only the beginning of the pattern decides whether the path is absolute.
  obtain ⟨text⟩ := d
  cases text with
  | nil => exact absurd rfl hne
  | cons c r =>
    by_cases hc : c = '/'
    · subst hc
      have hread := mapM_read_segments (List.forall_mem_cons.mp hd).2 hextension
      rw [← patternSegments_extensionPattern r hslash] at hread
      refine bind_eq_ok_iff.mpr ⟨_, hread, ?_⟩
      rw [ofPatterns_plain _ (Pattern.isAnyDepth_star _)]
      rfl
    · have habsolute : Path.isAbsolute ⟨c :: r⟩ = false := by simp [Path.isAbsolute, hc]
      have hread := mapM_read_segments hd hextension
      rw [← patternSegments_extensionPattern _ hslash] at hread
      split
      next base rest hstart =>
      split at hstart
      · next _ hpattern =>
        rw [extensionPattern_eq] at hpattern
        cases hpattern
        exact absurd rfl hc
      · cases hstart
        refine bind_eq_ok_iff.mpr ⟨_, hread, ?_⟩
        rw [ofPatterns_plain _ (Pattern.isAnyDepth_star _), forExtension, startOf, segmentsOf,
          habsolute]
        rfl

end Search

end ClassSchema
