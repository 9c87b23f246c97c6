import ClassSchema.Proofs.Brackets
import ClassSchema.Type.Reader

/-!
# What the bracket counters count

The search for a closing bracket and the cut at commas each carry a counter. Here both
are compared with the surplus of a text, the number of its opening brackets minus that
of its closing ones, which is an integer and knows no scan. Behind every stretch that a
scan has passed its counter is the surplus of that stretch: the search because it ends
where the surplus would become negative, the cut because the texts that it is given are
those in front of a closing bracket that was searched before.
-/

namespace ClassSchema.Brackets

variable {s t : Text} {depth : ℕ}

theorem forall_prefix_cons {p : Text → Prop} {c : Char} :
    (∀ s, s <+: c :: t → p s) ↔ p [] ∧ ∀ s, s <+: t → p (c :: s) := by
  constructor
  · intro h
    exact ⟨h [] List.nil_prefix, fun s hs => h _ (List.cons_prefix_cons.mpr ⟨rfl, hs⟩)⟩
  · rintro ⟨hnil, hcons⟩ s hs
    rcases List.prefix_cons_iff.mp hs with rfl | ⟨u, rfl, hu⟩
    · exact hnil
    · exact hcons u hu

def surplus (t : Text) : ℤ := t.count '[' - t.count ']'

@[simp] theorem surplus_nil : surplus [] = 0 := rfl

@[simp] theorem surplus_append (s t : Text) : surplus (s ++ t) = surplus s + surplus t := by
  simp only [surplus, List.count_append]
  omega

@[simp] theorem surplus_open (t : Text) : surplus ('[' :: t) = surplus t + 1 := by
  simp only [surplus, List.count_cons_self]
  rw [List.count_cons_of_ne (by decide)]
  omega

@[simp] theorem surplus_close (t : Text) : surplus (']' :: t) = surplus t - 1 := by
  simp only [surplus, List.count_cons_self]
  rw [List.count_cons_of_ne (by decide)]
  omega

theorem surplus_other {c : Char} (ho : c ≠ '[') (hc : c ≠ ']') (t : Text) :
    surplus (c :: t) = surplus t := by
  simp only [surplus, List.count_cons_of_ne ho, List.count_cons_of_ne hc]

/-- Brackets are closed as often as they are opened, and in no beginning more often. -/
structure Paired (t : Text) : Prop where
  total : surplus t = 0
  beginnings : ∀ s, s <+: t → 0 ≤ surplus s

/-- With `depth` brackets open, every scan goes past `c` and on with `d` open brackets. -/
structure Passes (depth : ℕ) (c : Char) (d : ℕ) : Prop where
  count : ∀ u, (depth : ℤ) + surplus (c :: u) = d + surplus u
  openAfter : ∀ u, openAfter? depth (c :: u) = openAfter? d u
  cut : ∀ u, cutAt depth (c :: u) = (cutAt d u).map fun p => (c :: p.1, p.2)
  piece : ¬ (c = ',' ∧ depth = 0) → ∀ u, piecesAt depth (c :: u) = Text.consHead c (piecesAt d u)

theorem passes_open (depth : ℕ) : Passes depth '[' (depth + 1) where
  count u := by
    rw [surplus_open]
    omega
  openAfter := openAfter?_open depth
  cut u := by simp [cutAt]
  piece _ u := by simp [piecesAt]

theorem passes_close (d : ℕ) : Passes (d + 1) ']' d where
  count u := by
    rw [surplus_close]
    omega
  openAfter := openAfter?_close d
  cut u := by simp [cutAt]
  piece _ u := by simp [piecesAt]

theorem passes_other {c : Char} (ho : c ≠ '[') (hc : c ≠ ']') (depth : ℕ) :
    Passes depth c depth where
  count u := by rw [surplus_other ho hc]
  openAfter _ := openAfter?_other ho hc
  cut u := by simp [cutAt, ho, hc]
  piece hcomma u := by simp [piecesAt, ho, hc, hcomma]

theorem passes_cases (depth : ℕ) (c : Char) : (c = ']' ∧ depth = 0) ∨ ∃ d, Passes depth c d := by
  by_cases ho : c = '['
  · subst ho
    exact .inr ⟨_, passes_open depth⟩
  by_cases hc : c = ']'
  · subst hc
    cases depth with
    | zero => exact .inl ⟨rfl, rfl⟩
    | succ d => exact .inr ⟨d, passes_close d⟩
  · exact .inr ⟨depth, passes_other ho hc depth⟩

theorem Passes.eq_zero_of_comma {d : ℕ} (h : Passes 0 ',' d) : d = 0 := by
  simpa [openAfter?] using (h.openAfter []).symm

theorem Passes.forall_prefix_iff {c : Char} {d : ℕ} (h : Passes depth c d) :
    (∀ s, s <+: c :: t → 0 ≤ depth + surplus s) ↔ ∀ s, s <+: t → 0 ≤ d + surplus s := by
  have hnil : 0 ≤ depth + surplus [] := by
    rw [surplus_nil]
    omega
  rw [forall_prefix_cons, and_iff_right hnil]
  simp only [h.count]

theorem openAfter?_eq_some_iff {e : ℕ} :
    openAfter? depth t = some e ↔
      depth + surplus t = e ∧ ∀ s, s <+: t → 0 ≤ depth + surplus s := by
  induction t generalizing depth with
  | nil => simp [openAfter?]
  | cons c t ih =>
    rcases passes_cases depth c with ⟨rfl, rfl⟩ | ⟨d, hpass⟩
    · refine iff_of_false (by simp [openAfter?]) fun h => ?_
      -- The closing bracket alone is a beginning with a negative count.
      have hclose := h.2 [']'] ⟨t, rfl⟩
      simp at hclose
    · rw [hpass.openAfter, ih, hpass.forall_prefix_iff, hpass.count]

theorem balanced_iff_paired : Balanced t ↔ Paired t := by
  unfold Balanced
  rw [openAfter?_eq_some_iff]
  simp only [Nat.cast_zero, zero_add]
  exact ⟨fun h => ⟨h.1, h.2⟩, fun h => ⟨h.total, h.beginnings⟩⟩

theorem cutAt_append (h : cutAt depth s = none) :
    ∃ e : ℕ, (e : ℤ) = depth + surplus s ∧
      ∀ t, cutAt depth (s ++ t) = (cutAt e t).map fun p => (s ++ p.1, p.2) := by
  induction s generalizing depth with
  | nil => exact ⟨depth, by simp, by simp⟩
  | cons c s ih =>
    rcases passes_cases depth c with ⟨rfl, rfl⟩ | ⟨d, hpass⟩
    · simp [cutAt] at h
    · rw [hpass.cut, Option.map_eq_none_iff] at h
      obtain ⟨e, he, hrest⟩ := ih h
      refine ⟨e, he.trans (hpass.count s).symm, fun t => ?_⟩
      rw [List.cons_append, hpass.cut, hrest, Option.map_map]
      rfl

/-- Two lists of pieces as the pieces of one text: the last piece of the first list goes on
with the first one of the second list. -/
def glued : List Text → List Text → List Text
  | [], more => more
  | [piece], more => more.modifyHead (piece ++ ·)
  | piece :: pieces, more => piece :: glued pieces more

theorem glued_cons {pieces : List Text} (h : pieces ≠ []) (piece : Text) (more : List Text) :
    glued (piece :: pieces) more = piece :: glued pieces more := by
  rw [glued]
  simpa using h

theorem glued_consHead {pieces more : List Text} (h : pieces ≠ []) (hmore : more ≠ []) (c : Char) :
    glued (Text.consHead c pieces) more = Text.consHead c (glued pieces more) := by
  obtain ⟨piece, pieces, rfl⟩ := List.exists_cons_of_ne_nil h
  obtain ⟨first, more, rfl⟩ := List.exists_cons_of_ne_nil hmore
  cases pieces with
  | nil => rfl
  | cons next pieces => rfl

/-- Where no bracket is closed that is not open, the counter is the surplus of what has been
passed. -/
theorem piecesAt_append_glued (h : ∀ u, u <+: s → 0 ≤ depth + surplus u) :
    ∃ e : ℕ, (e : ℤ) = depth + surplus s ∧
      ∀ t, piecesAt depth (s ++ t) = glued (piecesAt depth s) (piecesAt e t) := by
  induction s generalizing depth with
  | nil =>
    refine ⟨depth, by simp, fun t => ?_⟩
    obtain ⟨first, more, hpieces⟩ := List.exists_cons_of_ne_nil (piecesAt_ne_nil depth t)
    simp [piecesAt, glued, hpieces]
  | cons c s ih =>
    rcases passes_cases depth c with ⟨rfl, rfl⟩ | ⟨d, hpass⟩
    · have hclose := h [']'] ⟨s, rfl⟩
      simp at hclose
    obtain ⟨e, he, hrest⟩ := ih (hpass.forall_prefix_iff.mp h)
    refine ⟨e, he.trans (hpass.count s).symm, fun t => ?_⟩
    by_cases hcomma : c = ',' ∧ depth = 0
    · obtain ⟨rfl, rfl⟩ := hcomma
      obtain rfl := hpass.eq_zero_of_comma
      rw [List.cons_append, piecesAt_comma, piecesAt_comma, hrest, glued_cons (piecesAt_ne_nil _ _)]
    · rw [List.cons_append, hpass.piece hcomma, hpass.piece hcomma, hrest,
        glued_consHead (piecesAt_ne_nil _ _) (piecesAt_ne_nil _ _)]

/-- Of a text that closes the brackets open in front of it, the first piece closes them, no
piece has a comma outside of brackets, and the others are balanced. -/
theorem piecesAt_unsplit (h : openAfter? depth t = some 0) :
    ∃ first more, piecesAt depth t = first :: more ∧ openAfter? depth first = some 0 ∧
      (∀ a b, first = a ++ ',' :: b → openAfter? depth a ≠ some 0) ∧
      ∀ piece ∈ more, Unsplit piece := by
  induction t generalizing depth with
  | nil => exact ⟨[], [], rfl, h, by simp, by simp⟩
  | cons c t ih =>
    rcases passes_cases depth c with ⟨rfl, rfl⟩ | ⟨d, hpass⟩
    · simp [openAfter?] at h
    rw [hpass.openAfter] at h
    obtain ⟨first, more, hrest, hfirst, hunsplit, hmore⟩ := ih h
    by_cases hcomma : c = ',' ∧ depth = 0
    · obtain ⟨rfl, rfl⟩ := hcomma
      obtain rfl := hpass.eq_zero_of_comma
      refine ⟨[], first :: more, by rw [piecesAt_comma, hrest], rfl, by simp, ?_⟩
      exact List.forall_mem_cons.mpr ⟨⟨hfirst, hunsplit⟩, hmore⟩
    · refine ⟨c :: first, more, by rw [hpass.piece hcomma, hrest, Text.consHead], ?_, ?_, hmore⟩
      · rw [hpass.openAfter]
        exact hfirst
      · intro a b hab
        cases a with
        | nil =>
          obtain ⟨rfl, -⟩ := List.cons.inj hab
          simpa [openAfter?] using hcomma
        | cons e a =>
          obtain ⟨rfl, htail⟩ := List.cons.inj hab
          rw [hpass.openAfter]
          exact hunsplit a b htail

theorem Balanced.unsplit_of_mem_pieces (h : Balanced t) : ∀ piece ∈ pieces t, Unsplit piece := by
  obtain ⟨first, more, hpieces, hfirst, hunsplit, hmore⟩ := piecesAt_unsplit h
  rw [pieces, hpieces]
  exact List.forall_mem_cons.mpr ⟨⟨hfirst, hunsplit⟩, hmore⟩

theorem Unsplit.surplus_pos (h : Unsplit t) {front back : Text} (ht : t = front ++ ',' :: back) :
    0 < surplus front := by
  have hpaired := balanced_iff_paired.mp h.1
  have hbegins {s : Text} (hs : s <+: front) : 0 ≤ surplus s :=
    hpaired.beginnings s (hs.trans ⟨',' :: back, ht.symm⟩)
  have hne : surplus front ≠ 0 := fun hzero =>
    h.2 front back ht (balanced_iff_paired.mpr ⟨hzero, fun s => hbegins⟩)
  have hfront := hbegins (List.prefix_refl front)
  omega

/-- At the byte offset `i` a bracket is closed, and the text in front of it is paired. -/
def ClosesAt (t : Text) (i : ℕ) : Prop :=
  ∃ front back, t = front ++ ']' :: back ∧ front.byteLength = i ∧ Paired front

/-- The search finds the closing bracket, and its counter is at no place negative. -/
structure FindsClosing (t : Text) : Prop where
  parts : ∀ front back, cut? t = some (front, back) ↔ t = front ++ ']' :: back ∧ Paired front
  found : ∀ i, (cut? t).map (·.1.byteLength) = some i ↔ ClosesAt t i
  missing : cut? t = none ↔ ∀ i, ¬ ClosesAt t i
  /-- Where the search comes to `back`, the brackets that it counts as open, apart from the
  one that it is to close, are the surplus of `front`. -/
  counter : ∀ front back, t = front ++ back → cut? front = none →
    ∃ e : ℕ, (e : ℤ) = surplus front ∧ cut? t = (cutAt e back).map fun p => (front ++ p.1, p.2)

/-- The cut at commas takes a paired text apart into paired texts without commas outside of
brackets, and never takes one off a counter that is zero. -/
structure CutsApart (t : Text) : Prop where
  paired : Paired t
  /-- Where the cut comes to `back`, its counter is the surplus of `front`. -/
  counter : ∀ front back, t = front ++ back → ∃ e : ℕ, (e : ℤ) = surplus front ∧
    (∀ more, pieces (front ++ more) = glued (pieces front) (piecesAt e more)) ∧
    ∀ rest, back = ']' :: rest → 0 < e
  pieces : ∀ piece ∈ pieces t,
    Paired piece ∧ ∀ front back, piece = front ++ ',' :: back → 0 < surplus front
  joined : Text.joined "," (Brackets.pieces t) = t

theorem cut?_eq_some_iff_paired {front back : Text} :
    cut? t = some (front, back) ↔ t = front ++ ']' :: back ∧ Paired front := by
  rw [cut?_eq_some_iff, balanced_iff_paired]

theorem closesAt_iff {i : ℕ} : (cut? t).map (·.1.byteLength) = some i ↔ ClosesAt t i := by
  rw [Option.map_eq_some_iff]
  constructor
  · rintro ⟨⟨front, back⟩, hcut, hi⟩
    obtain ⟨ht, hpaired⟩ := cut?_eq_some_iff_paired.mp hcut
    exact ⟨front, back, ht, hi, hpaired⟩
  · rintro ⟨front, back, ht, hi, hpaired⟩
    exact ⟨(front, back), cut?_eq_some_iff_paired.mpr ⟨ht, hpaired⟩, hi⟩

theorem findsClosing (t : Text) : FindsClosing t where
  parts _ _ := cut?_eq_some_iff_paired
  found _ := closesAt_iff
  missing := by
    simp only [← closesAt_iff]
    cases cut? t <;> simp
  counter := by
    rintro front back rfl hfront
    obtain ⟨e, he, hcut⟩ := cutAt_append hfront
    exact ⟨e, by simpa using he, hcut back⟩

theorem Paired.cutsApart (h : Paired t) : CutsApart t where
  paired := h
  counter := by
    rintro front back rfl
    have hbegins {s : Text} (hs : s <+: front ++ back) : 0 ≤ ((0 : ℕ) : ℤ) + surplus s := by
      simpa using h.beginnings s hs
    obtain ⟨e, he, hpieces⟩ := piecesAt_append_glued fun s hs =>
      hbegins (hs.trans (List.prefix_append front back))
    refine ⟨e, by simpa using he, hpieces, ?_⟩
    -- Together with the bracket that follows, the surplus is still not negative.
    rintro rest rfl
    have hclose : 0 ≤ ((0 : ℕ) : ℤ) + surplus (front ++ [']']) := hbegins ⟨rest, by simp⟩
    simp only [surplus_append, surplus_close, surplus_nil] at hclose
    omega
  pieces piece hpiece := by
    have hunsplit := (balanced_iff_paired.mpr h).unsplit_of_mem_pieces piece hpiece
    exact ⟨balanced_iff_paired.mp hunsplit.1, fun front back => hunsplit.surplus_pos⟩
  joined := joined_piecesAt 0 t

/-- Behind a name and a bracket stand parameters that the reader comes to cut apart: there is
a name, the bracket is closed at the end of the text, and something is in it. -/
def ParametersOf (name rest parameters : Text) : Prop :=
  name ≠ [] ∧ cut? rest = some (parameters, []) ∧ parameters ≠ []

open FieldType (readCustom readParameters)

theorem ParametersOf.readCustom_eq {name rest parameters : Text}
    (h : ParametersOf name rest parameters) (body : Text) :
    ∃ finish, ∀ inner, readCustom inner body name rest =
      readParameters inner body (pieces parameters) >>= finish := by
  obtain ⟨hname, hcut, hparameters⟩ := h
  simp only [readCustom, List.isEmpty_iff, hname, hcut, hparameters, List.isEmpty_nil,
    Bool.not_true, Bool.false_eq_true, if_false]
  exact ⟨_, fun inner => rfl⟩

/-- Without parameters to cut apart, the reader fails before it reads any part. -/
theorem readCustom_of_not_parametersOf {name rest : Text}
    (h : ∀ parameters, ¬ ParametersOf name rest parameters) (body : Text) :
    ∃ part, ∀ inner, readCustom inner body name rest = .error part := by
  by_cases hname : name = []
  · exact ⟨⟨body, .namelessParameters⟩, fun inner => by simp [readCustom, hname]⟩
  cases hcut : cut? rest with
  | none => exact ⟨⟨body, .openParameters⟩, fun inner => by simp [readCustom, hname, hcut]⟩
  | some parts =>
    obtain ⟨parameters, behind⟩ := parts
    by_cases hbehind : behind = []
    · subst hbehind
      have hempty : parameters = [] := by
        by_contra hne
        exact h parameters ⟨hname, hcut, hne⟩
      exact ⟨⟨body, .emptyParameters⟩, fun inner => by simp [readCustom, hname, hcut, hempty]⟩
    · exact ⟨⟨body, .textBehindParameters⟩,
        fun inner => by simp [readCustom, hname, hcut, hbehind]⟩

/-- The search finds the first closing bracket with a paired text in front of it, and nothing
where there is none. What a custom type has between its brackets, and only that, is cut at
its commas, and this cut takes it apart into its pieces. -/
theorem scans_sound (t name rest : Text) :
    FindsClosing t ∧
      (∀ parameters, ParametersOf name rest parameters →
        CutsApart parameters ∧
        ∀ body, ∃ finish, ∀ inner, readCustom inner body name rest =
          readParameters inner body (pieces parameters) >>= finish) ∧
      ((∀ parameters, ¬ ParametersOf name rest parameters) →
        ∀ body, ∃ part, ∀ inner, readCustom inner body name rest = .error part) := by
  refine ⟨findsClosing t, fun parameters h => ⟨?_, h.readCustom_eq⟩, readCustom_of_not_parametersOf⟩
  exact (cut?_eq_some_iff_paired.mp h.2.1).2.cutsApart

theorem scans_sound_nested :
    let rest : Text := "map[é,k]v,Box[a,b[]]]"
    let parameters : Text := "map[é,k]v,Box[a,b[]]"
    let parts : List Text := ["map[é,k]v", "Box[a,b[]]"]
    ClosesAt rest 21 ∧ ParametersOf "Pair" rest parameters ∧ CutsApart parameters ∧
      pieces parameters = parts := by
  intro rest parameters parts
  have hparameters : ParametersOf "Pair" rest parameters := by
    refine ⟨by decide, ?_, by decide⟩
    decide +kernel
  obtain ⟨hfinds, hcuts, -⟩ := scans_sound rest "Pair" rest
  refine ⟨(hfinds.found 21).mp (by decide +kernel), hparameters, (hcuts _ hparameters).1, ?_⟩
  decide +kernel

end ClassSchema.Brackets
