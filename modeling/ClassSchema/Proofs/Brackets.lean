import ClassSchema.Proofs.Text
import ClassSchema.Type.Brackets

/-!
# Balanced brackets and top-level commas

The cut at a closing bracket finds the end of a balanced text, and the pieces
between commas are found again after joining, as long as no piece has a comma
outside of its brackets. Both facts are stated over the declarative notions
`Balanced` and `Unsplit`; the scanners do not occur in these.
-/

namespace ClassSchema.Brackets

variable {s t u : Text} {depth : ℕ}

def Plain (t : Text) : Prop := '[' ∉ t ∧ ']' ∉ t

theorem openAfter?_of_plain (h : Plain t) : openAfter? depth t = some depth := by
  induction t with
  | nil => rfl
  | cons c t ih =>
    obtain ⟨ho, hc⟩ := h
    simp only [List.mem_cons, not_or] at ho hc
    rw [openAfter?_other (Ne.symm ho.1) (Ne.symm hc.1)]
    exact ih ⟨ho.2, hc.2⟩

theorem balanced_of_plain (h : Plain t) : Balanced t := openAfter?_of_plain h

theorem Balanced.not_open_suffix (h : Balanced t) : ¬ ['['] <:+ t := by
  rintro ⟨s, rfl⟩
  obtain ⟨d, hd⟩ := h.of_append_left
  unfold Balanced at h
  rw [Brackets.openAfter?_append, hd] at h
  simp [openAfter?] at h

theorem Balanced.not_empty_pair_suffix (h : Balanced t) (hne : t ≠ []) (s : Text) :
    ¬ ("[]" : String).toList <:+ s ++ '[' :: (t ++ [']']) := by
  rintro ⟨r, hr⟩
  have hfront : r ++ ['['] = s ++ '[' :: t := by
    refine List.append_cancel_right (?_ : _ ++ [']'] = _ ++ [']'])
    simpa using hr
  have hlast := congrArg List.getLast? hfront
  rw [List.getLast?_concat, List.append_cons, List.getLast?_append_of_ne_nil _ hne] at hlast
  obtain ⟨front, hopen⟩ := List.getLast?_eq_some_iff.mp hlast.symm
  exact h.not_open_suffix ⟨front, hopen.symm⟩

theorem cutAt_eq_some_iff {inner rest : Text} :
    cutAt depth t = some (inner, rest) ↔
      t = inner ++ ']' :: rest ∧ openAfter? depth inner = some 0 := by
  induction t generalizing depth inner with
  | nil => simp [cutAt]
  | cons c t ih =>
    -- The character `c` is the first one of `inner`, unless `inner` is empty.
    have hstep : ∀ d, ((cutAt d t).map fun p => (c :: p.1, p.2)) = some (inner, rest) ↔
        ∃ tail, inner = c :: tail ∧ t = tail ++ ']' :: rest ∧ openAfter? d tail = some 0 := by
      intro d
      rw [Option.map_eq_some_iff]
      constructor
      · rintro ⟨⟨tail, r⟩, hcut, heq⟩
        obtain ⟨rfl, rfl⟩ := Prod.mk.inj heq
        exact ⟨tail, rfl, ih.mp hcut⟩
      · rintro ⟨tail, rfl, ht⟩
        exact ⟨(tail, rest), ih.mpr ht, rfl⟩
    unfold cutAt
    split_ifs with ho hc
    · subst ho
      refine (hstep _).trans ?_
      cases inner with
      | nil => simp
      | cons e tail => grind [openAfter?_open]
    · subst hc
      cases depth with
      | zero =>
        cases inner with
        | nil => simp [openAfter?]
        | cons e tail => grind [openAfter?]
      | succ d =>
        refine (hstep _).trans ?_
        cases inner with
        | nil => simp [openAfter?]
        | cons e tail => grind [openAfter?_close]
    · refine (hstep _).trans ?_
      cases inner with
      | nil => simp [hc]
      | cons e tail => grind [openAfter?_other]

theorem cut?_eq_some_iff {inner rest : Text} :
    cut? t = some (inner, rest) ↔ t = inner ++ ']' :: rest ∧ Balanced inner :=
  cutAt_eq_some_iff

theorem Balanced.close_inj {s' t' : Text} (hs : Balanced s) (hs' : Balanced s')
    (h : s ++ ']' :: t = s' ++ ']' :: t') : s = s' ∧ t = t' := by
  have hcut := cut?_eq_some_iff.mpr ⟨h, hs'⟩
  rw [cut?_eq_some_iff.mpr ⟨rfl, hs⟩] at hcut
  exact Prod.mk.inj (Option.some.inj hcut)

theorem cutAt_ne_none (h : openAfter? (depth + 1) t = some 0) : cutAt depth t ≠ none := by
  induction t generalizing depth with
  | nil => simp [openAfter?] at h
  | cons c t ih =>
    unfold cutAt
    split_ifs with ho hc
    · subst ho
      rw [openAfter?_open] at h
      simpa using ih h
    · subst hc
      rw [openAfter?_close] at h
      cases depth with
      | zero => simp
      | succ d => simpa using ih h
    · rw [openAfter?_other ho hc] at h
      simpa using ih h

theorem Balanced.cut?_ne_none (h : Balanced (s ++ '[' :: t)) (hs : '[' ∉ s) : cut? t ≠ none := by
  unfold Balanced at h
  rw [Brackets.openAfter?_append] at h
  obtain ⟨d, hd, ht⟩ := Option.bind_eq_some_iff.mp h
  rw [openAfter?_open] at ht
  -- Nothing is opened in front of the first bracket, so nothing can be closed there either.
  have hzero : d = 0 := by
    by_cases hclose : ']' ∈ s
    · obtain ⟨front, back, rfl, hfront⟩ := List.eq_append_cons_of_mem hclose
      have hplain : Plain front := ⟨fun hmem => hs (List.mem_append_left _ hmem), hfront⟩
      rw [Brackets.openAfter?_append, openAfter?_of_plain hplain] at hd
      simp [openAfter?] at hd
    · rw [openAfter?_of_plain ⟨hs, hclose⟩] at hd
      exact (Option.some.inj hd).symm
  subst hzero
  exact cutAt_ne_none ht

/-- A balanced text without a comma outside of its brackets: what stands before
a comma is never balanced. -/
def Unsplit (t : Text) : Prop := Balanced t ∧ ∀ s u, t = s ++ ',' :: u → ¬ Balanced s

theorem unsplit_of_plain (h : Plain t) (hc : ',' ∉ t) : Unsplit t := by
  refine ⟨balanced_of_plain h, ?_⟩
  rintro s u rfl
  simp at hc

theorem Unsplit.append (hs : Unsplit s) (ht : Unsplit t) : Unsplit (s ++ t) := by
  refine ⟨hs.1.append ht.1, ?_⟩
  intro a b hab ha
  rcases List.append_eq_append_iff.mp hab with ⟨m, rfl, hm⟩ | ⟨m, rfl, hm⟩
  · unfold Balanced at ha
    rw [hs.1.openAfter?_append] at ha
    exact ht.2 m b hm ha
  · cases m with
    | nil =>
      rw [List.append_nil] at hs
      exact ht.2 [] b hm.symm balanced_nil
    | cons c m =>
      obtain ⟨rfl, -⟩ := List.cons.inj hm
      exact hs.2 a m rfl ha

theorem Balanced.unsplit_wrap (hs : Balanced s) : Unsplit ('[' :: s ++ [']']) := by
  refine ⟨hs.wrap, ?_⟩
  intro a b hab ha
  cases a with
  | nil => simp at hab
  | cons c a =>
    obtain ⟨rfl, htail⟩ := List.cons.inj hab
    -- The comma lies in `s`, so the part of `s` before it leaves the bracket open.
    obtain ⟨m, rfl⟩ : ∃ m, s = a ++ m := by
      rcases List.append_eq_append_iff.mp htail with ⟨m, rfl, hm⟩ | ⟨m, rfl, -⟩
      · cases m with
        | nil => exact ⟨[], by simp⟩
        | cons c m => simp at hm
      · exact ⟨m, rfl⟩
    obtain ⟨d, hd⟩ := hs.of_append_left
    have hopen := openAfter?_add hd 1
    unfold Balanced at ha
    rw [openAfter?_open, hopen] at ha
    simp at ha

/-- A stretch without a top-level comma goes to the front of the first piece. -/
theorem piecesAt_append {e : ℕ} (hopen : openAfter? depth s = some e)
    (hs : ∀ a b, s = a ++ ',' :: b → openAfter? depth a ≠ some 0) (t : Text) :
    piecesAt depth (s ++ t) = (piecesAt e t).modifyHead (s ++ ·) := by
  induction s generalizing depth with
  | nil =>
    obtain rfl : depth = e := Option.some.inj hopen
    cases h : piecesAt depth t <;> simp [h]
  | cons c s ih =>
    have hnext : ∀ d, openAfter? depth (c :: s) = openAfter? d s →
        (∀ a, openAfter? depth (c :: a) = openAfter? d a) →
        Text.consHead c (piecesAt d (s ++ t)) = (piecesAt e t).modifyHead (c :: s ++ ·) := by
      intro d hd hall
      rw [ih (hd ▸ hopen) ?_, Text.consHead_eq_modifyHead]
      · cases piecesAt e t <;> simp
      · simp [piecesAt_ne_nil]
      · rintro a b rfl
        rw [← hall]
        exact hs (c :: a) b rfl
    rw [List.cons_append, piecesAt]
    split_ifs with ho hc hcomma
    · subst ho
      exact hnext _ (openAfter?_open _ _) (openAfter?_open _)
    · subst hc
      cases depth with
      | zero => simp [openAfter?] at hopen
      | succ d => exact hnext d (openAfter?_close _ _) (openAfter?_close _)
    · obtain ⟨rfl, rfl⟩ := hcomma
      exact absurd rfl (hs [] s rfl)
    · exact hnext _ (openAfter?_other ho hc) (fun a => openAfter?_other ho hc)

theorem Unsplit.piecesAt_append (hs : Unsplit s) (t : Text) :
    pieces (s ++ t) = (pieces t).modifyHead (s ++ ·) :=
  Brackets.piecesAt_append hs.1 hs.2 t

theorem pieces_joined {ts : List Text} (hne : ts ≠ []) (h : ∀ t ∈ ts, Unsplit t) :
    pieces (Text.joined "," ts) = ts := by
  induction ts with
  | nil => exact absurd rfl hne
  | cons t ts ih =>
    have ht := h t List.mem_cons_self
    cases ts with
    | nil =>
      have hp := ht.piecesAt_append []
      simpa [Text.joined, pieces, piecesAt] using hp
    | cons u us =>
      have hrest := ih (by simp) fun v hv => h v (List.mem_cons_of_mem _ hv)
      have hjoin : Text.joined "," (t :: u :: us) = t ++ ',' :: Text.joined "," (u :: us) := by
        simp [Text.joined_cons]
      have hcomma : pieces (',' :: Text.joined "," (u :: us)) = [] :: u :: us :=
        congrArg ([] :: ·) hrest
      rw [hjoin, ht.piecesAt_append, hcomma]
      simp

end ClassSchema.Brackets
