/-!
# Order and repetition

A collection that is shown in order is kept as a list. An element is put in
front of the first larger one, and an element that compares equal to one of the
list leaves it as it was, so the earliest of equal elements is the one kept. The
list is strictly increasing, and that and its elements determine it.

Several rules ask that things be pairwise different in some respect. What is
reported is the first thing that agrees with an earlier one, and that earlier
one.
-/

namespace ClassSchema

namespace Sorted

variable {α : Type}

/-- Puts an element in its place, unless one that compares equal is there. -/
def insert (order : α → α → Ordering) (a : α) : List α → List α
  | [] => [a]
  | b :: bs =>
    match order a b with
    | .lt => a :: b :: bs
    | .eq => b :: bs
    | .gt => b :: insert order a bs

theorem mem_of_mem_insert {order : α → α → Ordering} {a b : α} {as : List α}
    (h : b ∈ insert order a as) : b = a ∨ b ∈ as := by
  fun_induction insert order a as <;> simp_all
  grind

theorem pairwise_insert {order : α → α → Ordering} [Std.TransCmp order] {a : α} {as : List α}
    (h : as.Pairwise (order · · = .lt)) :
    (insert order a as).Pairwise (order · · = .lt) := by
  induction as with
  | nil => simp [insert]
  | cons c cs ih =>
    obtain ⟨hc, hcs⟩ := List.pairwise_cons.mp h
    unfold insert
    split
    · next hlt =>
      refine List.pairwise_cons.mpr ⟨?_, h⟩
      intro d hd
      rcases List.mem_cons.mp hd with rfl | hd
      · exact hlt
      · exact Std.TransCmp.lt_trans hlt (hc d hd)
    · exact h
    · next hgt =>
      refine List.pairwise_cons.mpr ⟨?_, ih hcs⟩
      intro d hd
      rcases mem_of_mem_insert hd with rfl | hd
      · exact Std.OrientedCmp.lt_of_gt hgt
      · exact hc d hd

theorem mem_insert {order : α → α → Ordering} {a b : α} {as : List α}
    [Std.LawfulEqCmp order] : b ∈ insert order a as ↔ b = a ∨ b ∈ as := by
  refine ⟨mem_of_mem_insert, fun h => ?_⟩
  induction as with
  | nil => simpa [insert] using h
  | cons c cs ih =>
    unfold insert
    split
    · simpa using h
    · next heq =>
      obtain rfl := Std.LawfulEqCmp.compare_eq_iff_eq.mp heq
      simpa using h
    · rcases h with h | h
      · exact List.mem_cons_of_mem _ (ih (Or.inl h))
      · rcases List.mem_cons.mp h with rfl | h
        · exact List.mem_cons_self
        · exact List.mem_cons_of_mem _ (ih (Or.inr h))

theorem map_insert {β : Type} {order : α → α → Ordering} {order' : β → β → Ordering}
    {f : α → β} (h : ∀ a b, order a b = order' (f a) (f b)) (a : α) (as : List α) :
    (insert order a as).map f = insert order' (f a) (as.map f) := by
  induction as with
  | nil => rfl
  | cons b bs ih =>
    rw [insert, List.map_cons, insert, ← h]
    cases order a b with
    | lt => rfl
    | eq => rfl
    | gt => exact congrArg (f b :: ·) ih

/-- The elements in order, the first one of those that compare equal. -/
def ofList (order : α → α → Ordering) (as : List α) : List α :=
  as.foldl (fun sorted a => insert order a sorted) []

theorem mem_ofList {order : α → α → Ordering} {b : α} {as : List α}
    [Std.LawfulEqCmp order] : b ∈ ofList order as ↔ b ∈ as := by
  have hfold : ∀ sorted : List α,
      b ∈ as.foldl (fun sorted a => insert order a sorted) sorted ↔ b ∈ as ∨ b ∈ sorted := by
    induction as with
    | nil => simp
    | cons a as ih =>
      intro sorted
      rw [List.foldl_cons, ih, mem_insert, List.mem_cons]
      grind
  rw [ofList, hfold]
  simp

/-- An order that compares keys sorts the keys. -/
theorem map_ofList {β : Type} {order : α → α → Ordering} {order' : β → β → Ordering}
    {f : α → β} (h : ∀ a b, order a b = order' (f a) (f b)) (as : List α) :
    (ofList order as).map f = ofList order' (as.map f) := by
  have hfold (sorted : List α) :
      (as.foldl (fun sorted a => insert order a sorted) sorted).map f =
        (as.map f).foldl (fun sorted b => insert order' b sorted) (sorted.map f) := by
    induction as generalizing sorted with
    | nil => rfl
    | cons a as ih => rw [List.foldl_cons, ih, map_insert h, List.map_cons, List.foldl_cons]
  exact hfold []

theorem mem_of_mem_ofList {order : α → α → Ordering} {a : α} {as : List α}
    (h : a ∈ ofList order as) : a ∈ as := by
  have hfold (as sorted : List α)
      (h : a ∈ as.foldl (fun sorted a => insert order a sorted) sorted) : a ∈ as ∨ a ∈ sorted := by
    induction as generalizing sorted with
    | nil => exact .inr h
    | cons b as ih =>
      rcases ih _ h with hmem | hmem
      · exact .inl (List.mem_cons_of_mem b hmem)
      · rcases mem_of_mem_insert hmem with rfl | hmem
        · exact .inl List.mem_cons_self
        · exact .inr hmem
  simpa using hfold as [] h

theorem pairwise_ofList {order : α → α → Ordering} [Std.TransCmp order] (as : List α) :
    (ofList order as).Pairwise (order · · = .lt) := by
  have hfold : ∀ (as sorted : List α), sorted.Pairwise (order · · = .lt) →
      (as.foldl (fun sorted a => insert order a sorted) sorted).Pairwise (order · · = .lt) := by
    intro as
    induction as with
    | nil => exact fun _ h => h
    | cons a as ih => exact fun _ h => ih _ (pairwise_insert h)
  exact hfold as [] List.Pairwise.nil

/-- Two increasing lists with the same elements are the same. -/
theorem eq_of_pairwise_of_mem_iff {order : α → α → Ordering} [Std.TransCmp order]
    {as bs : List α} (has : as.Pairwise (order · · = .lt)) (hbs : bs.Pairwise (order · · = .lt))
    (h : ∀ a, a ∈ as ↔ a ∈ bs) : as = bs := by
  induction as generalizing bs with
  | nil => exact (List.eq_nil_iff_forall_not_mem.mpr fun b hb => by simpa using (h b).mpr hb).symm
  | cons a as ih =>
    cases bs with
    | nil => simpa using (h a).mp List.mem_cons_self
    | cons b bs =>
      obtain ⟨ha, hrest⟩ := List.pairwise_cons.mp has
      obtain ⟨hb, hrest'⟩ := List.pairwise_cons.mp hbs
      have hne {c d : α} (hlt : order c d = .lt) : d ≠ c := by
        rintro rfl
        exact Std.OrientedCmp.not_lt_of_lt hlt hlt
      -- Of two different heads each would be smaller than the other.
      obtain rfl : a = b := by
        rcases List.mem_cons.mp ((h a).mp List.mem_cons_self) with hab | hmem
        · exact hab
        · rcases List.mem_cons.mp ((h b).mpr List.mem_cons_self) with hba | hmem'
          · exact hba.symm
          · exact absurd (hb a hmem) (Std.OrientedCmp.not_lt_of_lt (ha b hmem'))
      congr 1
      refine ih hrest hrest' fun c => ⟨fun hc => ?_, fun hc => ?_⟩
      · have hmem := (h c).mp (List.mem_cons_of_mem a hc)
        exact (List.mem_cons.mp hmem).resolve_left (hne (ha c hc))
      · have hmem := (h c).mpr (List.mem_cons_of_mem a hc)
        exact (List.mem_cons.mp hmem).resolve_left (hne (hb c hc))

theorem ofList_congr {order : α → α → Ordering} [Std.TransCmp order] [Std.LawfulEqCmp order]
    {as bs : List α} (h : ∀ a, a ∈ as ↔ a ∈ bs) :
    ofList order as = ofList order bs := by
  apply eq_of_pairwise_of_mem_iff (pairwise_ofList as) (pairwise_ofList bs)
  intro a
  rw [mem_ofList, mem_ofList]
  exact h a

end Sorted

section Distinct

variable {α β : Type} [DecidableEq β]

/-- The first element that agrees in `key` with an earlier one, where the
elements of `seen` came before; the earlier one stands first. -/
def firstClashAfter (key : α → β) (seen : List α) : List α → Option (α × α)
  | [] => none
  | a :: as =>
    match seen.find? (fun b => key b = key a) with
    | some b => some (b, a)
    | none => firstClashAfter key (a :: seen) as

theorem firstClashAfter_eq_none_iff {key : α → β} {seen as : List α} :
    firstClashAfter key seen as = none ↔
      (as.map key).Nodup ∧ ∀ a ∈ as, key a ∉ seen.map key := by
  induction as generalizing seen with
  | nil => simp [firstClashAfter]
  | cons a as ih =>
    unfold firstClashAfter
    cases hfind : seen.find? (fun b => key b = key a) with
    | some b =>
      have hmem := List.mem_of_find?_eq_some hfind
      have hkey : key b = key a := by simpa using List.find?_some hfind
      constructor
      · intro h
        simp at h
      · rintro ⟨-, hseen⟩
        exact absurd (List.mem_map.mpr ⟨b, hmem, hkey⟩) (hseen a List.mem_cons_self)
    | none =>
      have hfresh : key a ∉ seen.map key := by
        intro hmem
        obtain ⟨b, hb, hkey⟩ := List.mem_map.mp hmem
        simpa [hkey] using List.find?_eq_none.mp hfind b hb
      rw [ih, List.forall_mem_cons]
      simp only [List.map_cons, List.nodup_cons, List.mem_cons, not_or]
      constructor
      · rintro ⟨hnodup, hall⟩
        refine ⟨⟨?_, hnodup⟩, hfresh, fun b hb => (hall b hb).2⟩
        intro hmem
        obtain ⟨b, hb, hkey⟩ := List.mem_map.mp hmem
        exact (hall b hb).1 hkey
      · rintro ⟨⟨ha, hnodup⟩, -, hall⟩
        refine ⟨hnodup, fun b hb => ⟨?_, hall b hb⟩⟩
        intro hkey
        exact ha (List.mem_map.mpr ⟨b, hb, hkey⟩)

/-- A repetition that is found agrees with something that was seen or stands in front of
it, and everything in front of it is different. -/
theorem exists_of_firstClashAfter {key : α → β} {seen as : List α} {a b : α}
    (h : firstClashAfter key seen as = some (a, b)) :
    ∃ front rest, as = front ++ b :: rest ∧ firstClashAfter key seen front = none ∧
      (a ∈ seen ∨ a ∈ front) ∧ key a = key b := by
  induction as generalizing seen with
  | nil => simp [firstClashAfter] at h
  | cons c as ih =>
    unfold firstClashAfter at h
    cases hfind : seen.find? (fun b => key b = key c) with
    | some d =>
      rw [hfind] at h
      obtain ⟨rfl, rfl⟩ := Prod.mk.inj (Option.some.inj h)
      exact ⟨[], as, rfl, rfl, .inl (List.mem_of_find?_eq_some hfind),
        by simpa using List.find?_some hfind⟩
    | none =>
      rw [hfind] at h
      obtain ⟨front, rest, rfl, hfront, hmem, hkey⟩ := ih h
      refine ⟨c :: front, rest, rfl, ?_, ?_, hkey⟩
      · rw [firstClashAfter, hfind]
        exact hfront
      · rcases hmem with hmem | hmem
        · rcases List.mem_cons.mp hmem with rfl | hmem
          · exact .inr List.mem_cons_self
          · exact .inl hmem
        · exact .inr (List.mem_cons_of_mem c hmem)

theorem firstClashAfter_map {γ : Type} {key : α → β} (g : γ → α) (seen cs : List γ) :
    firstClashAfter key (seen.map g) (cs.map g) =
      (firstClashAfter (key ∘ g) seen cs).map (Prod.map g g) := by
  induction cs generalizing seen with
  | nil => rfl
  | cons c cs ih =>
    have hfind : (seen.map g).find? (fun b => key b = key (g c)) =
        (seen.find? fun d => (key ∘ g) d = (key ∘ g) c).map g := List.find?_map
    rw [List.map_cons, firstClashAfter, firstClashAfter, hfind]
    cases seen.find? fun d => (key ∘ g) d = (key ∘ g) c with
    | some d => rfl
    | none => exact ih (c :: seen)

/-- The first element that agrees in `key` with an earlier one, behind that one. -/
def firstClash? (key : α → β) (as : List α) : Option (α × α) := firstClashAfter key [] as

theorem firstClash?_eq_none_iff {key : α → β} {as : List α} :
    firstClash? key as = none ↔ (as.map key).Nodup := by
  simp [firstClash?, firstClashAfter_eq_none_iff]

theorem exists_of_firstClash? {key : α → β} {as : List α} {a b : α}
    (h : firstClash? key as = some (a, b)) :
    ∃ front rest, as = front ++ b :: rest ∧ (front.map key).Nodup ∧ a ∈ front ∧ key a = key b := by
  obtain ⟨front, rest, has, hfront, hmem, hkey⟩ := exists_of_firstClashAfter h
  exact ⟨front, rest, has, firstClash?_eq_none_iff.mp hfront, by simpa using hmem, hkey⟩

end Distinct

end ClassSchema
