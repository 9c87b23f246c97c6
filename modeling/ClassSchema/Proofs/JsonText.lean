import ClassSchema.Json.Value
import ClassSchema.Proofs.Text

/-!
# The text of values

The text of a value tells where it ends, except for that of a number, which must not be
followed by a digit. So a value can be told from its text, whatever follows.
-/

namespace ClassSchema.Json.Value

variable {r r' : Text} {c d : Char}

/-- The characters that are escaped: the quote, the backslash and control characters. -/
def specials : List Char := ['"', '\\'] ++ (List.range 32).map Char.ofNat

theorem escaped_of_not_mem (h : c ∉ specials) : escaped c = [c] := by
  have hsmall : ¬ c.toNat < 0x20 := by
    intro hc
    apply h
    refine List.mem_append_right _ (List.mem_map.mpr ⟨c.toNat, List.mem_range.mpr hc, ?_⟩)
    exact Char.ofNat_toNat c
  have hne : ∀ d ∈ specials, c ≠ d := by
    rintro d hd rfl
    exact h hd
  unfold escaped
  rw [if_neg (hne _ (by decide)), if_neg (hne _ (by decide)), if_neg (hne _ (by decide)),
    if_neg (hne _ (by decide)), if_neg (hne _ (by decide)), if_neg (hne _ (by decide)),
    if_neg (hne _ (by decide)), if_neg hsmall]

theorem head?_escaped_of_mem : ∀ c ∈ specials, (escaped c).head? = some '\\' := by
  have hall : specials.all (fun c => (escaped c).head? = some '\\') = true := by decide +kernel
  simpa using List.all_eq_true.mp hall

theorem eq_of_escaped_isPrefix :
    ∀ c ∈ specials, ∀ d ∈ specials, escaped c <+: escaped d → c = d := by
  have hall : specials.all (fun c => specials.all fun d =>
      decide (escaped c <+: escaped d → c = d)) = true := by
    decide +kernel
  intro c hc d hd
  exact of_decide_eq_true (List.all_eq_true.mp (List.all_eq_true.mp hall c hc) d hd)

theorem escaped_append_inj (h : escaped c ++ r = escaped d ++ r') : c = d ∧ r = r' := by
  have hmixed : ∀ {c d : Char} {r r' : Text}, c ∈ specials → d ∉ specials →
      escaped c ++ r ≠ escaped d ++ r' := by
    intro c d r r' hc hd h
    have hhead := congrArg List.head? h
    rw [escaped_of_not_mem hd, List.head?_append, head?_escaped_of_mem c hc] at hhead
    obtain rfl : '\\' = d := by simpa using hhead
    exact hd (by decide)
  have heq : c = d := by
    by_cases hc : c ∈ specials
    · by_cases hd : d ∈ specials
      · rcases List.prefix_or_prefix_of_prefix ⟨r, rfl⟩ ⟨r', h.symm⟩ with hp | hp
        · exact eq_of_escaped_isPrefix c hc d hd hp
        · exact (eq_of_escaped_isPrefix d hd c hc hp).symm
      · exact absurd h (hmixed hc hd)
    · by_cases hd : d ∈ specials
      · exact absurd h.symm (hmixed hd hc)
      · rw [escaped_of_not_mem hc, escaped_of_not_mem hd] at h
        exact (List.cons.inj h).1
  subst heq
  exact ⟨rfl, List.append_cancel_left h⟩

theorem quote_ne_escaped (c : Char) (r r' : Text) : escaped c ++ r ≠ '"' :: r' := by
  intro h
  have hhead := congrArg List.head? h
  by_cases hc : c ∈ specials
  · rw [List.head?_append, head?_escaped_of_mem c hc] at hhead
    cases hhead
  · rw [escaped_of_not_mem hc] at hhead
    obtain rfl : c = '"' := by simpa using hhead
    exact hc (by decide)

theorem flatMap_escaped_append_inj {t u : Text}
    (h : t.flatMap escaped ++ '"' :: r = u.flatMap escaped ++ '"' :: r') : t = u ∧ r = r' := by
  induction t generalizing u with
  | nil =>
    cases u with
    | nil => exact ⟨rfl, (List.cons.inj h).2⟩
    | cons d u =>
      rw [List.flatMap_cons, List.append_assoc] at h
      exact absurd h.symm (quote_ne_escaped _ _ _)
  | cons c t ih =>
    cases u with
    | nil =>
      rw [List.flatMap_cons, List.append_assoc] at h
      exact absurd h (quote_ne_escaped _ _ _)
    | cons d u =>
      rw [List.flatMap_cons, List.flatMap_cons, List.append_assoc, List.append_assoc] at h
      obtain ⟨rfl, hrest⟩ := escaped_append_inj h
      obtain ⟨rfl, rfl⟩ := ih hrest
      exact ⟨rfl, rfl⟩

theorem quoted_append_inj {t u : Text} (h : quoted t ++ r = quoted u ++ r') : t = u ∧ r = r' := by
  rw [quoted_eq, quoted_eq, List.cons_append, List.cons_append, List.append_assoc,
    List.append_assoc] at h
  exact flatMap_escaped_append_inj (List.cons.inj h).2

def NoDigitHead (t : Text) : Prop := ∀ c ∈ t.head?, c.isDigit = false

theorem takeWhile_ofNat_append (n : ℕ) (hr : NoDigitHead r) :
    (Text.ofNat n ++ r).takeWhile Char.isDigit = Text.ofNat n := by
  have hrest : r.takeWhile Char.isDigit = [] := by
    cases r with
    | nil => rfl
    | cons c r => exact List.takeWhile_cons_of_neg (by simp [hr c rfl])
  rw [List.takeWhile_append_of_pos fun _ => Text.isDigit_of_mem_ofNat, hrest, List.append_nil]

theorem ofNat_append_inj {m n : ℕ} (hr : NoDigitHead r) (hr' : NoDigitHead r')
    (h : Text.ofNat m ++ r = Text.ofNat n ++ r') : m = n ∧ r = r' := by
  have hdigits := congrArg (List.takeWhile Char.isDigit) h
  rw [takeWhile_ofNat_append m hr, takeWhile_ofNat_append n hr'] at hdigits
  obtain rfl := Text.ofNat_injective hdigits
  exact ⟨rfl, List.append_cancel_left h⟩

/-- Induction over values, with one hypothesis for all items and one for all members. -/
@[elab_as_elim, induction_eliminator]
theorem treeInduction {motive : Value → Prop} (null : motive .null)
    (bool : ∀ b, motive (.bool b)) (number : ∀ n, motive (.number n))
    (string : ∀ t, motive (.string t))
    (array : ∀ items, (∀ v ∈ items, motive v) → motive (.array items))
    (object : ∀ members : Members, (∀ m ∈ members, motive m.2) → motive (.object members)) :
    ∀ v, motive v
  | .null => null
  | .bool b => bool b
  | .number n => number n
  | .string t => string t
  | .array items =>
    array items fun v hv =>
      have := List.sizeOf_lt_of_mem hv
      treeInduction null bool number string array object v
  | .object members =>
    object members fun m hm =>
      have := List.sizeOf_lt_of_mem hm
      have : sizeOf m.2 < sizeOf m := by cases m; simp
      treeInduction null bool number string array object m.2

/-- The kind of a value by the first character of its text. -/
def kindOfChar (c : Char) : ℕ :=
  if c = 'n' then 0
  else if c = 't' ∨ c = 'f' then 1
  else if c = '"' then 2
  else if c = '[' then 3
  else if c = '\x7b' then 4
  else 5

def kind : Value → ℕ
  | null => 0
  | bool _ => 1
  | string _ => 2
  | array _ => 3
  | object _ => 4
  | number _ => 5

theorem kindOfChar_of_isDigit (h : c.isDigit = true) : kindOfChar c = 5 := by
  have hne : ∀ d : Char, d.isDigit = false → c ≠ d := by
    rintro d hd rfl
    rw [h] at hd
    cases hd
  unfold kindOfChar
  rw [if_neg (hne _ (by decide)), if_neg (not_or.mpr ⟨hne _ (by decide), hne _ (by decide)⟩),
    if_neg (hne _ (by decide)), if_neg (hne _ (by decide)), if_neg (hne _ (by decide))]

theorem exists_prettyAt_eq (depth : ℕ) (v : Value) :
    ∃ c rest, prettyAt depth v = c :: rest ∧ kindOfChar c = v.kind := by
  cases v with
  | null => exact ⟨'n', _, rfl, rfl⟩
  | bool b =>
    cases b with
    | true => exact ⟨'t', _, rfl, rfl⟩
    | false => exact ⟨'f', _, rfl, rfl⟩
  | number n =>
    obtain ⟨c, rest, htext⟩ := List.exists_cons_of_ne_nil (Nat.toDigits_ne_nil : Text.ofNat n ≠ [])
    have hdigit : c.isDigit = true := Text.isDigit_of_mem_ofNat (htext ▸ List.mem_cons_self)
    exact ⟨c, rest, htext, kindOfChar_of_isDigit hdigit⟩
  | string t => exact ⟨'"', _, rfl, rfl⟩
  | array items => cases items <;> exact ⟨'[', _, rfl, rfl⟩
  | object members => rcases members with _ | ⟨⟨key, v⟩, members⟩ <;> exact ⟨'\x7b', _, rfl, rfl⟩

theorem kind_eq_of_prettyAt {depth : ℕ} {v w : Value}
    (h : prettyAt depth v ++ r = prettyAt depth w ++ r') : v.kind = w.kind := by
  obtain ⟨c, rest, hv, hc⟩ := exists_prettyAt_eq depth v
  obtain ⟨d, rest', hw, hd⟩ := exists_prettyAt_eq depth w
  rw [hv, hw] at h
  rw [← hc, ← hd, (List.cons.inj h).1]

/-- The text of a value at some depth tells the value, whatever follows. -/
def Readable (v : Value) : Prop :=
  ∀ ⦃depth : ℕ⦄ ⦃w : Value⦄ ⦃r r' : Text⦄, NoDigitHead r → NoDigitHead r' →
    prettyAt depth v ++ r = prettyAt depth w ++ r' → v = w ∧ r = r'

theorem noDigitHead_cons (h : c.isDigit = false) (t : Text) : NoDigitHead (c :: t) := by
  rintro d hd
  cases hd
  exact h

theorem noDigitHead_prettyItems (depth : ℕ) (vs : List Value) (t : Text) :
    NoDigitHead (prettyItems depth vs ++ '\n' :: t) := by
  cases vs with
  | nil => exact noDigitHead_cons (by decide) t
  | cons v vs => exact noDigitHead_cons (c := ',') (by decide) _

theorem noDigitHead_prettyMembers (depth : ℕ) (members : Members) (t : Text) :
    NoDigitHead (prettyMembers depth members ++ '\n' :: t) := by
  rcases members with _ | ⟨⟨key, v⟩, members⟩
  · exact noDigitHead_cons (by decide) t
  · exact noDigitHead_cons (c := ',') (by decide) _

/-- The items behind the first one, up to the end of the array. -/
theorem prettyItems_append_inj {depth : ℕ} {vs ws : List Value} (hvs : ∀ v ∈ vs, Readable v)
    (h : prettyItems depth vs ++ '\n' :: r = prettyItems depth ws ++ '\n' :: r') :
    vs = ws ∧ r = r' := by
  induction vs generalizing ws with
  | nil =>
    cases ws with
    | nil => exact ⟨rfl, (List.cons.inj h).2⟩
    | cons w ws => cases h
  | cons v vs ih =>
    obtain ⟨hv, hvs⟩ := List.forall_mem_cons.mp hvs
    cases ws with
    | nil => cases h
    | cons w ws =>
      rw [prettyItems_cons, prettyItems_cons] at h
      have hitem := List.append_cancel_left (List.cons.inj h).2
      obtain ⟨rfl, hrest⟩ :=
        hv (noDigitHead_prettyItems _ _ _) (noDigitHead_prettyItems _ _ _) hitem
      obtain ⟨rfl, rfl⟩ := ih hvs hrest
      exact ⟨rfl, rfl⟩

/-- The members behind the first one, up to the end of the object. -/
theorem prettyMembers_append_inj {depth : ℕ} {ms ns : Members} (hms : ∀ m ∈ ms, Readable m.2)
    (h : prettyMembers depth ms ++ '\n' :: r = prettyMembers depth ns ++ '\n' :: r') :
    ms = ns ∧ r = r' := by
  induction ms generalizing ns with
  | nil =>
    rcases ns with _ | ⟨⟨key, w⟩, ns⟩
    · exact ⟨rfl, (List.cons.inj h).2⟩
    · cases h
  | cons m ms ih =>
    obtain ⟨key, v⟩ := m
    obtain ⟨hm, hrests⟩ := List.forall_mem_cons.mp hms
    rcases ns with _ | ⟨⟨key', w⟩, ns⟩
    · cases h
    · rw [prettyMembers_cons, prettyMembers_cons] at h
      obtain ⟨rfl, hmember⟩ := quoted_append_inj (List.append_cancel_left (List.cons.inj h).2)
      have hvalue := (List.cons.inj (List.cons.inj hmember).2).2
      obtain ⟨rfl, hrest⟩ :=
        hm (noDigitHead_prettyMembers _ _ _) (noDigitHead_prettyMembers _ _ _) hvalue
      obtain ⟨rfl, rfl⟩ := ih hrests hrest
      exact ⟨rfl, rfl⟩

theorem array_append_inj {depth : ℕ} {vs ws : List Value} (hvs : ∀ v ∈ vs, Readable v)
    (h : prettyAt depth (array vs) ++ r = prettyAt depth (array ws) ++ r') : vs = ws ∧ r = r' := by
  cases vs with
  | nil =>
    cases ws with
    | nil => exact ⟨rfl, List.append_cancel_left h⟩
    | cons w ws =>
      rw [prettyAt_array_cons] at h
      cases h
  | cons v vs =>
    obtain ⟨hv, hvs⟩ := List.forall_mem_cons.mp hvs
    cases ws with
    | nil =>
      rw [prettyAt_array_cons] at h
      cases h
    | cons w ws =>
      rw [prettyAt_array_cons, prettyAt_array_cons] at h
      have hitem := List.append_cancel_left (List.cons.inj h).2
      obtain ⟨rfl, hrest⟩ :=
        hv (noDigitHead_prettyItems _ _ _) (noDigitHead_prettyItems _ _ _) hitem
      obtain ⟨rfl, hend⟩ := prettyItems_append_inj hvs hrest
      exact ⟨rfl, (List.cons.inj (List.append_cancel_left hend)).2⟩

theorem object_append_inj {depth : ℕ} {ms ns : Members} (hms : ∀ m ∈ ms, Readable m.2)
    (h : prettyAt depth (object ms) ++ r = prettyAt depth (object ns) ++ r') :
    ms = ns ∧ r = r' := by
  rcases ms with _ | ⟨⟨key, v⟩, ms⟩
  · rcases ns with _ | ⟨⟨key', w⟩, ns⟩
    · exact ⟨rfl, List.append_cancel_left h⟩
    · rw [prettyAt_object_cons] at h
      cases h
  · obtain ⟨hm, hms⟩ := List.forall_mem_cons.mp hms
    rcases ns with _ | ⟨⟨key', w⟩, ns⟩
    · rw [prettyAt_object_cons] at h
      cases h
    · rw [prettyAt_object_cons, prettyAt_object_cons] at h
      obtain ⟨rfl, hmember⟩ := quoted_append_inj (List.append_cancel_left (List.cons.inj h).2)
      have hvalue := (List.cons.inj (List.cons.inj hmember).2).2
      obtain ⟨rfl, hrest⟩ :=
        hm (noDigitHead_prettyMembers _ _ _) (noDigitHead_prettyMembers _ _ _) hvalue
      obtain ⟨rfl, hend⟩ := prettyMembers_append_inj hms hrest
      exact ⟨rfl, (List.cons.inj (List.append_cancel_left hend)).2⟩

/-- Every value can be told from its text. -/
theorem readable (v : Value) : Readable v := by
  induction v with
  | null =>
    intro depth w r r' _ _ h
    have hkind := kind_eq_of_prettyAt h
    cases w with
    | null => exact ⟨rfl, List.append_cancel_left h⟩
    | _ => cases hkind
  | bool b =>
    intro depth w r r' _ _ h
    have hkind := kind_eq_of_prettyAt h
    cases w with
    | bool b' => exact (bool_append_inj h).imp_left (congrArg bool)
    | _ => cases hkind
  | number n =>
    intro depth w r r' hr hr' h
    have hkind := kind_eq_of_prettyAt h
    cases w with
    | number n' => exact (ofNat_append_inj hr hr' h).imp_left (congrArg number)
    | _ => cases hkind
  | string t =>
    intro depth w r r' _ _ h
    have hkind := kind_eq_of_prettyAt h
    cases w with
    | string t' => exact (quoted_append_inj h).imp_left (congrArg string)
    | _ => cases hkind
  | array items ih =>
    intro depth w r r' _ _ h
    have hkind := kind_eq_of_prettyAt h
    cases w with
    | array items' => exact (array_append_inj ih h).imp_left (congrArg array)
    | _ => cases hkind
  | object members ih =>
    intro depth w r r' _ _ h
    have hkind := kind_eq_of_prettyAt h
    cases w with
    | object members' => exact (object_append_inj ih h).imp_left (congrArg object)
    | _ => cases hkind

theorem pretty_injective : Function.Injective pretty := by
  intro v w h
  have hnil : NoDigitHead [] := by
    rintro c hc
    cases hc
  have hempty : prettyAt 0 v ++ [] = prettyAt 0 w ++ [] := congrArg (· ++ []) h
  exact (readable v hnil hnil hempty).1

end ClassSchema.Json.Value
