import ClassSchema.Proofs.ClassMembers
import ClassSchema.Proofs.ConversionLines
import ClassSchema.Proofs.StructLines
import ClassSchema.Toml.Scalar

/-!
# Quoted text in generated code

The values of tags go into two kinds of literals as they are: into the raw strings of a
struct, where a backtick ends the literal and a carriage return is dropped, and into the
keys of a class, where a backslash begins an escape sequence and no line may end. Both
kinds are read here by the rules of their languages, so that it can be said which values
come back.
-/

namespace ClassSchema

variable {m : Model} {f : Field} {target : TagTarget}

namespace Go

/-- The value of the raw string at the head of a text, with what follows it. Every character
but the backtick stands for itself, except that carriage returns are dropped. -/
def rawString? : Text → Option (Text × Text)
  | '\x60' :: t =>
    match t.dropWhile (· != '\x60') with
    | _ :: rest => some ((t.takeWhile (· != '\x60')).filter (· != '\r'), rest)
    | [] => none
  | _ => none

/-- A quoted text comes back exactly if nothing in it ends the literal or is dropped. -/
theorem rawString?_eq_iff (body rest : Text) :
    rawString? ('\x60' :: (body ++ '\x60' :: rest)) = some (body, rest) ↔
      '\x60' ∉ body ∧ '\r' ∉ body := by
  constructor
  · intro h
    -- Neither a backtick nor a carriage return is ever in the value.
    have hvalue : ∃ t : Text, body = (t.takeWhile (· != '\x60')).filter (· != '\r') := by
      unfold rawString? at h
      split at h
      · split at h
        · exact ⟨_, (Prod.mk.inj (Option.some.inj h)).1.symm⟩
        · cases h
      · cases h
    obtain ⟨t, rfl⟩ := hvalue
    constructor
    · intro hmem
      simpa using List.mem_takeWhile_imp (List.mem_of_mem_filter hmem)
    · simp
  · rintro ⟨hbacktick, hreturn⟩
    have hfilter : body.filter (· != '\r') = body := by
      refine List.filter_eq_self.mpr fun c hc => ?_
      simpa using ne_of_mem_of_not_mem hc hreturn
    simp [rawString?, Text.takeWhile_ne_append hbacktick, Text.dropWhile_ne_append hbacktick,
      hfilter]

end Go

namespace TypeScript

def codeUnits (n : ℕ) : List ℕ :=
  if n < 0x10000 then [n]
  else [0xD800 + (n - 0x10000) / 0x400, 0xDC00 + (n - 0x10000) % 0x400]

def units (t : Text) : List ℕ := t.flatMap fun c => codeUnits c.toNat

theorem units_cons (c : Char) (t : Text) : units (c :: t) = codeUnits c.toNat ++ units t :=
  List.flatMap_cons

theorem one_le_length_codeUnits (n : ℕ) : 1 ≤ (codeUnits n).length := by
  unfold codeUnits
  split_ifs <;> simp

theorem length_codeUnits_le (n : ℕ) : (codeUnits n).length ≤ 2 := by
  unfold codeUnits
  split_ifs <;> simp

/-- Where the reader of a string literal stands. -/
inductive Reading where
  | plain
  /-- Behind a backslash. -/
  | escape
  /-- Behind the escape sequence of the null character, which no digit may follow. -/
  | zero
  /-- Behind a backslash and a carriage return, which a newline may complete. -/
  | continued
  /-- In front of a digit of a code unit, with the number of further digits. -/
  | digits (further value : ℕ)
  /-- In front of the first digit of a code unit, or of the brace of a code point. -/
  | unicode
  /-- Within the braces of a code point. -/
  | braced (value : Option ℕ)
deriving DecidableEq

namespace Reading

/-- The letters that stand for control characters behind a backslash. -/
def controls : List (Char × ℕ) :=
  [('b', 0x08), ('t', 0x09), ('n', 0x0A), ('v', 0x0B), ('f', 0x0C), ('r', 0x0D)]

def stepPlain (c : Char) : Option (Reading × List ℕ) :=
  if c = '\\' then some (escape, [])
  else if c = '\n' ∨ c = '\r' then none
  else some (plain, codeUnits c.toNat)

def stepEscape (c : Char) : Option (Reading × List ℕ) :=
  if c = '0' then some (zero, [0])
  else if c = 'x' then some (digits 1 0, [])
  else if c = 'u' then some (unicode, [])
  else if c = '\r' then some (continued, [])
  else if c = '\n' ∨ c = '\u2028' ∨ c = '\u2029' then some (plain, [])
  else if c.isDigit then none
  else some (plain, (controls.lookup c).elim (codeUnits c.toNat) ([·]))

def stepDigit (further value : ℕ) (c : Char) : Option (Reading × List ℕ) :=
  (Toml.hexValue? c).map fun digit =>
    match further with
    | 0 => (plain, [16 * value + digit])
    | further + 1 => (digits further (16 * value + digit), [])

def stepBraced (value : Option ℕ) (c : Char) : Option (Reading × List ℕ) :=
  if c = '\x7d' then
    (value.filter (· ≤ 0x10FFFF)).map fun n => (plain, codeUnits n)
  else (Toml.hexValue? c).map fun digit => (braced (some (16 * value.getD 0 + digit)), [])

/-- What a character adds to the value, and where the reader stands behind it. -/
def step : Reading → Char → Option (Reading × List ℕ)
  | plain, c => stepPlain c
  | escape, c => stepEscape c
  | zero, c => if c.isDigit then none else stepPlain c
  | continued, c => if c = '\n' then some (plain, []) else stepPlain c
  | digits further value, c => stepDigit further value c
  | unicode, c => if c = '\x7b' then some (braced none, []) else stepDigit 3 0 c
  | braced value, c => stepBraced value c

/-- No escape sequence is open, so that a quotation mark ends the literal. -/
def isBetween : Reading → Bool
  | plain | zero | continued => true
  | escape | digits .. | unicode | braced _ => false

/-- The value of the rest of a string literal, with what follows the literal. -/
def read? : Reading → Text → Option (List ℕ × Text)
  | _, [] => none
  | s, c :: t =>
    if c = '"' ∧ s.isBetween then some ([], t)
    else (s.step c).bind fun next => (next.1.read? t).map fun read => (next.2 ++ read.1, read.2)

/-- How many code units may still come for characters that have been read. A code point in
braces may have two, of which the opening brace pays for one. -/
def pending : Reading → ℕ
  | braced _ => 1
  | plain | escape | zero | continued | digits .. | unicode => 0

section Bounds

variable {s s' : Reading} {c : Char} {us : List ℕ}

theorem length_stepPlain_le (h : stepPlain c = some (s', us)) :
    us.length + s'.pending ≤ (codeUnits c.toNat).length := by
  unfold stepPlain at h
  split_ifs at h <;> cases h <;> simp [pending]

theorem length_stepEscape_le (h : stepEscape c = some (s', us)) :
    us.length + s'.pending ≤ (codeUnits c.toNat).length := by
  have hone := one_le_length_codeUnits c.toNat
  unfold stepEscape at h
  split_ifs at h <;> cases h <;> simp only [pending, List.length_nil, List.length_singleton] <;>
    try omega
  cases controls.lookup c <;> simp [hone]

theorem length_stepDigit_le {further value : ℕ} (h : stepDigit further value c = some (s', us)) :
    us.length + s'.pending ≤ (codeUnits c.toNat).length := by
  have hone := one_le_length_codeUnits c.toNat
  obtain ⟨digit, -, hstep⟩ := Option.map_eq_some_iff.mp h
  cases further <;> cases hstep <;> simp [pending, hone]

theorem length_stepBraced_le {value : Option ℕ} (h : stepBraced value c = some (s', us)) :
    us.length + s'.pending ≤ (codeUnits c.toNat).length + 1 := by
  have hone := one_le_length_codeUnits c.toNat
  unfold stepBraced at h
  split_ifs at h
  · obtain ⟨n, -, hstep⟩ := Option.map_eq_some_iff.mp h
    have htwo := length_codeUnits_le n
    cases hstep
    rw [pending]
    omega
  · obtain ⟨digit, -, hstep⟩ := Option.map_eq_some_iff.mp h
    cases hstep
    simp [pending]

/-- A character adds at most as many code units as it has. -/
theorem length_step_le (h : s.step c = some (s', us)) :
    us.length + s'.pending ≤ (codeUnits c.toNat).length + s.pending := by
  have hone := one_le_length_codeUnits c.toNat
  cases s with
  | plain => exact length_stepPlain_le h
  | escape => exact length_stepEscape_le h
  | zero =>
    rw [step] at h
    split_ifs at h
    exact length_stepPlain_le h
  | continued =>
    rw [step] at h
    split_ifs at h
    · cases h
      simp [pending]
    · exact length_stepPlain_le h
  | digits further value => exact length_stepDigit_le h
  | unicode =>
    rw [step] at h
    split_ifs at h
    · cases h
      simpa [pending] using hone
    · exact length_stepDigit_le h
  | braced value => exact length_stepBraced_le h

end Bounds

theorem read?_cons {s : Reading} {c : Char} {t rest : Text} {v : List ℕ}
    (h : s.read? (c :: t) = some (v, rest)) :
    (c = '"' ∧ v = [] ∧ rest = t) ∨
      ∃ s' us vs, s.step c = some (s', us) ∧ s'.read? t = some (vs, rest) ∧ v = us ++ vs := by
  rw [read?] at h
  split_ifs at h with hend
  · cases h
    exact .inl ⟨hend.1, rfl, rfl⟩
  · obtain ⟨⟨s', us⟩, hstep, h⟩ := Option.bind_eq_some_iff.mp h
    obtain ⟨⟨vs, rest'⟩, hread, h⟩ := Option.map_eq_some_iff.mp h
    cases h
    exact .inr ⟨s', us, vs, hstep, hread, rfl⟩

theorem length_read?_le {s : Reading} {t rest : Text} {v : List ℕ}
    (h : s.read? t = some (v, rest)) :
    v.length + (units rest).length + 1 ≤ (units t).length + s.pending := by
  induction t generalizing s v with
  | nil => cases h
  | cons c t ih =>
    rw [units_cons, List.length_append]
    have hone := one_le_length_codeUnits c.toNat
    rcases read?_cons h with ⟨-, rfl, rfl⟩ | ⟨s', us, vs, hstep, hread, rfl⟩
    · rw [List.length_nil]
      omega
    · have hus := length_step_le hstep
      have hvs := ih hread
      rw [List.length_append]
      omega

/-- A character that stands for itself is read as itself. -/
theorem read?_cons_eq_iff {c : Char} (hquote : c ≠ '"') (hescape : c ≠ '\\')
    (hend : ¬ (c = '\n' ∨ c = '\r')) {t key rest : Text} :
    plain.read? (c :: t) = some (units (c :: key), rest) ↔
      plain.read? t = some (units key, rest) := by
  let add (read : List ℕ × Text) : List ℕ × Text := (codeUnits c.toNat ++ read.1, read.2)
  have hadd : Function.Injective add := by
    rintro ⟨v, r⟩ ⟨v', r'⟩ h
    obtain ⟨hv, hr⟩ := Prod.mk.inj h
    exact Prod.ext (List.append_cancel_left hv) hr
  have hread : plain.read? (c :: t) = (plain.read? t).map add := by
    rw [read?, if_neg (by simp [hquote]), step, stepPlain, if_neg hescape, if_neg hend,
      Option.bind_some]
  have hunits : some (units (c :: key), rest) = (some (units key, rest)).map add := by
    rw [units_cons]
    rfl
  rw [hread, hunits]
  exact (Option.map_injective hadd).eq_iff

theorem read?_backslash_ne (key rest : Text) :
    plain.read? ('\\' :: (key ++ '"' :: rest)) ≠ some (units ('\\' :: key), rest) := by
  intro h
  rcases read?_cons h with ⟨hend, -⟩ | ⟨s', us, vs, hstep, hread, hvalue⟩
  · exact absurd hend (by decide)
  · cases hstep
    have hle := length_read?_le hread
    have hlength : vs.length = (units ('\\' :: key)).length := by rw [hvalue, List.nil_append]
    simp [units, pending, codeUnits] at hle hlength
    omega

theorem read?_eq_iff {key : Text} (hquote : '"' ∉ key) (rest : Text) :
    plain.read? (key ++ '"' :: rest) = some (units key, rest) ↔
      '\\' ∉ key ∧ '\n' ∉ key ∧ '\r' ∉ key := by
  induction key with
  | nil => simp [read?, isBetween, units]
  | cons c key ih =>
    obtain ⟨hc, hkey⟩ := List.ne_and_not_mem_of_not_mem_cons hquote
    rw [List.cons_append]
    by_cases hescape : c = '\\'
    · subst hescape
      exact iff_of_false (read?_backslash_ne key rest) (by simp)
    · by_cases hend : c = '\n' ∨ c = '\r'
      · have hnone : plain.read? (c :: (key ++ '"' :: rest)) = none := by
          rw [read?, if_neg (by simp [Ne.symm hc]), step, stepPlain, if_neg hescape, if_pos hend]
          rfl
        rw [hnone]
        rcases hend with rfl | rfl <;> simp
      · rw [read?_cons_eq_iff (Ne.symm hc) hescape hend, ih hkey]
        obtain ⟨hline, hreturn⟩ := not_or.mp hend
        simp [Ne.symm hescape, Ne.symm hline, Ne.symm hreturn]

end Reading

/-- The value of the string literal at the head of a text, in code units, with what follows
the literal. -/
def stringLiteral? : Text → Option (List ℕ × Text)
  | '"' :: t => Reading.plain.read? t
  | _ => none

theorem stringLiteral?_eq_iff {key : Text} (h : '"' ∉ key) (rest : Text) :
    stringLiteral? ('"' :: (key ++ '"' :: rest)) = some (units key, rest) ↔
      '\\' ∉ key ∧ '\n' ∉ key ∧ '\r' ∉ key :=
  Reading.read?_eq_iff h rest

example : stringLiteral? "\"\\u\x7b1F600\x7d\\x41\\n\"]" =
    some ([0xD83D, 0xDE00, 0x41, 0x0A], [']']) := by
  decide +kernel

end TypeScript

section Marks

variable {c : Char} (hword : isTargetChar c = false) (hmarks : c ∉ (":\", " : Text))
include hword hmarks

theorem Entry.mem_render_iff {e : Entry} : c ∈ e.render ↔ c ∈ e.text := by
  have hmark {t : Text} (ht : t.Sublist (":\", " : Text)) : c ∉ t := fun h => hmarks (ht.subset h)
  have htarget : c ∉ e.target.text := by
    intro hmem
    rw [e.target.isTargetChar_of_mem hmem] at hword
    cases hword
  have hopen : c ∉ (":\"" : Text) := hmark (by decide)
  have hclose : c ∉ ("\"" : Text) := hmark (by decide)
  simp only [render, List.mem_append, htarget, hopen, hclose, false_or, or_false]

theorem Entry.mem_text_ofTag_iff {tag : Tag} :
    c ∈ (ofTag tag).text ↔ ∃ value ∈ tag.values, c ∈ value := by
  have hcomma : c ≠ ',' := fun h => hmarks (by simp [h])
  have homit : c ∉ omitEmpty := by
    intro hmem
    rw [List.all_eq_true.mp (by decide : omitEmpty.all isTargetChar = true) c hmem] at hword
    cases hword
  rw [← Tag.mem_joinedValues_iff hcomma]
  cases hnullable : tag.nullable <;> simp [ofTag, hnullable, hcomma, homit]

/-- A character that no target and no punctuation has comes from a value. -/
theorem mem_renderEntries_iff {targets : List TagTarget} {tags : List Tag} :
    c ∈ renderEntries targets tags ↔ ∃ tag ∈ tags, ∃ value ∈ tag.values, c ∈ value := by
  have hspace : c ∉ (" " : Text) := by
    intro h
    exact hmarks ((by decide : (" " : Text).Sublist (":\", " : Text)).subset h)
  constructor
  · intro h
    rcases Text.mem_joined h with ⟨t, ht, hc⟩ | h
    · obtain ⟨e, he, rfl⟩ := List.mem_map.mp ht
      rw [Entry.mem_render_iff hword hmarks] at hc
      rw [entries_eq] at he
      rcases List.mem_append.mp he with he | he
      · obtain ⟨tag, htag, rfl⟩ := List.mem_map.mp he
        exact ⟨tag, htag, (Entry.mem_text_ofTag_iff hword hmarks).mp hc⟩
      · obtain ⟨target, -, rfl⟩ := List.mem_map.mp he
        obtain rfl : c = '-' := List.mem_singleton.mp hc
        exact absurd hword (by decide)
    · exact absurd h hspace
  · rintro ⟨tag, htag, hvalue⟩
    have he : Entry.ofTag tag ∈ entries targets tags :=
      List.mem_append_left _ (List.mem_map_of_mem htag)
    apply Text.mem_joined_of_mem (List.mem_map_of_mem he)
    rw [Entry.mem_render_iff hword hmarks, Entry.mem_text_ofTag_iff hword hmarks]
    exact hvalue

end Marks

/-- The tag string of a field on its line. -/
structure Go.Quotes (m : Model) (f : Field) (line : Text) : Prop where
  block : line.drop (Go.tagColumn m) = '\x60' :: (renderEntries m.targets f.tags ++ ['\x60'])
  /-- There is a backtick within the outer ones exactly if a value has one. -/
  backtick_iff : '\x60' ∈ renderEntries m.targets f.tags ↔
    ∃ tag ∈ f.tags, ∃ value ∈ tag.values, '\x60' ∈ value
  /-- What the literal means. -/
  rawString_iff : Go.rawString? (line.drop (Go.tagColumn m)) =
      some (renderEntries m.targets f.tags, []) ↔
    ∀ tag ∈ f.tags, ∀ value ∈ tag.values, '\x60' ∉ value ∧ '\r' ∉ value

theorem Go.quotes_structLine (hf : f ∈ m.fields) (htargets : m.targets ≠ []) :
    Go.Quotes m f (Go.structLine m f) := by
  have hblock : (structLine m f).drop (tagColumn m) =
      '\x60' :: (renderEntries m.targets f.tags ++ ['\x60']) := by
    rw [drop_tagColumn hf, renderTags_eq htargets]
  have hbacktick : '\x60' ∈ renderEntries m.targets f.tags ↔ _ :=
    mem_renderEntries_iff (by decide) (by decide)
  have hreturn : '\r' ∈ renderEntries m.targets f.tags ↔ _ :=
    mem_renderEntries_iff (by decide) (by decide)
  refine ⟨hblock, hbacktick, ?_⟩
  rw [hblock, rawString?_eq_iff, hbacktick, hreturn]
  constructor
  · rintro ⟨hbacktick, hreturn⟩ tag htag value hvalue
    exact ⟨fun h => hbacktick ⟨tag, htag, value, hvalue, h⟩,
      fun h => hreturn ⟨tag, htag, value, hvalue, h⟩⟩
  · intro h
    constructor
    · rintro ⟨tag, htag, value, hvalue, hmem⟩
      exact (h tag htag value hvalue).1 hmem
    · rintro ⟨tag, htag, value, hvalue, hmem⟩
      exact (h tag htag value hvalue).2 hmem

namespace TypeScript

def ArgumentText.key? : ArgumentText → Option Text
  | read key _ => some key
  | constant _ => none

/-- The keys between quotation marks on the lines of the two methods of a target. -/
def quotedKeys (toLines fromLines : List Text) : List Text :=
  (statementsOf toLines).map Assignment.key ++ (argumentsOf fromLines).filterMap ArgumentText.key?

/-- On the line an object is indexed by a literal with the key between its quotation marks. -/
def IndexedBy (object key line : Text) : Prop :=
  ∃ before rest : Text, line = before ++ object ++ '[' :: '"' :: (key ++ '"' :: ']' :: rest)

/-- A key in the methods of a target. -/
structure Quotes (m : Model) (target : TagTarget) (key : Text) : Prop where
  stored : ∃ line ∈ toLines m target, IndexedBy "out" key line
  passed : ∃ line ∈ fromLines m target, IndexedBy "data" key line
  tag : ∃ f ∈ m.fields, ∃ tag ∈ f.tags, tag.target = target ∧ tag.key = key
  quote_not_mem : '"' ∉ key
  newline_not_mem : '\n' ∉ key
  /-- What the literal means, whatever follows it. -/
  stringLiteral_iff (rest : Text) :
    stringLiteral? ('"' :: (key ++ '"' :: rest)) = some (units key, rest) ↔
      '\\' ∉ key ∧ '\r' ∉ key

theorem IndexedBy.indented {object key line : Text} (h : IndexedBy object key line) (depth : ℕ) :
    IndexedBy object key (indented depth line) := by
  obtain ⟨before, rest, rfl⟩ := h
  refine ⟨List.replicate (4 * depth) ' ' ++ before, rest, ?_⟩
  rw [TypeScript.indented, ← List.append_assoc, ← List.append_assoc]

theorem indexedBy_assignment (a : Assignment) : IndexedBy "out" a.key a.render := by
  have hopen : ("out[\"" : Text) = ("out" : Text) ++ ['[', '"'] := by decide
  have hclose : ("\"] = this." : Text) = ['"', ']'] ++ (" = this." : Text) := by decide
  refine ⟨if a.guarded then "if (this." ++ a.field.text ++ ") " else [],
    (" = this." : Text) ++ a.field.text ++ ";", ?_⟩
  rw [Assignment.render, hopen, hclose]
  simp only [List.append_assoc, List.cons_append, List.nil_append]

theorem indexedBy_argument (key : Text) (fallback : Option Default) :
    IndexedBy "data" key ((Argument.read key fallback).render ++ ",") := by
  have hopen : ("data[\"" : Text) = ("data" : Text) ++ ['[', '"'] := by decide
  cases fallback with
  | none =>
    have hrender : (Argument.read key none).render = "data[\"" ++ key ++ ['"', ']'] := rfl
    refine ⟨[], ",", ?_⟩
    rw [hrender, hopen]
    simp only [List.append_assoc, List.cons_append, List.nil_append]
  | some fallback =>
    have hrender : (Argument.read key (some fallback)).render =
        "data[\"" ++ key ++ ('"' :: ']' :: (" ?? " : Text)) ++ fallback.render := rfl
    refine ⟨[], (" ?? " : Text) ++ fallback.render ++ ",", ?_⟩
    rw [hrender, hopen]
    simp only [List.append_assoc, List.cons_append, List.nil_append]

theorem exists_line_stored (hf : f ∈ m.fields) {tag : Tag}
    (hactive : activeTag? target f = some tag) :
    ∃ line ∈ toLines m target, IndexedBy "out" tag.key line := by
  let a : Assignment := ⟨tag.key, f.name, tag.nullable⟩
  have ha : a ∈ assignments m target :=
    List.mem_filterMap.mpr ⟨f, hf, by rw [Assignment.ofField?, hactive, Option.map_some]⟩
  refine ⟨_, ?_, (indexedBy_assignment a).indented 2⟩
  exact List.mem_append_left _ (List.mem_append_right _ (List.mem_map_of_mem ha))

theorem exists_line_passed (hf : f ∈ m.fields) {tag : Tag}
    (hactive : activeTag? target f = some tag) :
    ∃ line ∈ fromLines m target, IndexedBy "data" tag.key line := by
  have ha : Argument.ofField target f ∈ arguments m target := List.mem_map_of_mem hf
  rw [argument_eq_read hactive] at ha
  exact ⟨_, List.mem_append_left _ (List.mem_append_right _ (List.mem_map_of_mem ha)),
    (indexedBy_argument tag.key _).indented 3⟩

theorem quotes_key (h : m.WellFormed) (hf : f ∈ m.fields) {tag : Tag}
    (hactive : activeTag? target f = some tag) : Quotes m target tag.key := by
  have hfield := h.fields f hf
  obtain ⟨htag, htarget, -⟩ := (activeTag?_eq_some_iff hfield.targets_nodup).mp hactive
  have hwritable := hfield.writable tag htag
  have hnewline := newline_not_mem_key hwritable
  have hquote : '"' ∉ tag.key := by
    obtain ⟨v, vs, hvalues⟩ := List.exists_cons_of_ne_nil hwritable.1
    have hv := (hwritable.2 v (by simp [hvalues])).1
    rwa [Tag.key, hvalues, List.headD_cons]
  refine ⟨exists_line_stored hf hactive, exists_line_passed hf hactive,
    ⟨f, hf, tag, htag, htarget, rfl⟩, hquote, hnewline, fun rest => ?_⟩
  rw [stringLiteral?_eq_iff hquote]
  simp [hnewline]

theorem exists_activeTag?_of_mem_quotedKeys {key : Text}
    (h : key ∈ quotedKeys (toLines m target) (fromLines m target)) :
    ∃ f ∈ m.fields, ∃ tag, activeTag? target f = some tag ∧ tag.key = key := by
  rw [quotedKeys, statementsOf_toLines, argumentsOf_fromLines] at h
  rcases List.mem_append.mp h with h | h
  · obtain ⟨a, ha, rfl⟩ := List.mem_map.mp h
    obtain ⟨f, hf, hassign⟩ := List.mem_filterMap.mp ha
    obtain ⟨tag, htag, rfl⟩ := Option.map_eq_some_iff.mp hassign
    exact ⟨f, hf, tag, htag, rfl⟩
  · obtain ⟨text, htext, hkey⟩ := List.mem_filterMap.mp h
    obtain ⟨a, ha, rfl⟩ := List.mem_map.mp htext
    obtain ⟨f, hf, rfl⟩ := List.mem_map.mp ha
    cases htext : (Argument.ofField target f).text with
    | constant value =>
      rw [htext] at hkey
      cases hkey
    | read key' fallback =>
      rw [htext] at hkey
      cases hkey
      obtain ⟨tag, htag, hkey, -⟩ := text_argument_eq_read_iff.mp htext
      exact ⟨f, hf, tag, htag, hkey⟩

theorem mem_splitOn_renderModel (h : m.WellFormed) (htarget : target ∈ m.targets) {line : Text}
    (hline : line ∈ toLines m target ++ fromLines m target) :
    line ∈ Text.splitOn '\n' (renderModel m) := by
  obtain ⟨hto, hfrom⟩ := mem_sections htarget
  rw [splitOn_renderModel h, codeLines]
  apply List.mem_cons_of_mem
  apply List.mem_append_left
  rcases List.mem_append.mp hline with hline | hline
  · exact mem_separated_of_mem hto hline
  · exact mem_separated_of_mem hfrom hline

end TypeScript

/-- In the code of a model that was read, a tag string has a backtick within it exactly if a
value has one, and a key never has a quotation mark or a newline. The literals mean the text
that they were built from exactly if, in a tag string, no value has a backtick or a carriage
return and, in a key, there is no backslash and no carriage return. -/
theorem read_quotes {strict : Bool} {source : Text} (hread : Model.read strict source = .ok m) :
    (∀ code, Go.generate m = .ok code → m.targets ≠ [] →
      ∃ header rows closing, code = (header :: (rows ++ [closing])).flatMap (· ++ ['\n']) ∧
        (∀ line ∈ header :: (rows ++ [closing]), '\n' ∉ line) ∧
        List.Forall₂ (Go.Quotes m) m.fields rows) ∧
      ∀ code, TypeScript.generate m = .ok code → ∀ target ∈ m.targets,
        let toLines := TypeScript.toLines m target
        let fromLines := TypeScript.fromLines m target
        (∀ line ∈ toLines ++ fromLines, line ∈ Text.splitOn '\n' code) ∧
          ∀ key ∈ TypeScript.quotedKeys toLines fromLines, TypeScript.Quotes m target key := by
  have hmodel := Model.wellFormed_of_read hread
  constructor
  · intro code hcode htargets
    have hwords := Go.isWordLine_structLines hmodel
    refine ⟨_, m.fields.map (Go.structLine m), _, ?_, fun line hline => (hwords line hline).1, ?_⟩
    · obtain ⟨-, rfl⟩ := (Language.generate_eq_ok_iff .go).mp hcode
      exact Go.renderModel_eq_structLines m
    · rw [List.forall₂_map_right_iff, List.forall₂_same]
      intro f hf
      exact Go.quotes_structLine hf htargets
  · intro code hcode target htarget
    obtain ⟨-, rfl⟩ := TypeScript.generate_eq_ok_iff.mp hcode
    refine ⟨fun line => TypeScript.mem_splitOn_renderModel hmodel htarget, fun key hkey => ?_⟩
    obtain ⟨f, hf, tag, htag, rfl⟩ := TypeScript.exists_activeTag?_of_mem_quotedKeys hkey
    exact TypeScript.quotes_key hmodel hf htag

/-- A key with characters of several kinds, a nullable tag, and a tag string without a
backtick. -/
theorem read_quotes_plain :
    let source : Text := "User:\n  id int json?:\"größe 😀'\" db:\"k,x\"\n"
    let json : TagTarget := ⟨"json", rfl⟩
    let key : Text := "größe 😀'"
    ∃ m f line code code', Model.read false source = .ok m ∧ m.fields = [f] ∧
      Go.generate m = .ok code ∧ TypeScript.generate m = .ok code' ∧ Go.Quotes m f line ∧
      Go.rawString? (line.drop (Go.tagColumn m)) = some (renderEntries m.targets f.tags, []) ∧
      TypeScript.Quotes m json key ∧
      ∀ rest, TypeScript.stringLiteral? ('"' :: (key ++ '"' :: rest)) =
        some (TypeScript.units key, rest) := by
  intro source json key
  let f : Field := ⟨⟨"id", rfl⟩, .primitive .integer false,
    [⟨json, true, [key]⟩, ⟨⟨"db", rfl⟩, false, ["k", "x"]⟩]⟩
  let m : Model := ⟨⟨"User", rfl⟩, [f]⟩
  have hread : Model.read false source = .ok m := toOption_eq_some_iff.mp (by decide +kernel)
  have hgo : Go.generate m = .ok (Go.renderModel m) :=
    toOption_eq_some_iff.mp (by decide +kernel)
  have hclass : TypeScript.generate m = .ok (TypeScript.renderModel m) :=
    toOption_eq_some_iff.mp (by decide +kernel)
  obtain ⟨hstruct, hmethods⟩ := read_quotes hread
  obtain ⟨-, rows, -, -, -, hrows⟩ := hstruct _ hgo (by decide +kernel)
  obtain ⟨line, -, hline, -, -⟩ := List.forall₂_cons_left_iff.mp hrows
  have hkey : TypeScript.Quotes m json key :=
    (hmethods _ hclass json (by decide +kernel)).2 key (by decide +kernel)
  exact ⟨m, f, line, _, _, hread, rfl, hgo, hclass, hline,
    hline.rawString_iff.mpr (by decide +kernel), hkey,
    fun rest => (hkey.stringLiteral_iff rest).mpr (by decide +kernel)⟩

/-- A value with a backtick ends the tag string early, and a key with a backslash is taken for
another one. -/
theorem quotes_backtick_and_backslash :
    let source : Text := "User:\n  id int json:\"a\\b\" db:\"x\x60y\"\n"
    let code : Text :=
      "type User struct \x7b\n    Id int \x60json:\"a\\b\" db:\"x\x60y\"\x60\n\x7d\n"
    let json : TagTarget := ⟨"json", rfl⟩
    ∃ m, Model.read false source = .ok m ∧ Go.generate m = .ok code ∧
      Go.rawString? (code.dropWhile (· != '\x60')) =
        some ("json:\"a\\b\" db:\"x".toList, "y\"\x60\n\x7d\n".toList) ∧
      (∃ code', TypeScript.generate m = .ok code') ∧
      TypeScript.quotedKeys (TypeScript.toLines m json) (TypeScript.fromLines m json) =
        ["a\\b", "a\\b"] ∧
      TypeScript.stringLiteral? "\"a\\b\"]" = some ([0x61, 0x08], [']']) := by
  intro source code json
  let f : Field := ⟨⟨"id", rfl⟩, .primitive .integer false,
    [⟨json, false, ["a\\b"]⟩, ⟨⟨"db", rfl⟩, false, ["x\x60y"]⟩]⟩
  let m : Model := ⟨⟨"User", rfl⟩, [f]⟩
  have hread : Model.read false source = .ok m := toOption_eq_some_iff.mp (by decide +kernel)
  have hgo : Go.generate m = .ok code := toOption_eq_some_iff.mp (by decide +kernel)
  have hclass : TypeScript.generate m = .ok (TypeScript.renderModel m) :=
    toOption_eq_some_iff.mp (by decide +kernel)
  exact ⟨m, hread, hgo, by decide +kernel, ⟨_, hclass⟩, by decide +kernel, by decide +kernel⟩

end ClassSchema
