import ClassSchema.Command.Basic

/-!
# Command lines

A command line has two levels: options in front of the name of a command, and
options and words behind it. The options that go with any command may stand on
both levels, and those of the inner level win. Each level is read from left to
right. A value that stands in a word of its own is looked at when the next
option or the end of its level comes; for the outer level that is after the
inner one.
-/

namespace ClassSchema

inductive Switch where
  | settings | format | verbose | quiet | noColor | outputDir | strict | onlyCheck | printModel
  | help | version
deriving DecidableEq, Repr

namespace Switch

def long : Switch → Text
  | settings => "config"
  | format => "format"
  | verbose => "verbose"
  | quiet => "quiet"
  | noColor => "no-color"
  | outputDir => "output-dir"
  | strict => "strict"
  | onlyCheck => "check"
  | printModel => "print"
  | help => "help"
  | version => "version"

theorem long_injective : Function.Injective long := by
  intro s s' h
  revert h
  cases s <;> cases s' <;> decide

def short? : Switch → Option Char
  | settings => some 'c'
  | verbose => some 'v'
  | quiet => some 'q'
  | outputDir => some 'o'
  | help => some 'h'
  | version => some 'V'
  | _ => none

def takesValue : Switch → Bool
  | settings | format | outputDir => true
  | _ => false

/-- Whether a value is one that the option can have. -/
def accepts (value : Text) : Switch → Bool
  | format => (Format.ofName? value).isSome
  | _ => !value.isEmpty

/-- The options that go with any command. -/
def common : List Switch := [settings, format, verbose, quiet, noColor, help, version]

end Switch

inductive CommandName where
  | gen | tidy | check | languages | completions
deriving DecidableEq, Repr

namespace CommandName

def all : List CommandName := [gen, tidy, check, languages, completions]

def word : CommandName → Text
  | gen => "gen"
  | tidy => "tidy"
  | check => "check"
  | languages => "languages"
  | completions => "completions"

def ofWord? (w : Text) : Option CommandName := all.find? (·.word = w)

theorem ofWord?_word (name : CommandName) : ofWord? name.word = some name := by
  cases name <;> decide

def switches : CommandName → List Switch
  | gen => Switch.common ++ [.outputDir, .strict]
  | tidy => Switch.common ++ [.onlyCheck]
  | check => Switch.common ++ [.strict, .printModel]
  | languages | completions => Switch.common

/-- Whether a word may follow as many other ones. -/
def acceptsWord (earlier : Nat) (w : Text) : CommandName → Bool
  | gen => earlier == 0 || !w.isEmpty
  | tidy | check => !w.isEmpty
  | languages => false
  | completions => earlier == 0 && (Shell.ofName? w).isSome

end CommandName

/-- Why a command line leads to no run. -/
inductive Refusal where
  | usage
  | help
  /-- The version is asked for, perhaps behind the name of a command. -/
  | version (command : Option CommandName)
deriving DecidableEq, Repr

/-- What one level of a command line has given so far. -/
structure Level where
  values : List (Switch × Text) := []
  flags : List Switch := []
  words : List Text := []
  /-- An option whose value must be the next word. -/
  waiting : Option Switch := none
  /-- A value that has not been looked at. -/
  held : Option (Switch × Text) := none
deriving DecidableEq, Repr

namespace Level

theorem isNone_lookup_iff {s : Switch} {values : List (Switch × Text)} :
    (values.lookup s).isNone = true ↔ s ∉ values.map Prod.fst := by
  rw [Option.isNone_iff_eq_none, List.lookup_eq_none_iff]
  simp only [List.mem_map, not_exists, not_and, bne_iff_ne, ne_eq]
  exact forall₂_congr fun p _ => not_congr eq_comm

/-- Takes a value. An option has at most one. -/
def setValue (l : Level) (s : Switch) (value : Text) : Except Refusal Level :=
  if s.accepts value ∧ (l.values.lookup s).isNone then
    .ok { l with values := (s, value) :: l.values }
  else .error .usage

/-- Looks at the value that has been put off. -/
def settle (l : Level) : Except Refusal Level :=
  match l.waiting, l.held with
  | some _, _ => .error .usage
  | none, some (s, value) => { l with held := none }.setValue s value
  | none, none => .ok l

/-- Takes an option without a value. Only one of them counts its repetitions. -/
def setFlag (command : Option CommandName) (l : Level) (s : Switch) : Except Refusal Level :=
  match s with
  | .help => .error .help
  | .version => .error (.version command)
  | s =>
    if s ≠ .verbose ∧ s ∈ l.flags then .error .usage
    else .ok { l with flags := s :: l.flags }

/-- Takes an option with the value that is attached to it, if any. -/
def setOption (command : Option CommandName) (l : Level) (s : Switch) (attached : Option Text) :
    Except Refusal Level := do
  let l ← l.settle
  match s.takesValue, attached with
  | true, some value => l.setValue s value
  | true, none => return { l with waiting := some s }
  | false, none => l.setFlag command s
  | false, some _ => .error .usage

def readLong (command : Option CommandName) (switches : List Switch) (l : Level) (t : Text) :
    Except Refusal Level :=
  match switches.find? (·.long = t.takeWhile (· != '=')) with
  | none => .error .usage
  | some s =>
    match t.dropWhile (· != '=') with
    | [] => l.setOption command s none
    | _ :: value => l.setOption command s (some value)

/-- A word behind two dashes is one option. -/
theorem exists_option_of_readLong {l l₁ : Level} {command : Option CommandName}
    {switches : List Switch} {t : Text} (h : l.readLong command switches t = .ok l₁) :
    ∃ s attached, s.long = t.takeWhile (· != '=') ∧
      (attached = none ↔ t.dropWhile (· != '=') = []) ∧
      ∀ m : Level, m.readLong command switches t = m.setOption command s attached := by
  unfold readLong at h
  cases hfind : switches.find? (·.long = t.takeWhile (· != '=')) with
  | none => simp [hfind] at h
  | some s =>
    have hlong : s.long = t.takeWhile (· != '=') := by simpa using List.find?_some hfind
    cases hrest : t.dropWhile (· != '=') with
    | nil => exact ⟨s, none, hlong, by simp, fun m => by simp [readLong, hfind, hrest]⟩
    | cons c value =>
      exact ⟨s, some value, hlong, by simp, fun m => by simp [readLong, hfind, hrest]⟩

/-- Reads a word behind one dash: options of one letter each. What follows one
that takes a value is its value. -/
def readShort (command : Option CommandName) (switches : List Switch) (l : Level) :
    Text → Except Refusal Level
  | [] => .ok l
  | c :: t =>
    match switches.find? (·.short? = some c) with
    | none => .error .usage
    | some s =>
      if s.takesValue then
        match t with
        | [] => l.setOption command s none
        | '=' :: value => l.setOption command s (some value)
        | value => l.setOption command s (some value)
      else do readShort command switches (← l.setOption command s none) t

/-- A word behind one dash starts with an option, which may take all of it. -/
theorem exists_option_of_readShort {l l₁ : Level} {command : Option CommandName}
    {switches : List Switch} {t : Text} {c : Char}
    (h : l.readShort command switches (c :: t) = .ok l₁) :
    ∃ s, s.short? = some c ∧
      ((s.takesValue = true ∧ ∃ attached, ∀ m : Level,
        m.readShort command switches (c :: t) = m.setOption command s attached) ∨
      (s.takesValue = false ∧ ∀ m : Level, m.readShort command switches (c :: t) =
        m.setOption command s none >>= fun m => m.readShort command switches t)) := by
  cases hfind : switches.find? (·.short? = some c) with
  | none => simp [readShort, hfind] at h
  | some s =>
    refine ⟨s, by simpa using List.find?_some hfind, ?_⟩
    cases htakes : s.takesValue with
    | false => exact .inr ⟨rfl, fun m => by simp [readShort, hfind, htakes]⟩
    | true =>
      refine .inl ⟨rfl, ?_⟩
      cases t with
      | nil => exact ⟨none, fun m => by simp [readShort, hfind, htakes]⟩
      | cons d value =>
        by_cases hd : d = '='
        · exact ⟨some value, fun m => by simp [readShort, hfind, htakes, hd]⟩
        · exact ⟨some (d :: value), fun m => by simp [readShort, hfind, htakes, hd]⟩

end Level

inductive Word where
  /-- Two dashes, behind which there are no options. -/
  | endOfOptions
  | long (t : Text)
  | short (t : Text)
  | other
deriving DecidableEq, Repr

def Word.ofText : Text → Word
  | ['-', '-'] => .endOfOptions
  | '-' :: '-' :: t => .long t
  | '-' :: c :: t => .short (c :: t)
  | _ => .other

theorem Word.exists_of_ofText_eq_short {w t : Text} (h : Word.ofText w = .short t) :
    ∃ c rest, t = c :: rest := by
  unfold Word.ofText at h
  split at h <;> cases h
  exact ⟨_, _, rfl⟩

theorem Word.ofText_word (name : CommandName) : Word.ofText name.word = .other := by
  cases name <;> decide

namespace Level

/-- Reads the words behind the name of a command. -/
def readInner (command : CommandName) (ended : Bool) (l : Level) :
    List Text → Except Refusal Level
  | [] => .ok l
  | w :: ws =>
    match ended, Word.ofText w with
    | false, .endOfOptions =>
      if l.waiting.isSome then .error .usage else readInner command true l ws
    | false, .long t => do
      readInner command false (← l.readLong (some command) command.switches t) ws
    | false, .short t => do
      readInner command false (← l.readShort (some command) command.switches t) ws
    | _, _ =>
      match l.waiting with
      | some s => readInner command ended { l with waiting := none, held := some (s, w) } ws
      | none =>
        if command.acceptsWord l.words.length w then
          readInner command ended { l with words := l.words ++ [w] } ws
        else .error .usage

theorem readInner_endOfOptions {l : Level} {name : CommandName} {w : Text} {ws : List Text}
    (hw : Word.ofText w = .endOfOptions) :
    l.readInner name false (w :: ws) =
      if l.waiting.isSome then .error .usage else l.readInner name true ws := by
  simp [readInner, hw]

/-- A word that is no option is a value if one is expected. -/
theorem readInner_value {l : Level} {name : CommandName} {s : Switch} {w : Text}
    {ws : List Text} {ended : Bool} (hw : ended = true ∨ Word.ofText w = .other)
    (hwaiting : l.waiting = some s) :
    l.readInner name ended (w :: ws) =
      readInner name ended { l with waiting := none, held := some (s, w) } ws := by
  rcases hw with rfl | hw
  · simp [readInner, hwaiting]
  · simp [readInner, hw, hwaiting]

/-- And otherwise it belongs to the command. -/
theorem readInner_word {l : Level} {name : CommandName} {w : Text} {ws : List Text}
    {ended : Bool} (hw : ended = true ∨ Word.ofText w = .other)
    (hwaiting : l.waiting = none) :
    l.readInner name ended (w :: ws) =
      if name.acceptsWord l.words.length w then
        readInner name ended { l with words := l.words ++ [w] } ws
      else .error .usage := by
  rcases hw with rfl | hw
  · simp [readInner, hwaiting]
  · simp [readInner, hw, hwaiting]

/-- Reads the words up to the first one that is no option. -/
def readOuter (l : Level) : List Text → Except Refusal (Level × Bool × List Text)
  | [] => .ok (l, false, [])
  | w :: ws =>
    match Word.ofText w with
    | .endOfOptions => if l.waiting.isSome then .error .usage else .ok (l, true, ws)
    | .long t => do readOuter (← l.readLong none Switch.common t) ws
    | .short t => do readOuter (← l.readShort none Switch.common t) ws
    | .other =>
      match l.waiting with
      | some s => readOuter { l with waiting := none, held := some (s, w) } ws
      | none => .ok (l, false, w :: ws)

theorem readOuter_value {l : Level} {s : Switch} {w : Text} {ws : List Text}
    (hw : Word.ofText w = .other) (hwaiting : l.waiting = some s) :
    l.readOuter (w :: ws) =
      readOuter { l with waiting := none, held := some (s, w) } ws := by
  simp [readOuter, hw, hwaiting]

theorem readOuter_word {l : Level} {w : Text} {ws : List Text} (hw : Word.ofText w = .other)
    (hwaiting : l.waiting = none) :
    l.readOuter (w :: ws) = .ok (l, false, w :: ws) := by
  simp [readOuter, hw, hwaiting]

theorem readOuter_format (f : Format) (ws : List Text) :
    ({} : Level).readOuter ((("--format=" : Text) ++ f.name) :: ws) =
      ({ values := [(.format, f.name)] } : Level).readOuter ws := by
  cases f <;> rfl

theorem readOuter_verbose (values : List (Switch × Text)) (n : Nat) (ws : List Text) :
    ({ values := values } : Level).readOuter (List.replicate n ("-v" : Text) ++ ws) =
      ({ values := values, flags := List.replicate n .verbose } : Level).readOuter ws := by
  have hone (flags : List Switch) (ws : List Text) :
      ({ values := values, flags := flags } : Level).readOuter (("-v" : Text) :: ws) =
        ({ values := values, flags := .verbose :: flags } : Level).readOuter ws := rfl
  induction n generalizing ws with
  | zero => rfl
  | succ n ih =>
    rw [List.replicate_succ', List.append_assoc, ih]
    exact hone _ _

/-- The end of a level. A settings path of the environment counts on each level
that names none. -/
def finish (env : Environment) (l : Level) : Except Refusal Level := do
  let l ← l.settle
  if (l.values.lookup .settings).isNone ∧ env.settingsPath = some [] then .error .usage
  else if .quiet ∈ l.flags ∧ .verbose ∈ l.flags then .error .usage
  else return l

/-- The command of the words behind its name. -/
def command (l : Level) : CommandName → Except Refusal Command
  | .gen =>
    match l.words with
    | language :: p :: paths =>
      .ok (.generate language ((p :: paths).map Path.mk)
        ((l.values.lookup .outputDir).map Path.mk) (.strict ∈ l.flags))
    | _ => .error .usage
  | .tidy =>
    match l.words with
    | [] => .error .usage
    | paths => .ok (.tidy (paths.map Path.mk) (.onlyCheck ∈ l.flags))
  | .check =>
    match l.words with
    | [] => .error .usage
    | paths => .ok (.check (paths.map Path.mk) (.strict ∈ l.flags) (.printModel ∈ l.flags))
  | .languages => .ok .languages
  | .completions =>
    match l.words.head?.bind Shell.ofName? with
    | some shell => .ok (.completions shell)
    | none => .error .usage

/-- The value of the inner level, or else of the outer one. -/
def valueOf (outer inner : Level) (s : Switch) : Option Text :=
  (inner.values.lookup s).or (outer.values.lookup s)

/-- How often more is asked for, on the inner level or else on the outer one. -/
def verbosity (outer inner : Level) : Nat :=
  match inner.flags.count .verbose with
  | 0 => outer.flags.count .verbose
  | n => n

/-- The invocation of a command by both levels. -/
def invocation (env : Environment) (outer inner : Level) (command : Command) : Invocation where
  command
  settingsPath := ((valueOf outer inner .settings).or env.settingsPath).map Path.mk
  format := ((valueOf outer inner .format).bind Format.ofName?).getD .human
  verbosity := verbosity outer inner
  quiet := .quiet ∈ inner.flags ∨ .quiet ∈ outer.flags

end Level

namespace Invocation

/-- The word that asks for help with a command. -/
def helpWord : Text := "help"

theorem word_ne_helpWord (name : CommandName) : name.word ≠ helpWord := by
  cases name <;> decide

/-- Help is there for the program and for each command. -/
def readHelp : List Text → Refusal
  | [] => .help
  | [w] => if w = helpWord ∨ (CommandName.ofWord? w).isSome then .help else .usage
  | _ => .usage

/-- Reads a command line without the name of the program. -/
def read (env : Environment) (args : List Text) : Except Refusal Invocation := do
  let (outer, ended, rest) ← ({} : Level).readOuter args
  match rest with
  | [] => .error .usage
  | w :: ws =>
    if !ended ∧ w = helpWord then .error (readHelp ws)
    else
      match if ended then none else CommandName.ofWord? w with
      | some name =>
        let inner ← ({} : Level).readInner name false ws
        let inner ← inner.finish env
        let command ← inner.command name
        let outer ← outer.finish env
        return outer.invocation env inner command
      | none =>
        let outer ← outer.finish env
        return outer.invocation env {} (.unknown (w :: ws))

end Invocation

end ClassSchema
