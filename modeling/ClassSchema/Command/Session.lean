import ClassSchema.Command.Basic
import ClassSchema.Command.Failure
import ClassSchema.Command.Log
import ClassSchema.Model

/-!
# Sessions

A run changes files, makes events known and may fail. The events say what has
happened and leave open how it is presented, so what a command does can be said
without regard to what it prints.
-/

namespace ClassSchema

/-- The code of one schema file. -/
structure Generated where
  path : Path
  name : ClassName
  code : Text
  /-- The file that the code was written to. -/
  target : Option Path

/-- What reading one schema file gave. -/
structure Checked where
  path : Path
  result : Except (List Fault) Model

namespace Checked

def fieldCount (c : Checked) : Nat :=
  match c.result with
  | .ok m => m.fields.length
  | .error _ => 0

def faults (c : Checked) : List Fault :=
  match c.result with
  | .ok _ => []
  | .error faults => faults

def isValid (c : Checked) : Bool :=
  match c.result with
  | .ok _ => true
  | .error _ => false

theorem isValid_iff {c : Checked} : c.isValid = true ↔ ∃ m, c.result = .ok m := by
  unfold isValid
  cases c.result <;> simp

end Checked

inductive Event where
  | log (entry : LogEntry)
  /-- One more file has been generated, after as many others. -/
  | generated (earlier : Nat) (g : Generated)
  | finishedGenerating (language : Language) (all : List Generated)
  | tidied (path : Path)
  | foundUntidy (paths : List Path)
  | finishedTidying (count : Nat) (changed : List Path)
  | checked (printModel : Bool) (c : Checked)
  | finishedChecking (printModel : Bool) (all : List Checked)
  | listedLanguages

/-- What a session leaves. -/
structure Outcome (α : Type) where
  result : Except Failure α
  events : List Event
  files : FileSystem

def Session (α : Type) : Type := FileSystem → Outcome α

namespace Session

variable {α β : Type}

def pure (a : α) : Session α := fun fs => ⟨.ok a, [], fs⟩

/-- One session after the other, unless the first one fails. -/
def bind (s : Session α) (next : α → Session β) : Session β := fun fs =>
  let first := s fs
  match first.result with
  | .error failure => ⟨.error failure, first.events, first.files⟩
  | .ok a =>
    let second := next a first.files
    ⟨second.result, first.events ++ second.events, second.files⟩

instance : Monad Session where
  pure := pure
  bind := bind

/-- A failure ends a sequence of sessions. -/
theorem bind_of_error {s : Session α} {fs : FileSystem} {failure : Failure}
    (h : (s fs).result = .error failure) (next : α → Session β) :
    (s >>= next) fs = ⟨.error failure, (s fs).events, (s fs).files⟩ := by
  change bind s next fs = _
  simp [bind, h]

/-- Otherwise the next session goes on with the files of the first one. -/
theorem bind_of_ok {s : Session α} {fs : FileSystem} {a : α} (h : (s fs).result = .ok a)
    (next : α → Session β) :
    (s >>= next) fs =
      ⟨(next a (s fs).files).result, (s fs).events ++ (next a (s fs).files).events,
        (next a (s fs).files).files⟩ := by
  change bind s next fs = _
  simp [bind, h]

/-- A sequence succeeds exactly if both of its parts do. -/
theorem bind_result_eq_ok_iff {s : Session α} {next : α → Session β} {fs : FileSystem} {b : β} :
    ((s >>= next) fs).result = .ok b ↔
      ∃ a, (s fs).result = .ok a ∧ (next a (s fs).files).result = .ok b := by
  cases h : (s fs).result with
  | error failure => simp [bind_of_error h]
  | ok a => simp [bind_of_ok h]

theorem result_bind (s : Session α) (next : α → Session β) (fs : FileSystem) :
    ((s >>= next) fs).result = (s fs).result >>= fun a => (next a (s fs).files).result := by
  cases h : (s fs).result with
  | error failure => rw [bind_of_error h]; rfl
  | ok a => rw [bind_of_ok h]; rfl

theorem files_bind_of_error {s : Session α} {next : α → Session β} {fs : FileSystem}
    {failure : Failure} (h : (s fs).result = .error failure) :
    ((s >>= next) fs).files = (s fs).files := by
  rw [bind_of_error h]

theorem files_bind_of_ok {s : Session α} {next : α → Session β} {fs : FileSystem} {a : α}
    (h : (s fs).result = .ok a) :
    ((s >>= next) fs).files = (next a (s fs).files).files := by
  rw [bind_of_ok h]

def fail (failure : Failure) : Session α := fun fs => ⟨.error failure, [], fs⟩

def emit (e : Event) : Session Unit := fun fs => ⟨.ok (), [e], fs⟩

def log (entry : LogEntry) : Session Unit := emit (.log entry)

def logAll (entries : List LogEntry) : Session Unit := fun fs =>
  ⟨.ok (), entries.map .log, fs⟩

/-- What can be told from the files alone. -/
def ask (f : FileSystem → α) : Session α := fun fs => ⟨.ok (f fs), [], fs⟩

def ofExcept (r : Except Failure α) : Session α := fun fs => ⟨r, [], fs⟩

def readText (path : Path) : Session Text := do
  ofExcept ((← ask (·.read path)).mapError (.access path))

theorem result_readText (path : Path) (fs : FileSystem) :
    (readText path fs).result = (fs.read path).mapError (.access path) := rfl

/-- Replaces or creates a file. -/
def writeText (path : Path) (t : Text) : Session Unit := fun fs =>
  match fs.write path t with
  | .ok written => ⟨.ok (), [], written⟩
  | .error cause => ⟨.error (.access path cause), [], fs⟩

/-- Creates a directory and those above it. -/
def makeDirectories (path : Path) : Session Unit := fun fs =>
  match fs.makeDirectories path with
  | (made, none) => ⟨.ok (), [], made⟩
  | (made, some cause) => ⟨.error (.access path cause), [], made⟩

/-- Does something for every element and stops at the first failure. -/
def each (f : α → Session β) : List α → Session (List β)
  | [] => pure []
  | a :: as => do
    let b ← f a
    let bs ← each f as
    return b :: bs

theorem result_each_cons (f : α → Session β) (a : α) (as : List α) (fs : FileSystem) :
    (each f (a :: as) fs).result = (f a fs).result >>= fun b =>
      (each f as (f a fs).files).result >>= fun bs => .ok (b :: bs) := by
  change ((f a >>= fun b => each f as >>= fun bs => pure (b :: bs)) fs).result = _
  rw [result_bind]
  congr 1
  funext b
  rw [result_bind]
  cases (each f as (f a fs).files).result <;> rfl

theorem files_each_cons_of_error {f : α → Session β} {as : List α} {fs : FileSystem} {a : α}
    {failure : Failure} (h : (f a fs).result = .error failure) :
    (each f (a :: as) fs).files = (f a fs).files :=
  files_bind_of_error h

theorem files_each_cons_of_ok {f : α → Session β} {as : List α} {fs : FileSystem} {a : α} {b : β}
    (h : (f a fs).result = .ok b) :
    (each f (a :: as) fs).files = (each f as (f a fs).files).files := by
  change ((f a >>= fun b => each f as >>= fun bs => pure (b :: bs)) fs).files = _
  rw [files_bind_of_ok h]
  cases hmore : (each f as (f a fs).files).result with
  | error failure => exact files_bind_of_error hmore
  | ok bs => exact files_bind_of_ok hmore

end Session

end ClassSchema
