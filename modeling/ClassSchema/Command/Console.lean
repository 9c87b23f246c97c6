import ClassSchema.Command.Presentation

/-!
# Runs that print

A console prints as it goes, in the format that was asked for. What it prints
when it runs a session are the session's events, each as it is presented.
-/

namespace ClassSchema

/-- What a part of a run leaves. -/
structure Printed (α : Type) where
  result : Except Failure α
  output : Output
  files : FileSystem

def Console (α : Type) : Type := FileSystem → Printed α

namespace Console

variable {α β : Type}

protected def pure (a : α) : Console α := fun fs => ⟨.ok a, .nothing, fs⟩

protected def bind (c : Console α) (next : α → Console β) : Console β := fun fs =>
  let first := c fs
  match first.result with
  | .error failure => ⟨.error failure, first.output, first.files⟩
  | .ok a =>
    let second := next a first.files
    ⟨second.result, first.output.append second.output, second.files⟩

instance : Monad Console where
  pure := Console.pure
  bind := Console.bind

theorem bind_of_error {c : Console α} {fs : FileSystem} {failure : Failure}
    (h : (c fs).result = .error failure) (next : α → Console β) :
    (c >>= next) fs = ⟨.error failure, (c fs).output, (c fs).files⟩ := by
  change Console.bind c next fs = _
  simp [Console.bind, h]

theorem bind_of_ok {c : Console α} {fs : FileSystem} {a : α} (h : (c fs).result = .ok a)
    (next : α → Console β) :
    (c >>= next) fs =
      ⟨(next a (c fs).files).result, (c fs).output.append (next a (c fs).files).output,
        (next a (c fs).files).files⟩ := by
  change Console.bind c next fs = _
  simp [Console.bind, h]

protected theorem bind_pure (c : Console α) : c >>= Console.pure = c := by
  funext fs
  cases h : (c fs).result with
  | error failure => rw [bind_of_error h, ← h]
  | ok a => simp [bind_of_ok h, Console.pure, ← h]

protected theorem bind_assoc {γ : Type} (c : Console α) (next : α → Console β)
    (after : β → Console γ) :
    c >>= next >>= after = c >>= fun a => next a >>= after := by
  funext fs
  cases h : (c fs).result with
  | error failure => simp [bind_of_error, h]
  | ok a =>
    cases h' : (next a (c fs).files).result with
    | error failure => simp [bind_of_ok, bind_of_error, h, h']
    | ok b => simp [bind_of_ok, h, h', Output.append_assoc]

instance : LawfulMonad Console :=
  LawfulMonad.mk' Console Console.bind_pure (fun _ _ => rfl) Console.bind_assoc

def fail (failure : Failure) : Console α := fun fs => ⟨.error failure, .nothing, fs⟩

def print (o : Output) : Console Unit := fun fs => ⟨.ok (), o, fs⟩

@[simp] theorem print_nothing : print .nothing = pure () := rfl

/-- What is printed at once may be printed in two steps. -/
theorem print_append (o o' : Output) : print (o.append o') = print o >>= fun _ => print o' := rfl

end Console

namespace Presentation

variable {α β : Type} (p : Presentation)

/-- Runs a session and prints its events. -/
def present (s : Session α) : Console α := fun fs =>
  let o := s fs
  ⟨o.result, .concat (o.events.map p.event), o.files⟩

@[simp] theorem present_pure (a : α) : p.present (pure a) = pure a := rfl

@[simp] theorem present_fail (failure : Failure) :
    p.present (Session.fail failure : Session α) = Console.fail failure := rfl

@[simp] theorem present_emit (e : Event) :
    p.present (Session.emit e) = Console.print (p.event e) := by
  funext fs
  simp [present, Session.emit, Console.print]

/-- The events of two sessions are printed one after the other. -/
theorem present_bind (s : Session α) (next : α → Session β) :
    p.present (s >>= next) = p.present s >>= fun a => p.present (next a) := by
  funext fs
  cases h : (s fs).result with
  | error failure =>
    rw [Console.bind_of_error (c := p.present s) h]
    simp [present, Session.bind_of_error h]
  | ok a =>
    rw [Console.bind_of_ok (c := p.present s) h]
    simp [present, Session.bind_of_ok h, Output.concat_append]

end Presentation

end ClassSchema
