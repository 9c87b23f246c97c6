import ClassSchema.Command.Run
import ClassSchema.Proofs.LineFaults

/-!
# What sessions do

Most parts of a run look at files without changing them. What they answer is
stated here once, and so is what a run over a list of files does: it goes from
one step to the next until a step fails, and the files are then those that the
failing step leaves.
-/

namespace ClassSchema

def Event.isLog : Event → Bool
  | .log _ => true
  | _ => false

def Outcome.shown {α : Type} (o : Outcome α) : List Event := o.events.filter (!·.isLog)

namespace Session

variable {α β : Type} {s : Session α} {next : α → Session β} {fs : FileSystem}

theorem shown_bind_of_ok {a : α} (h : (s fs).result = .ok a) (next : α → Session β) :
    ((s >>= next) fs).shown = (s fs).shown ++ (next a (s fs).files).shown := by
  rw [bind_of_ok h]
  exact List.filter_append ..

theorem shown_bind_of_error {failure : Failure} (h : (s fs).result = .error failure)
    (next : α → Session β) : ((s >>= next) fs).shown = (s fs).shown := by
  rw [bind_of_error h]
  rfl

def Quiet (s : Session α) : Prop := ∀ fs, (s fs).files = fs

theorem quiet_pure (a : α) : Quiet (pure a : Session α) := fun _ => rfl

theorem quiet_fail (failure : Failure) : Quiet (fail failure : Session α) := fun _ => rfl

theorem quiet_emit (e : Event) : Quiet (emit e) := fun _ => rfl

theorem quiet_logAll (entries : List LogEntry) : Quiet (logAll entries) := fun _ => rfl

theorem quiet_ask (f : FileSystem → α) : Quiet (ask f) := fun _ => rfl

theorem quiet_ofExcept (r : Except Failure α) : Quiet (ofExcept r) := fun _ => rfl

theorem files_bind_quiet (s : Session α) (hnext : ∀ a, Quiet (next a)) (fs : FileSystem) :
    ((s >>= next) fs).files = (s fs).files := by
  cases h : (s fs).result with
  | error failure => rw [files_bind_of_error h]
  | ok a => rw [files_bind_of_ok h, hnext]

theorem Quiet.bind (hs : Quiet s) (hnext : ∀ a, Quiet (next a)) : Quiet (s >>= next) := by
  intro fs
  rw [files_bind_quiet s hnext, hs]

theorem result_bind_of_quiet (hs : Quiet s) (next : α → Session β) (fs : FileSystem) :
    ((s >>= next) fs).result = (s fs).result >>= fun a => (next a fs).result := by
  rw [result_bind, hs]

theorem bind_of_quiet_ok {a : α} (hs : Quiet s) (h : (s fs).result = .ok a)
    (next : α → Session β) :
    ((s >>= next) fs).result = (next a fs).result ∧
      ((s >>= next) fs).files = (next a fs).files := by
  rw [bind_of_ok h, hs]
  exact ⟨rfl, rfl⟩

/-- A session that only looks at files and makes nothing known but by the log. -/
structure Passive (s : Session α) : Prop where
  quiet : Quiet s
  silent : ∀ fs, (s fs).shown = []

theorem passive_pure (a : α) : Passive (pure a : Session α) := ⟨fun _ => rfl, fun _ => rfl⟩

theorem passive_fail (failure : Failure) : Passive (fail failure : Session α) :=
  ⟨fun _ => rfl, fun _ => rfl⟩

theorem passive_log (entry : LogEntry) : Passive (log entry) := ⟨fun _ => rfl, fun _ => rfl⟩

theorem passive_logAll (entries : List LogEntry) : Passive (logAll entries) := by
  refine ⟨quiet_logAll entries, fun fs => List.filter_eq_nil_iff.mpr fun e he => ?_⟩
  obtain ⟨entry, -, rfl⟩ := List.mem_map.mp he
  exact Bool.false_ne_true

theorem passive_ask (f : FileSystem → α) : Passive (ask f) := ⟨fun _ => rfl, fun _ => rfl⟩

theorem passive_ofExcept (r : Except Failure α) : Passive (ofExcept r) :=
  ⟨fun _ => rfl, fun _ => rfl⟩

theorem Passive.bind (hs : Passive s) (hnext : ∀ a, Passive (next a)) : Passive (s >>= next) := by
  refine ⟨hs.quiet.bind fun a => (hnext a).quiet, fun fs => ?_⟩
  cases h : (s fs).result with
  | error failure => rw [shown_bind_of_error h, hs.silent]
  | ok a => rw [shown_bind_of_ok h, hs.silent, (hnext a).silent, List.append_nil]

theorem Passive.exists_of_bind_ok {b : β} (hs : Passive s)
    (h : ((s >>= next) fs).result = .ok b) :
    ∃ a, (s fs).result = .ok a ∧ (next a fs).result = .ok b ∧
      ((s >>= next) fs).shown = (next a fs).shown := by
  obtain ⟨a, ha, hb⟩ := bind_result_eq_ok_iff.mp h
  rw [hs.quiet] at hb
  refine ⟨a, ha, hb, ?_⟩
  rw [shown_bind_of_ok ha, hs.silent, hs.quiet, List.nil_append]

theorem passive_readText (path : Path) : Passive (readText path) :=
  (passive_ask _).bind fun _ => passive_ofExcept _

theorem quiet_readText (path : Path) : Quiet (readText path) := (passive_readText path).quiet

theorem passive_readSource (strict : Bool) (source : Text) :
    Passive (readSource strict source) := by
  refine (passive_logAll _).bind fun _ => ?_
  dsimp only
  split
  · exact (passive_pure _).bind fun _ => passive_pure _
  · exact (passive_log _).bind fun _ => passive_pure _

theorem quiet_readSource (strict : Bool) (source : Text) : Quiet (readSource strict source) :=
  (passive_readSource strict source).quiet

theorem result_readSource (strict : Bool) (source : Text) (fs : FileSystem) :
    (readSource strict source fs).result = .ok (Model.read strict source) := by
  unfold readSource Model.read
  rw [result_bind_of_quiet (quiet_logAll _)]
  cases (DocumentReading.ofSource strict source).result <;> rfl

theorem passive_readModel (strict : Bool) (path : Path) : Passive (readModel strict path) := by
  refine (passive_readText path).bind fun source => ?_
  refine (passive_readSource strict source).bind fun r => ?_
  cases r with
  | error faults => exact passive_fail _
  | ok m => exact passive_pure _

theorem quiet_readModel (strict : Bool) (path : Path) : Quiet (readModel strict path) :=
  (passive_readModel strict path).quiet

theorem result_readModel (strict : Bool) (path : Path) (fs : FileSystem) :
    (readModel strict path fs).result =
      (fs.read path).mapError (.access path) >>= fun source =>
        (Model.read strict source).mapError (.invalidFile path) >>= fun m => .ok (source, m) := by
  unfold readModel
  rw [result_bind_of_quiet (quiet_readText path), result_readText]
  congr 1
  funext source
  rw [result_bind_of_quiet (quiet_readSource strict source), result_readSource]
  cases Model.read strict source <;> rfl

theorem readModel_eq_ok_iff {strict : Bool} {path : Path} {source : Text} {m : Model} :
    (readModel strict path fs).result = .ok (source, m) ↔
      fs.read path = .ok source ∧ Model.read strict source = .ok m := by
  rw [result_readModel]
  constructor
  · intro h
    obtain ⟨t, ht, h⟩ := bind_eq_ok_iff.mp h
    obtain ⟨m', hm', h⟩ := bind_eq_ok_iff.mp h
    cases h
    exact ⟨mapError_eq_ok_iff.mp ht, mapError_eq_ok_iff.mp hm'⟩
  · rintro ⟨hread, hm⟩
    refine bind_eq_ok_iff.mpr ⟨source, mapError_eq_ok_iff.mpr hread, ?_⟩
    exact bind_eq_ok_iff.mpr ⟨m, mapError_eq_ok_iff.mpr hm, rfl⟩

theorem readModel_eq_error {strict : Bool} {path : Path} {failure : Failure}
    (h : (readModel strict path fs).result = .error failure) :
    (∃ cause, failure = .access path cause) ∨
      ∃ source faults, fs.read path = .ok source ∧ Model.read strict source = .error faults ∧
        failure = .invalidFile path faults := by
  rw [result_readModel] at h
  rcases bind_eq_error_iff.mp h with h | ⟨source, hread, h⟩
  · obtain ⟨cause, -, rfl⟩ := mapError_eq_error_iff.mp h
    exact .inl ⟨cause, rfl⟩
  · rcases bind_eq_error_iff.mp h with h | ⟨m, -, h⟩
    · obtain ⟨faults, hfaults, rfl⟩ := mapError_eq_error_iff.mp h
      exact .inr ⟨source, faults, mapError_eq_ok_iff.mp hread, hfaults, rfl⟩
    · cases h

/-- The steps for some elements, one after the other and all without failure. -/
inductive Steps (f : α → Session β) : FileSystem → List α → List β → FileSystem → Prop
  | nil (fs : FileSystem) : Steps f fs [] [] fs
  | cons {fs fs' : FileSystem} {a : α} {b : β} {as : List α} {bs : List β}
      (head : (f a fs).result = .ok b) (tail : Steps f (f a fs).files as bs fs') :
      Steps f fs (a :: as) (b :: bs) fs'

variable {f : α → Session β} {as : List α} {bs : List β}

theorem Quiet.each (h : ∀ a, Quiet (f a)) (as : List α) : Quiet (each f as) := by
  induction as with
  | nil => exact quiet_pure []
  | cons a as ih => exact (h a).bind fun _ => ih.bind fun _ => quiet_pure _

theorem steps_of_each_ok (h : (each f as fs).result = .ok bs) :
    Steps f fs as bs (each f as fs).files := by
  induction as generalizing fs bs with
  | nil =>
    cases h
    exact .nil fs
  | cons a as ih =>
    rw [result_each_cons] at h
    obtain ⟨b, hhead, h⟩ := bind_eq_ok_iff.mp h
    obtain ⟨more, hmore, h⟩ := bind_eq_ok_iff.mp h
    cases h
    rw [files_each_cons_of_ok hhead]
    exact .cons hhead (ih hmore)

theorem each_ok_of_steps {fs' : FileSystem} (h : Steps f fs as bs fs') :
    (each f as fs).result = .ok bs ∧ (each f as fs).files = fs' := by
  induction h with
  | nil fs => exact ⟨rfl, rfl⟩
  | cons hhead _ ih =>
    rw [result_each_cons, files_each_cons_of_ok hhead]
    exact ⟨bind_eq_ok_iff.mpr ⟨_, hhead, bind_eq_ok_iff.mpr ⟨_, ih.1, rfl⟩⟩, ih.2⟩

theorem Steps.split {fs' : FileSystem} {before after : List α} {a : α}
    (h : Steps f fs (before ++ a :: after) bs fs') :
    ∃ bs₁ b bs₂ fs₁, Steps f fs before bs₁ fs₁ ∧ (f a fs₁).result = .ok b ∧
      Steps f (f a fs₁).files after bs₂ fs' := by
  induction before generalizing fs bs with
  | nil =>
    cases h with
    | cons hhead htail => exact ⟨[], _, _, fs, .nil fs, hhead, htail⟩
  | cons c before ih =>
    cases h with
    | cons hhead htail =>
      obtain ⟨bs₁, b, bs₂, fs₁, hbefore, ha, hafter⟩ := ih htail
      exact ⟨_, b, bs₂, fs₁, .cons hhead hbefore, ha, hafter⟩

theorem steps_of_each_error {failure : Failure} (h : (each f as fs).result = .error failure) :
    ∃ before a after bs fs', as = before ++ a :: after ∧ Steps f fs before bs fs' ∧
      (f a fs').result = .error failure ∧ (each f as fs).files = (f a fs').files := by
  induction as generalizing fs with
  | nil => cases h
  | cons a as ih =>
    rw [result_each_cons] at h
    rcases bind_eq_error_iff.mp h with hhead | ⟨b, hhead, h⟩
    · exact ⟨[], a, as, [], fs, rfl, .nil fs, hhead, files_each_cons_of_error hhead⟩
    · rcases bind_eq_error_iff.mp h with hmore | ⟨more, -, h⟩
      · obtain ⟨before, a', after, bs, fs', rfl, hsteps, hfail, hfiles⟩ := ih hmore
        refine ⟨a :: before, a', after, b :: bs, fs', rfl, .cons hhead hsteps, hfail, ?_⟩
        rw [files_each_cons_of_ok hhead, hfiles]
      · cases h

end Session

namespace Settings

variable {env : Environment} {settingsPath : Option Path} {fs : FileSystem}

open Session

theorem passive_readFile (path : Path) : Passive (readFile path) := by
  refine (passive_readText path).bind fun text => ?_
  split
  · exact passive_fail _
  · split_ifs
    · exact passive_fail _
    · exact (passive_log _).bind fun _ => passive_pure _

theorem result_readFile (path : Path) (fs : FileSystem) :
    (readFile path fs).result =
      (fs.read path).mapError (.access path) >>= fun text =>
        match (Toml.read? text).bind ofEntries? with
        | none => .error (.malformedSettings path)
        | some settings =>
          if settings.bareExtension.isEmpty then .error (.emptyExtension path)
          else .ok settings := by
  unfold readFile
  rw [result_bind_of_quiet (quiet_readText path), result_readText]
  congr 1
  funext text
  cases (Toml.read? text).bind ofEntries? with
  | none => rfl
  | some settings =>
    dsimp only
    split_ifs <;> rfl

def file? (env : Environment) (settingsPath : Option Path) (fs : FileSystem) : Option Path :=
  settingsPath.or ((places env).find? fs.hasAny)

theorem passive_load (env : Environment) (settingsPath : Option Path) :
    Passive (load env settingsPath) := by
  cases settingsPath with
  | some path => exact passive_readFile path
  | none =>
    refine (passive_ask _).bind fun place => ?_
    cases place with
    | some path => exact passive_readFile path
    | none => exact (passive_log _).bind fun _ => passive_pure _

theorem quiet_load (env : Environment) (settingsPath : Option Path) :
    Quiet (load env settingsPath) :=
  (passive_load env settingsPath).quiet

theorem result_load (env : Environment) (settingsPath : Option Path) (fs : FileSystem) :
    (load env settingsPath fs).result =
      match file? env settingsPath fs with
      | some path => (readFile path fs).result
      | none => .ok {} := by
  cases settingsPath with
  | some path => rfl
  | none =>
    unfold load file?
    rw [result_bind_of_quiet (quiet_ask _), Option.none_or]
    have hask : ((ask fun fs => (places env).find? fs.hasAny) fs).result =
        .ok ((places env).find? fs.hasAny) := rfl
    rw [hask]
    cases (places env).find? fs.hasAny <;> rfl

theorem exitCode_ne_of_load {failure : Failure}
    (h : (load env settingsPath fs).result = .error failure) : failure.exitCode ≠ 3 := by
  rw [result_load] at h
  cases hfile : file? env settingsPath fs with
  | none => simp [hfile] at h
  | some place =>
    rw [hfile] at h
    dsimp only at h
    rw [result_readFile] at h
    rcases bind_eq_error_iff.mp h with hread | ⟨text, -, h⟩
    · obtain ⟨_, -, rfl⟩ := mapError_eq_error_iff.mp hread
      simp [Failure.exitCode]
    · split at h
      · cases h
        simp [Failure.exitCode]
      · split_ifs at h
        cases h
        simp [Failure.exitCode]

end Settings

namespace Session

theorem passive_discover (extension : Text) (paths : List Path) :
    Passive (Session.discover extension paths) :=
  (passive_ask _).bind fun _ => (passive_ofExcept _).bind fun _ => (passive_log _).bind fun _ =>
    passive_pure _

theorem quiet_discover (extension : Text) (paths : List Path) :
    Quiet (Session.discover extension paths) :=
  (passive_discover extension paths).quiet

theorem result_discover (extension : Text) (paths : List Path) (fs : FileSystem) :
    (Session.discover extension paths fs).result = ClassSchema.discover fs extension paths := by
  unfold Session.discover
  rw [result_bind_of_quiet (quiet_ask _)]
  change ((ofExcept _ >>= _ : Session _) fs).result = _
  rw [result_bind_of_quiet (quiet_ofExcept _)]
  change ClassSchema.discover fs extension paths >>= _ = _
  cases ClassSchema.discover fs extension paths <;> rfl

end Session

theorem exitCode_ne_of_filesOfPath {fs : FileSystem} {extension : Text} {path : Path}
    {failure : Failure} (h : filesOfPath fs extension path = .error failure) :
    failure.exitCode ≠ 3 := by
  unfold filesOfPath at h
  split_ifs at h
  · rcases bind_eq_error_iff.mp h with h | ⟨search, -, h⟩
    · obtain ⟨_, -, rfl⟩ := mapError_eq_error_iff.mp h
      simp [Failure.exitCode]
    · split at h
      · cases h
        simp [Failure.exitCode]
      · cases h
  · cases h
    simp [Failure.exitCode]

theorem exitCode_ne_of_discover {fs : FileSystem} {extension : Text} {paths : List Path}
    {failure : Failure} (h : discover fs extension paths = .error failure) :
    failure.exitCode ≠ 3 := by
  rw [discover_eq_mapM] at h
  rcases bind_eq_error_iff.mp h with hall | ⟨_, -, h⟩
  · clear h
    induction paths with
    | nil => cases hall
    | cons p paths ih =>
      rw [List.mapM_cons] at hall
      rcases bind_eq_error_iff.mp hall with hfirst | ⟨_, -, hall⟩
      · exact exitCode_ne_of_filesOfPath hfirst
      · rcases bind_eq_error_iff.mp hall with hrest | ⟨_, -, hnone⟩
        · exact ih hrest
        · cases hnone
  · cases h

/-- The schema files that a run is about: those that its paths stand for under the settings
that hold. -/
def schemaFiles (env : Environment) (settingsPath : Option Path) (paths : List Path)
    (fs : FileSystem) : Except Failure (List Path) := do
  let settings ← (Settings.load env settingsPath fs).result
  discover fs settings.bareExtension paths

theorem exitCode_ne_of_schemaFiles {env : Environment} {settingsPath : Option Path}
    {paths : List Path} {fs : FileSystem} {failure : Failure}
    (h : schemaFiles env settingsPath paths fs = .error failure) : failure.exitCode ≠ 3 := by
  rcases bind_eq_error_iff.mp h with h | ⟨settings, -, h⟩
  · exact Settings.exitCode_ne_of_load h
  · exact exitCode_ne_of_discover h

namespace Path

def Component.nameText : Component → Text
  | .name t => t
  | _ => []

theorem transCmp_comap {α β : Type} (order : β → β → Ordering) [Std.TransCmp order] (f : α → β) :
    Std.TransCmp fun a b => order (f a) (f b) where
  eq_swap := Std.OrientedCmp.eq_swap
  isLE_trans h k := Std.TransCmp.isLE_trans h k

instance : Std.TransCmp Component.order := by
  have horder : Component.order = compareLex (fun a b => compare a.rank b.rank)
      fun a b => Text.order a.nameText b.nameText := by
    funext a b
    cases a <;> cases b <;> rfl
  have := transCmp_comap (compare : Nat → Nat → Ordering) Component.rank
  have := transCmp_comap Text.order Component.nameText
  rw [horder]
  infer_instance

instance : Std.TransCmp Path.order :=
  transCmp_comap (List.compareLex Component.order) Path.components

end Path

theorem pairwise_discover {fs : FileSystem} {extension : Text} {paths files : List Path}
    (h : discover fs extension paths = .ok files) :
    files.Pairwise (Path.order · · = .lt) := by
  obtain ⟨found, -, h⟩ := bind_eq_ok_iff.mp h
  cases h
  exact Sorted.pairwise_ofList _

theorem nodup_discover {fs : FileSystem} {extension : Text} {paths files : List Path}
    (h : discover fs extension paths = .ok files) : files.Nodup := by
  refine (pairwise_discover h).imp ?_
  rintro p q hlt rfl
  simp [Std.ReflCmp.compare_self] at hlt

end ClassSchema
