import ClassSchema.Proofs.DiscoveredFiles
import ClassSchema.Proofs.FileNames
import ClassSchema.Proofs.PlainPatterns

/-!
# Searching a directory

A directory is searched by a pattern that begins with its path. If the path has no
wildcards, the search goes along its segments to the directory and finds every place below
it whose name has the extension, be it a file or a directory. One kind of path is lost on
the way: behind dots that begin a path, an empty segment leads nowhere.
-/

namespace ClassSchema

namespace Path

variable {base : Path} {t : Text}

theorem isAbsolute_join (hbase : base.text ≠ []) (ht : t.head? ≠ some '/') :
    (base.join t).isAbsolute = base.isAbsolute := by
  obtain ⟨u, hu⟩ := exists_text_join base ht
  rw [isAbsolute, isAbsolute, hu, List.head?_append_of_ne_nil _ hbase]

theorem components_join (hbase : base.text ≠ []) (ht : t.head? ≠ some '/') :
    (base.join t).components =
      base.components ++ (Text.splitOn '/' t).filterMap Component.ofSegment? := by
  obtain ⟨front, hne, hsegments, hjoin⟩ := exists_segments_join_of_ne_nil hbase ht
  have hhead : (base.join t).segments.head? = base.segments.head? := by
    rw [hjoin, List.head?_append_of_ne_nil _ hne]
    rcases hsegments with hsegments | hsegments
    · rw [hsegments]
    · rw [hsegments, List.head?_append_of_ne_nil _ hne]
  have hstart : (base.join t).start = base.start := by
    rw [start, start, isAbsolute_join hbase ht, hhead]
  have hmore : front.filterMap Component.ofSegment? =
      base.segments.filterMap Component.ofSegment? := by
    rcases hsegments with hsegments | hsegments
    all_goals simp [hsegments, Component.ofSegment?]
  rw [components, hstart, hjoin, List.filterMap_append, hmore, components, List.append_assoc]

end Path

namespace FileSystem

variable {fs : FileSystem} {base : Path} {t : Text} {k l : Location}

theorem locate_join (h : fs.locate base = .ok k) (ht : t.head? ≠ some '/') :
    fs.locate (base.join t) = (Text.splitOn '/' t).foldlM fs.enter k := by
  have hbase := text_ne_nil_of_locate h
  obtain ⟨u, hu⟩ := Path.exists_text_join base ht
  obtain ⟨front, -, hsegments, hjoin⟩ := Path.exists_segments_join_of_ne_nil hbase ht
  have hstart : fs.startOf (base.join t) = fs.startOf base := by
    rw [startOf, startOf, Path.isAbsolute_join hbase ht]
  have hfront : front.foldlM fs.enter (fs.startOf base) = .ok k := by
    rw [locate, if_neg hbase] at h
    rcases hsegments with hsegments | hsegments
    · rwa [hsegments] at h
    · rw [hsegments, List.foldlM_append] at h
      obtain ⟨k', hk', h⟩ := bind_eq_ok_iff.mp h
      rw [hk']
      rw [foldlM_enter_of_none (by simp [Path.Component.ofSegment?]) h]
  rw [locate, if_neg (by simp [hu, hbase]), hstart, hjoin, List.foldlM_append, hfront]
  rfl

theorem directory_of_foldlM {segments : List Text} (h : segments.foldlM fs.enter k = .ok l)
    (hl : fs.node? l = some .directory) : fs.node? k = some .directory := by
  cases segments with
  | nil =>
    cases h
    exact hl
  | cons segment segments =>
    rw [List.foldlM_cons] at h
    obtain ⟨k', henter, -⟩ := bind_eq_ok_iff.mp h
    exact directory_of_enter henter

def IsName (name : Text) : Prop :=
  Path.Component.ofSegment? name = some (.name name) ∧ '/' ∉ name

instance : DecidablePred IsName := fun _ => inferInstanceAs (Decidable (_ ∧ _))

def IsTree (fs : FileSystem) : Prop :=
  ∀ e ∈ fs.nodes, fs.node? e.1.dropLast = some .directory ∧ ∃ name ∈ e.1.getLast?, IsName name

instance (fs : FileSystem) : Decidable fs.IsTree :=
  inferInstanceAs (Decidable (∀ e ∈ fs.nodes, _ ∧ ∃ name ∈ e.1.getLast?, _))

theorem enter_name {name : Text} (hk : fs.node? k = some .directory) (hname : IsName name) :
    fs.enter k name = .ok (k ++ [name]) := by
  obtain ⟨-, hnil, hdot, hup⟩ := Path.Component.ofSegment?_eq_name_iff.mp hname.1
  unfold enter
  rw [hk]
  dsimp only
  rw [if_neg (by simp [hnil, hdot]), if_neg hup]

namespace IsTree

variable {name : Text} {names : List Text}

theorem of_node? (h : fs.IsTree) (hnode : fs.node? (l ++ [name]) ≠ none) :
    fs.node? l = some .directory ∧ IsName name := by
  obtain ⟨n, hmem⟩ := exists_mem_of_node? (by simp) hnode
  simpa using h _ hmem

theorem isName_of_mem (h : fs.IsTree) (hnode : fs.node? (l ++ names) ≠ none) :
    ∀ name ∈ names, IsName name := by
  induction names using List.reverseRecOn with
  | nil => simp
  | append_singleton names name ih =>
    rw [← List.append_assoc] at hnode
    obtain ⟨hparent, hname⟩ := h.of_node? hnode
    exact List.forall_mem_append.mpr
      ⟨ih (by simp [hparent]), List.forall_mem_singleton.mpr hname⟩

theorem foldlM_enter (h : fs.IsTree) (hnode : fs.node? (l ++ names) ≠ none) :
    names.foldlM fs.enter l = .ok (l ++ names) := by
  induction names using List.reverseRecOn with
  | nil => simp [pure, Except.pure]
  | append_singleton names name ih =>
    rw [← List.append_assoc] at hnode
    obtain ⟨hparent, hname⟩ := h.of_node? hnode
    rw [List.foldlM_append, ih (by simp [hparent])]
    have henter := enter_name hparent hname
    simp [bind, Except.bind, pure, Except.pure, henter]

end IsTree

theorem mem_below_iff {names : List Text} :
    names ∈ fs.below l ↔ names ≠ [] ∧ fs.node? (l ++ names) ≠ none := by
  unfold below
  rw [Sorted.mem_ofList, List.mem_filter, List.mem_filterMap]
  simp only [namesBetween?_eq_some_iff, decide_eq_true_eq]
  constructor
  · rintro ⟨⟨⟨k, n⟩, hmem, rfl⟩, hne⟩
    refine ⟨hne, ?_⟩
    rw [node?, if_neg (by simp [hne])]
    intro hnone
    simpa using List.lookup_eq_none_iff.mp hnone _ hmem
  · rintro ⟨hne, hnode⟩
    obtain ⟨n, hmem⟩ := exists_mem_of_node? (by simp [hne]) hnode
    exact ⟨⟨(l ++ names, n), hmem, rfl⟩, hne⟩

end FileSystem

namespace Search

variable {fs : FileSystem} {base : Path} {k l : Location} {name : Text} {segments : List Text}
  {steps : List SearchStep}

def next (base : Path) (name : Text) : Path := if isHere base then ⟨name⟩ else base.join name

/-- A search has come to a directory. Only the bare dot leaves no trace in what is found. -/
structure StandsAt (fs : FileSystem) (base : Path) (k : Location) : Prop where
  locate_eq : fs.locate base = .ok k
  directory : fs.node? k = some .directory
  here : isHere base = true → base = ⟨['.']⟩

theorem StandsAt.find_eq (h : StandsAt fs base k) : fs.find base = .ok .directory :=
  bind_eq_ok_iff.mpr ⟨k, h.locate_eq, by rw [h.directory]⟩

theorem StandsAt.isDirectory (h : StandsAt fs base k) : fs.isDirectory base = true := by
  rw [FileSystem.isDirectory, h.find_eq]

theorem isHere_name (hslash : '/' ∉ name) : isHere ⟨name⟩ = true ↔ name = ['.'] := by
  have habsolute : Path.isAbsolute ⟨name⟩ = false :=
    beq_false_of_ne fun h => hslash (List.mem_of_head? h)
  have hsegments : Path.segments ⟨name⟩ = [name] := Text.splitOn_of_not_mem hslash
  rw [isHere_iff, Path.components, Path.start, habsolute, hsegments]
  by_cases hdot : name = ['.']
  · subst hdot
    simp [Path.Component.ofSegment?]
  · have hne := Path.Component.ofSegment?_ne_here name
    cases hsegment : Path.Component.ofSegment? name with
    | none => simp [hdot, hsegment]
    | some component =>
      rw [hsegment] at hne
      simpa [hdot, hsegment] using hne

theorem isHere_join (hbase : base.text ≠ []) (hhere : isHere base = false)
    (ht : name.head? ≠ some '/') : isHere (base.join name) = false := by
  rw [Bool.eq_false_iff] at hhere ⊢
  rw [Ne, isHere_iff] at hhere ⊢
  rw [Path.components_join hbase ht, List.append_eq_singleton_iff]
  rintro (⟨-, hmore⟩ | ⟨hsame, -⟩)
  · have hmem : Path.Component.here ∈
        (Text.splitOn '/' name).filterMap Path.Component.ofSegment? := by simp [hmore]
    obtain ⟨segment, -, hsegment⟩ := List.mem_filterMap.mp hmem
    exact Path.Component.ofSegment?_ne_here segment hsegment
  · exact hhere hsame

theorem StandsAt.eq_workingDirectory (h : StandsAt fs base k) (hhere : isHere base = true) :
    k = fs.workingDirectory := by
  have hlocate := h.locate_eq
  rw [h.here hhere] at hlocate
  have hnone : ∀ segment ∈ [['.']], Path.Component.ofSegment? segment = none := by decide
  exact FileSystem.foldlM_enter_of_none hnone hlocate

theorem locate_relative {t : Text} (hne : t ≠ []) (ht : t.head? ≠ some '/') :
    fs.locate ⟨t⟩ = (Text.splitOn '/' t).foldlM fs.enter fs.workingDirectory := by
  have habsolute : Path.isAbsolute ⟨t⟩ = false := beq_false_of_ne ht
  rw [FileSystem.locate, if_neg hne, FileSystem.startOf, habsolute]
  rfl

theorem head?_ne_slash {name : Text} (hslash : '/' ∉ name) : name.head? ≠ some '/' :=
  fun h => hslash (List.mem_of_head? h)

theorem StandsAt.next (h : StandsAt fs base k) (hslash : '/' ∉ name)
    (hlost : ¬ (isHere base = true ∧ name = [])) (henter : fs.enter k name = .ok l)
    (hl : fs.node? l = some .directory) : StandsAt fs (next base name) l := by
  have hhead := head?_ne_slash hslash
  have hfold : (Text.splitOn '/' name).foldlM fs.enter k = .ok l := by
    rw [Text.splitOn_of_not_mem hslash, List.foldlM_cons, henter]
    rfl
  unfold Search.next
  split_ifs with hhere
  · have hne : name ≠ [] := fun hnil => hlost ⟨hhere, hnil⟩
    refine ⟨?_, hl, fun hdot => ?_⟩
    · rw [locate_relative hne hhead, ← h.eq_workingDirectory hhere, hfold]
    · rw [(isHere_name hslash).mp hdot]
  · have hbase := FileSystem.text_ne_nil_of_locate h.locate_eq
    refine ⟨?_, hl, fun hdot => ?_⟩
    · rw [FileSystem.locate_join h.locate_eq hhead, hfold]
    · rw [isHere_join hbase (Bool.eq_false_iff.mpr hhere) hhead] at hdot
      cases hdot

theorem StandsAt.follow_exactly (h : StandsAt fs base k) (hslash : '/' ∉ name)
    (hlost : ¬ (isHere base = true ∧ name = [])) (henter : fs.enter k name = .ok l)
    (hl : fs.node? l = some .directory) (steps : List SearchStep) :
    follow fs (.exactly name :: steps) base = follow fs steps (Search.next base name) := by
  have hnext := h.next hslash hlost henter hl
  have hthere : (if name = ['.'] ∨ name = ['.', '.'] then fs.isDirectory base
      else fs.hasAny (Search.next base name)) = true := by
    split_ifs
    · exact h.isDirectory
    · rw [FileSystem.hasAny, hnext.find_eq]
  rw [follow]
  exact if_pos hthere

/-- A search stands at the dot, and behind more dots there is an empty segment. -/
def Lost (base : Path) (segments : List Text) : Prop :=
  isHere base = true ∧ (segments.dropWhile (· = ['.'])).head? = some []

theorem lost_cons_iff (hbase : base.text ≠ []) (hslash : '/' ∉ name)
    (hlost : ¬ (isHere base = true ∧ name = [])) :
    Lost base (name :: segments) ↔ Lost (Search.next base name) segments := by
  unfold Lost Search.next
  cases hhere : isHere base with
  | false => simp [isHere_join hbase hhere (head?_ne_slash hslash)]
  | true =>
    have hne : name ≠ [] := fun hnil => hlost ⟨hhere, hnil⟩
    rw [if_pos rfl, isHere_name hslash]
    by_cases hdot : name = ['.'] <;> simp [hdot, hne]

/-- Along the segments of a path, a search is lost or comes to where the path leads. -/
theorem StandsAt.walk (h : StandsAt fs base k) (hslash : ∀ segment ∈ segments, '/' ∉ segment)
    (hfold : segments.foldlM fs.enter k = .ok l) (hl : fs.node? l = some .directory)
    (steps : List SearchStep) :
    (Lost base segments → follow fs (segments.map .exactly ++ steps) base = []) ∧
    (¬ Lost base segments → ∃ base', StandsAt fs base' l ∧
      follow fs (segments.map .exactly ++ steps) base = follow fs steps base') := by
  induction segments generalizing base k with
  | nil =>
    cases hfold
    exact ⟨fun hlost => by simp [Lost] at hlost, fun _ => ⟨base, h, rfl⟩⟩
  | cons name segments ih =>
    obtain ⟨hname, hsegments⟩ := List.forall_mem_cons.mp hslash
    by_cases hempty : isHere base = true ∧ name = []
    · obtain ⟨hhere, rfl⟩ := hempty
      refine ⟨fun _ => follow_lost hhere _, fun hlost => absurd ⟨hhere, ?_⟩ hlost⟩
      simp
    · rw [List.foldlM_cons] at hfold
      obtain ⟨k', henter, hfold⟩ := bind_eq_ok_iff.mp hfold
      have hk' := FileSystem.directory_of_foldlM hfold hl
      have hbase := FileSystem.text_ne_nil_of_locate h.locate_eq
      rw [lost_cons_iff hbase hname hempty, List.map_cons, List.cons_append,
        h.follow_exactly hname hempty henter hk']
      exact ih (h.next hname hempty henter hk') hsegments hfold

theorem standsAt_startOf {d : Path} (h : fs.locate d = .ok l)
    (hl : fs.node? l = some .directory) :
    ∃ k, StandsAt fs (startOf d) k ∧ (segmentsOf d).foldlM fs.enter k = .ok l := by
  have hne := FileSystem.text_ne_nil_of_locate h
  rw [FileSystem.locate, if_neg hne] at h
  unfold FileSystem.startOf at h
  unfold startOf segmentsOf
  cases habsolute : d.isAbsolute with
  | true =>
    obtain ⟨r, hr⟩ := List.head?_eq_some_iff.mp (beq_iff_eq.mp habsolute)
    have hsegments : d.segments = [] :: d.segments.tail := by
      rw [Path.segments, hr]
      rfl
    rw [habsolute, if_pos rfl, hsegments, List.foldlM_cons] at h
    exact ⟨[], ⟨rfl, rfl, fun hhere => absurd hhere (by decide)⟩, h⟩
  | false =>
    rw [habsolute, if_neg Bool.false_ne_true] at h
    have hstart := FileSystem.directory_of_foldlM h hl
    have hdot : fs.enter fs.workingDirectory ['.'] = .ok fs.workingDirectory := by
      unfold FileSystem.enter
      rw [hstart]
      rfl
    refine ⟨fs.workingDirectory, ⟨?_, hstart, fun _ => rfl⟩, h⟩
    rw [if_neg Bool.false_ne_true, locate_relative (by simp) (by simp),
      Text.splitOn_of_not_mem (by simp), List.foldlM_cons, hdot]
    rfl

/-- A search is lost on a relative path with an empty segment behind nothing but dots, as
in a dot with a slash behind it. -/
def losesPlace (d : Path) : Bool :=
  !d.isAbsolute && (d.segments.dropWhile (· = ['.'])).head? == some []

theorem lost_startOf_iff (d : Path) :
    Lost (startOf d) (segmentsOf d) ↔ losesPlace d = true := by
  unfold Lost startOf segmentsOf losesPlace
  cases d.isAbsolute with
  | true =>
    have hroot : isHere ⟨['/']⟩ = false := rfl
    simp [hroot]
  | false =>
    have hdot : isHere ⟨['.']⟩ = true := rfl
    simp [hdot]

/-- The names that lead from a place to those below it whose name has an extension. -/
def namesBelow (fs : FileSystem) (extension : Text) (l : Location) : List (List Text) :=
  (fs.below l).filter (lastMatches (.anyText :: Pattern.plain ('.' :: extension)))

theorem StandsAt.follow_anywhere (h : StandsAt fs base l) (pattern : Pattern) :
    follow fs [.anywhere pattern] base =
      ((fs.below l).filter (lastMatches pattern)).map (extend base) := by
  have hplaces : placesBelow fs base = fs.below l := by
    rw [placesBelow, h.locate_eq, h.isDirectory]
    rfl
  have hnil : follow fs [] = fun p => [p] := by
    funext p
    rfl
  rw [follow, hplaces, hnil, List.flatMap_singleton']

/-- A search below a plain path is lost or finds the places with the extension. -/
theorem results_forExtension {d : Path} (h : fs.locate d = .ok l)
    (hl : fs.node? l = some .directory) (extension : Text) :
    (losesPlace d = true → (forExtension d extension).results fs = []) ∧
    (losesPlace d = false → ∃ base, StandsAt fs base l ∧
      (forExtension d extension).results fs = (namesBelow fs extension l).map (extend base)) := by
  obtain ⟨k, hstart, hfold⟩ := standsAt_startOf h hl
  have hslash : ∀ segment ∈ segmentsOf d, '/' ∉ segment := by
    have hsegments : ∀ segment ∈ d.segments, '/' ∉ segment := fun segment hsegment hmem =>
      (Text.mem_of_mem_splitOn hsegment hmem).2 rfl
    unfold segmentsOf
    split_ifs
    · exact fun segment hsegment => hsegments segment (List.mem_of_mem_tail hsegment)
    · exact hsegments
  have hwalk := hstart.walk hslash hfold hl
    [.anywhere (.anyText :: Pattern.plain ('.' :: extension))]
  rw [lost_startOf_iff] at hwalk
  refine ⟨hwalk.1, fun hplace => ?_⟩
  obtain ⟨base, hbase, hfollow⟩ := hwalk.2 (by simp [hplace])
  exact ⟨base, hbase, hfollow.trans (hbase.follow_anywhere _)⟩

section Extend

variable {names : List Text}

theorem splitOn_joined_names (hne : names ≠ []) (hnames : ∀ name ∈ names, FileSystem.IsName name) :
    Text.splitOn '/' (Text.joined ['/'] names) = names :=
  Text.splitOn_joined hne fun name hname => (hnames name hname).2

theorem joined_names_head (hne : names ≠ []) (hnames : ∀ name ∈ names, FileSystem.IsName name) :
    Text.joined ['/'] names ≠ [] ∧ (Text.joined ['/'] names).head? ≠ some '/' := by
  have hsplit := splitOn_joined_names hne hnames
  have hempty : [] ∉ names := fun hmem => by
    simpa [Path.Component.ofSegment?] using (hnames _ hmem).1
  constructor
  · intro hnil
    rw [hnil] at hsplit
    exact hempty (by simp [← hsplit, Text.splitOn])
  · intro hhead
    obtain ⟨r, hr⟩ := List.head?_eq_some_iff.mp hhead
    rw [hr] at hsplit
    exact hempty (by simp [← hsplit, Text.splitOn])

theorem StandsAt.locate_extend (h : StandsAt fs base l) (hfs : fs.IsTree)
    (hnames : names ∈ fs.below l) : fs.locate (extend base names) = .ok (l ++ names) := by
  obtain ⟨hne, hnode⟩ := FileSystem.mem_below_iff.mp hnames
  have hall := hfs.isName_of_mem hnode
  obtain ⟨htail, hhead⟩ := joined_names_head hne hall
  have hfold := hfs.foldlM_enter hnode
  unfold extend
  dsimp only
  split_ifs with hhere
  · rw [locate_relative htail hhead, splitOn_joined_names hne hall,
      ← h.eq_workingDirectory hhere, hfold]
  · rw [FileSystem.locate_join h.locate_eq hhead, splitOn_joined_names hne hall, hfold]

theorem StandsAt.components_extend (h : StandsAt fs base l) (hfs : fs.IsTree)
    (hnames : names ∈ fs.below l) :
    (extend base names).components =
      (if isHere base then [] else base.components) ++ names.map .name := by
  obtain ⟨hne, hnode⟩ := FileSystem.mem_below_iff.mp hnames
  have hall := hfs.isName_of_mem hnode
  obtain ⟨htail, hhead⟩ := joined_names_head hne hall
  have hsplit := splitOn_joined_names hne hall
  have hmap : names.filterMap Path.Component.ofSegment? = names.map .name := by
    rw [List.filterMap_congr fun name hname => (hall name hname).1, List.filterMap_eq_map']
  unfold extend
  dsimp only
  split_ifs with hhere
  · have habsolute : Path.isAbsolute ⟨Text.joined ['/'] names⟩ = false := beq_false_of_ne hhead
    have hdot : names.head? ≠ some ['.'] := fun hdot => by
      simpa [Path.Component.ofSegment?] using (hall _ (List.mem_of_head? hdot)).1
    rw [Path.components, Path.start, habsolute, Path.segments, hsplit, hmap]
    simp [hdot]
  · rw [Path.components_join (FileSystem.text_ne_nil_of_locate h.locate_eq) hhead, hsplit, hmap]

end Extend

end Search

end ClassSchema
