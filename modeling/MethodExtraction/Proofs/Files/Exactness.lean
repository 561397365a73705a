import Mathlib
import MethodExtraction.Proofs.Files.Descent

namespace MethodExtraction.Files

open Text

namespace FileSystem

variable {fs : FileSystem} {p root : Path} {l here t : Location} {name : Name} {names : List Name}

theorem exists_walk_of_resolve_below (hroot : fs.resolve root = .ok l) (hne : names ≠ [])
    (hn : ∀ name ∈ names, IsName name) (h : fs.resolve (root.below names) = .ok t) :
    ∃ links, fs.Walks true links l names (.ok (.existing t)) := by
  have hfollow := follow_segments_of_resolve hroot
  have hu := usable_of_follow hfollow
  have hbelow := follow_segments_of_resolve h
  have ho : fs.origin (root.below names) = fs.origin root := by
    rw [origin, origin, Path.isAbsolute_below hu.ne_nil]
  rw [follow_of_usable hu] at hfollow
  rw [follow_of_usable (usable_of_follow hbelow), Path.segments_below hn, ho] at hbelow
  obtain ⟨links, ha⟩ := (walks_iff.2 hfollow).append hne true
  exact ⟨links, walks_iff.2 (ha.symm.trans hbelow)⟩

theorem Walks.exists_content? {links : Nat}
    (h : fs.Walks true links here names (.ok (.existing t))) (hne : names ≠ [])
    (hn : ∀ name ∈ names, IsName name)
    (hd : ∀ outer, outer <+: names → outer ≠ names → fs.isDirectoryAt (here ++ outer) = true) :
    ∃ content, fs.content? (here ++ names) = some content := by
  generalize hr : Except.ok (Target.existing t) = r at h
  induction h with
  | arrived => exact absurd rfl hne
  | dot _ _ _ => exact absurd rfl (hn _ (List.mem_cons_self ..)).ne_dot
  | dots _ _ _ => exact absurd rfl (hn _ (List.mem_cons_self ..)).ne_dots
  | kept _ _ hc _ => exact ⟨_, hc⟩
  | @link links here name rest target r _ _ hc _ _ _ =>
    by_cases hrest : rest = []
    · subst hrest
      exact ⟨_, hc⟩
    · have hdirectory := isDirectoryAt_iff.1
        (hd [name] ⟨rest, rfl⟩ fun he => hrest (List.cons.inj he).2.symm)
      cases hc.symm.trans hdirectory
  | @enter links here name rest content r _ _ hc _ _ ih =>
    by_cases hrest : rest = []
    · subst hrest
      exact ⟨_, hc⟩
    · rw [List.append_cons]
      apply ih hrest
      · intro name' hm
        exact hn name' (List.mem_cons_of_mem _ hm)
      · intro outer ho hno
        rw [← List.append_cons]
        apply hd (name :: outer) (List.cons_prefix_cons.2 ⟨rfl, ho⟩)
        intro he
        exact hno (List.cons.inj he).2
      · exact hr
  | _ => cases hr

end FileSystem

def OpenDirectory.below (here : OpenDirectory) (names : List Name) : OpenDirectory :=
  ⟨here.path.below names, here.location ++ names⟩

@[simp]
theorem OpenDirectory.below_nil (here : OpenDirectory) : here.below [] = here := by
  rw [below, List.append_nil]
  rfl

theorem OpenDirectory.below_cons (here : OpenDirectory) (name : Name) (names : List Name) :
    here.below (name :: names) = (here.below [name]).below names := by
  rw [below, List.append_cons]
  rfl

namespace FileSystem

variable {fs : FileSystem} {o : WalkOptions} {trail : List OpenDirectory} {here : OpenDirectory}
  {depth : Nat} {name : Name} {names : List Name} {v : Visit}

/-- A directory below an open one that the walk opens as well. -/
structure OpensBelow (fs : FileSystem) (o : WalkOptions) (depth : Nat) (here : OpenDirectory)
    (names : List Name) : Prop where
  depth : ∀ d ∈ o.maxDepth, depth + names.length < d
  directories : ∀ outer, outer <+: names → fs.isDirectoryAt (here.location ++ outer) = true
  readable : ∀ outer, outer <+: names → outer ≠ names →
    (here.path.below outer).bytes.length ≤ pathLimit

inductive VisitsIn (fs : FileSystem) (here : OpenDirectory) : Visit → Prop where
  | entry {e : Name × Content} (hl : here.path.bytes.length ≤ pathLimit)
      (he : e ∈ fs.list here.location) : VisitsIn fs here (.ok (here.path.child e.1))
  | unreadable (hl : pathLimit < here.path.bytes.length) :
      VisitsIn fs here (.error (.unreadable here.path .nameTooLong))

theorem opensBelow_nil : fs.OpensBelow o depth here [] ↔
    (∀ d ∈ o.maxDepth, depth < d) ∧ fs.isDirectoryAt here.location = true := by
  constructor
  · intro h
    refine ⟨h.depth, ?_⟩
    simpa using h.directories [] (List.prefix_refl _)
  · rintro ⟨hdepth, hd⟩
    refine ⟨hdepth, ?_, ?_⟩
    · intro outer ho
      rwa [List.prefix_nil.1 ho, List.append_nil]
    · intro outer ho hne
      exact absurd (List.prefix_nil.1 ho) hne

theorem opensBelow_cons : fs.OpensBelow o depth here (name :: names) ↔
    fs.OpensBelow o depth here [] ∧ here.path.bytes.length ≤ pathLimit ∧
      fs.OpensBelow o (depth + 1) (here.below [name]) names := by
  have happend (outer : List Name) :
      (here.below [name]).location ++ outer = here.location ++ name :: outer := by
    rw [OpenDirectory.below, List.append_assoc]
    rfl
  constructor
  · intro h
    refine ⟨opensBelow_nil.2 ⟨?_, ?_⟩, ?_, ?_, ?_, ?_⟩
    · intro d hd
      exact Nat.lt_of_le_of_lt (Nat.le_add_right ..) (h.depth d hd)
    · simpa using h.directories [] List.nil_prefix
    · exact h.readable [] List.nil_prefix (List.cons_ne_nil _ _).symm
    · intro d hd
      have hlt := h.depth d hd
      rw [List.length_cons] at hlt
      omega
    · intro outer ho
      rw [happend]
      exact h.directories (name :: outer) (List.cons_prefix_cons.2 ⟨rfl, ho⟩)
    · intro outer ho hne
      apply h.readable (name :: outer) (List.cons_prefix_cons.2 ⟨rfl, ho⟩)
      intro he
      exact hne (List.cons.inj he).2
  · rintro ⟨hnil, hl, h⟩
    refine ⟨?_, ?_, ?_⟩
    · intro d hd
      have hlt := h.depth d hd
      rw [List.length_cons]
      omega
    · intro outer ho
      obtain rfl | ⟨outer', rfl, ho'⟩ := List.prefix_cons_iff.1 ho
      · exact hnil.directories [] (List.prefix_refl _)
      · rw [← happend]
        exact h.directories outer' ho'
    · intro outer ho hne
      obtain rfl | ⟨outer', rfl, ho'⟩ := List.prefix_cons_iff.1 ho
      · exact hl
      · apply h.readable outer' ho'
        rintro rfl
        exact hne rfl

theorem OpensBelow.named (ht : fs.IsTree) (h : fs.OpensBelow o depth here names) :
    ∀ name ∈ names, IsName name := by
  intro name hm
  obtain ⟨front, back, rfl⟩ := List.append_of_mem hm
  have hd := isDirectoryAt_iff.1 (h.directories (front ++ [name]) ⟨back, by simp⟩)
  rw [← List.append_assoc] at hd
  exact ht.named _ name .directory (mem_list_of_content? hd)

theorem entryVisits_of_not_followLinks (hf : o.followLinks = false) (e : Name × Content) :
    fs.entryVisits o trail here e = .ok (here.path.child e.1) ::
      if e.2.isDirectory then fs.contents o (here :: trail) (here.below [e.1]) else [] := by
  rw [entryVisits, hf]
  obtain ⟨name, content⟩ := e
  cases content <;> rfl

theorem eq_directory_of_isDirectory {content : Content} (h : content.isDirectory = true) :
    content = .directory := by
  cases content <;> first | rfl | cases h

theorem opensBelow_nil_of_depth (hd : fs.isDirectoryAt here.location = true)
    (h : o.maxDepth.any (· < (here :: trail).length) = false) :
    fs.OpensBelow o trail.length here [] := by
  refine opensBelow_nil.2 ⟨?_, hd⟩
  intro d hm
  have hlt := (Option.any_eq_false ..).1 h d hm
  rw [decide_eq_false_iff_not, List.length_cons] at hlt
  omega

theorem not_opensBelow_of_depth (h : o.maxDepth.any (· < (here :: trail).length) = true) :
    ¬ fs.OpensBelow o trail.length here names := by
  intro ho
  obtain ⟨d, hm, hlt⟩ := (Option.any_eq_true ..).1 h
  have hd := ho.depth d hm
  have hlt := of_decide_eq_true hlt
  rw [List.length_cons] at hlt
  omega

theorem listed_of_opensBelow (h : fs.OpensBelow o trail.length here [])
    (hl : here.path.bytes.length ≤ pathLimit) : Listed o trail here := by
  refine ⟨?_, hl⟩
  apply Bool.eq_false_iff.2
  intro hd
  exact not_opensBelow_of_depth hd h

theorem mem_contents_step (hf : o.followLinks = false)
    (hdirectory : fs.isDirectoryAt here.location = true) :
    v ∈ fs.contents o trail here ↔ fs.OpensBelow o trail.length here [] ∧ (fs.VisitsIn here v ∨
      here.path.bytes.length ≤ pathLimit ∧ ∃ name, (name, .directory) ∈ fs.list here.location ∧
        v ∈ fs.contents o (here :: trail) (here.below [name])) := by
  obtain hd | ⟨hd, hlong⟩ | hl := listed_cases o trail here
  · rw [contents_of_deep hd]
    refine iff_of_false List.not_mem_nil ?_
    rintro ⟨ho, -⟩
    exact not_opensBelow_of_depth hd ho
  · rw [contents_of_long hd hlong, List.mem_singleton]
    constructor
    · rintro rfl
      exact ⟨opensBelow_nil_of_depth hdirectory hd, .inl (.unreadable hlong)⟩
    · rintro ⟨-, hv | ⟨hl, -⟩⟩
      · cases hv with
        | entry hl => exact absurd hl (Nat.not_le.2 hlong)
        | unreadable => rfl
      · exact absurd hl (Nat.not_le.2 hlong)
  · rw [hl.contents_eq, List.mem_flatMap]
    have harranged := fs.arranged_perm o.sorted here.location
    constructor
    · rintro ⟨e, he, hv⟩
      refine ⟨opensBelow_nil_of_depth hdirectory hl.depth, ?_⟩
      rw [entryVisits_of_not_followLinks hf] at hv
      obtain rfl | hv := List.mem_cons.1 hv
      · exact .inl (.entry hl.length (harranged.subset he))
      · by_cases hd : e.2.isDirectory = true
        · rw [if_pos hd] at hv
          obtain ⟨name, content⟩ := e
          obtain rfl := eq_directory_of_isDirectory hd
          exact .inr ⟨hl.length, name, harranged.subset he, hv⟩
        · rw [if_neg hd] at hv
          cases hv
    · rintro ⟨-, hv | ⟨-, name, hm, hv⟩⟩
      · cases hv with
        | @entry e _ he =>
          refine ⟨e, harranged.mem_iff.2 he, ?_⟩
          rw [entryVisits_of_not_followLinks hf]
          exact List.mem_cons_self ..
        | unreadable hlong => exact absurd hl.length (Nat.not_le.2 hlong)
      · refine ⟨_, harranged.mem_iff.2 hm, ?_⟩
        rw [entryVisits_of_not_followLinks hf]
        exact List.mem_cons_of_mem _ hv

/-- What is visited in a directory: all that is visited in those that are opened from it. -/
theorem mem_contents_iff (ht : fs.IsTree) (hf : o.followLinks = false)
    (trail : List OpenDirectory) (here : OpenDirectory)
    (hdirectory : fs.isDirectoryAt here.location = true) :
    v ∈ fs.contents o trail here ↔
      ∃ names, fs.OpensBelow o trail.length here names ∧ fs.VisitsIn (here.below names) v := by
  induction trail, here using contents_induction fs o with
  | step trail here ih =>
    rw [mem_contents_step hf hdirectory]
    constructor
    · rintro ⟨hnil, hv | ⟨hl, name, hm, hv⟩⟩
      · exact ⟨[], hnil, by rwa [OpenDirectory.below_nil]⟩
      · have hd := isDirectoryAt_iff.2 ((content?_eq_some_iff ht.distinct).2 hm)
        have hlisted := listed_of_opensBelow hnil hl
        have he := (fs.arranged_perm o.sorted here.location).mem_iff.2 hm
        obtain ⟨names, ho, hv⟩ := (ih hlisted _ he _ (.directory name) hd).1 hv
        refine ⟨name :: names, opensBelow_cons.2 ⟨hnil, hl, ho⟩, ?_⟩
        rwa [OpenDirectory.below_cons]
    · rintro ⟨names, ho, hv⟩
      cases names with
      | nil =>
        rw [OpenDirectory.below_nil] at hv
        exact ⟨ho, .inl hv⟩
      | cons name names =>
        obtain ⟨hnil, hl, ho⟩ := opensBelow_cons.1 ho
        have hd : fs.isDirectoryAt (here.location ++ [name]) = true := by
          have hd := ho.directories [] List.nil_prefix
          rwa [List.append_nil] at hd
        have hm := mem_list_of_content? (isDirectoryAt_iff.1 hd)
        have hlisted := listed_of_opensBelow hnil hl
        have he := (fs.arranged_perm o.sorted here.location).mem_iff.2 hm
        rw [OpenDirectory.below_cons] at hv
        have hc := (ih hlisted _ he _ (.directory name) hd).2 ⟨names, ho, hv⟩
        exact ⟨hnil, .inr ⟨hl, name, hm, hc⟩⟩

variable {root p : Path} {l : Location} {e : WalkError}

theorem mem_visits_iff (ht : fs.IsTree) (hf : o.followLinks = false)
    (hr : fs.resolve root = .ok l) :
    v ∈ fs.visits o root ↔ v = .ok root ∨
      ∃ names, fs.OpensBelow o 0 ⟨root, l⟩ names ∧ fs.VisitsIn (.below ⟨root, l⟩ names) v := by
  rw [visits, hr]
  by_cases hd : fs.isDirectoryAt l = true
  · simp only [if_pos hd]
    rw [List.mem_cons, mem_contents_iff ht hf [] ⟨root, l⟩ hd]
    rfl
  · simp only [if_neg hd]
    rw [List.mem_singleton, or_iff_left]
    rintro ⟨names, ho, -⟩
    apply hd
    have hnil := ho.directories [] List.nil_prefix
    rwa [List.append_nil] at hnil

/-- A source file below a root that leads to `l`, by its names from there on. Above it there are only
directories, the root itself possibly being a link to one. -/
structure FoundBelow (fs : FileSystem) (o : SourceOptions) (root : Path) (l : Location)
    (names : List Name) : Prop where
  named : ∀ name ∈ names, IsName name
  depth : ∀ d ∈ o.maxDepth, names.length ≤ d
  directories : ∀ outer, outer <+: names → outer ≠ names → fs.isDirectoryAt (l ++ outer) = true
  suffix : hasSuffix (root.below names) o.suffix = true
  file : fs.isFile (root.below names) = true

theorem resolve_of_isFile (h : fs.isFile p = true) : ∃ t, fs.resolve p = .ok t := by
  rw [isFile, contentOf] at h
  cases hr : fs.resolve p with
  | ok t => exact ⟨t, rfl⟩
  | error e =>
    rw [hr] at h
    cases h

theorem below_snoc (root : Path) (names : List Name) (name : Name) :
    root.below (names ++ [name]) = (root.below names).child name := Path.below_append ..

theorem FoundBelow.mem_visits {o : SourceOptions} (ht : fs.IsTree) (hf : o.followLinks = false)
    (hr : fs.resolve root = .ok l) (h : fs.FoundBelow o root l names) :
    .ok (root.below names) ∈ fs.visits o.toWalkOptions root := by
  rw [mem_visits_iff ht hf hr]
  obtain ⟨t, hresolve⟩ := resolve_of_isFile h.file
  cases names using List.reverseRecOn with
  | nil => exact .inl rfl
  | append_singleton names name =>
    have hne : names ++ [name] ≠ [] := by simp
    have hproper {outer : List Name} (ho : outer <+: names) :
        outer <+: names ++ [name] ∧ outer ≠ names ++ [name] := by
      refine ⟨ho.trans (List.prefix_append ..), ?_⟩
      rintro rfl
      have hle := ho.length_le
      rw [List.length_append, List.length_singleton] at hle
      omega
    have hlength {outer : List Name} (ho : outer <+: names) :
        (root.below outer).bytes.length ≤ pathLimit := by
      apply (Path.length_below_le (hproper ho).1).trans
      exact (usable_of_follow (follow_segments_of_resolve hresolve)).length
    obtain ⟨links, hw⟩ := exists_walk_of_resolve_below hr hne h.named hresolve
    obtain ⟨content, hc⟩ := hw.exists_content? hne h.named h.directories
    rw [← List.append_assoc] at hc
    refine .inr ⟨names, ⟨?_, ?_, ?_⟩, ?_⟩
    · intro d hd
      have hle := h.depth d hd
      rw [List.length_append, List.length_singleton] at hle
      omega
    · intro outer ho
      exact h.directories outer (hproper ho).1 (hproper ho).2
    · intro outer ho _
      exact hlength ho
    · rw [below_snoc]
      exact .entry (hlength (List.prefix_refl _)) (mem_list_of_content? hc)

theorem foundBelow_of_mem_visits {o : SourceOptions} (ht : fs.IsTree)
    (hf : o.followLinks = false) (hr : fs.resolve root = .ok l)
    (h : .ok p ∈ fs.visits o.toWalkOptions root) (hs : fs.isSourceFile p o.suffix = true) :
    ∃ names, fs.FoundBelow o root l names ∧ root.below names = p := by
  obtain ⟨hsuffix, hfile⟩ := Bool.and_eq_true_iff.1 hs
  obtain he | ⟨names, ho, hv⟩ := (mem_visits_iff ht hf hr).1 h
  · obtain rfl := Except.ok.inj he
    refine ⟨[], ⟨?_, ?_, ?_, hsuffix, hfile⟩, rfl⟩
    · intro name hm
      cases hm
    · intro d _
      exact Nat.zero_le d
    · intro outer ho hne
      exact absurd (List.prefix_nil.1 ho) hne
  -- the indices of `VisitsIn` have to be variables before the visit can be taken apart
  · generalize hopened : OpenDirectory.below ⟨root, l⟩ names = opened at hv
    generalize hvisit : (Except.ok p : Visit) = visit at hv
    cases hv with
    | unreadable => cases hvisit
    | @entry e hl he =>
      subst hopened
      obtain rfl := Except.ok.inj hvisit
      have hb := below_snoc root names e.1
      refine ⟨names ++ [e.1], ⟨?_, ?_, ?_, ?_, ?_⟩, hb⟩
      · intro name hm
        obtain hm | hm := List.mem_append.1 hm
        · exact ho.named ht name hm
        · rw [List.mem_singleton.1 hm]
          exact ht.named _ e.1 e.2 he
      · intro d hd
        have hlt := ho.depth d hd
        rw [List.length_append, List.length_singleton]
        omega
      · intro outer houter hne
        apply ho.directories
        exact (List.prefix_concat_iff.1 houter).resolve_left hne
      · rw [hb]
        exact hsuffix
      · rw [hb]
        exact hfile

theorem ok_mem_sourceFiles_iff {o : SourceOptions} (ht : fs.IsTree) (hf : o.followLinks = false)
    (hr : fs.resolve root = .ok l) :
    .ok p ∈ fs.sourceFiles o root ↔ ∃ names, fs.FoundBelow o root l names ∧ root.below names = p := by
  rw [sourceFiles, List.mem_filter]
  constructor
  · rintro ⟨hm, hs⟩
    exact foundBelow_of_mem_visits ht hf hr hm hs
  · rintro ⟨names, h, rfl⟩
    refine ⟨h.mem_visits ht hf hr, ?_⟩
    exact Bool.and_eq_true_iff.2 ⟨h.suffix, h.file⟩

theorem error_mem_sourceFiles_iff {o : SourceOptions} (ht : fs.IsTree)
    (hf : o.followLinks = false) (hr : fs.resolve root = .ok l) :
    .error e ∈ fs.sourceFiles o root ↔ ∃ names,
      fs.OpensBelow o.toWalkOptions 0 ⟨root, l⟩ names ∧
        pathLimit < (root.below names).bytes.length ∧
        e = .unreadable (root.below names) .nameTooLong := by
  have hroot : (.error e : Visit) ≠ .ok root := by
    intro he
    cases he
  rw [sourceFiles, List.mem_filter, and_iff_left rfl, mem_visits_iff ht hf hr,
    or_iff_right hroot]
  apply exists_congr
  intro names
  apply and_congr_right
  intro _
  constructor
  · generalize hvisit : (Except.error e : Visit) = visit
    rintro (⟨-, -⟩ | hl)
    · cases hvisit
    · exact ⟨hl, Except.error.inj hvisit⟩
  · rintro ⟨hl, rfl⟩
    exact .unreadable hl

theorem nodup_visits (ht : fs.IsTree) (o : WalkOptions) (root : Path) :
    (fs.visits o root).Nodup := by
  have hp := pairwise_visits (o := o) ht (r := (· ≠ ·))
    (fun l => (pairwise_arranged ht.distinct o.sorted l).imp And.left) root
  refine hp.imp ?_
  rintro v w hlex rfl
  exact hlex.to_ne rfl

theorem pairwise_lt_sourceFiles {o : SourceOptions} (ht : fs.IsTree) (hs : o.sorted = true)
    (root : Path) :
    ((fs.sourceFiles o root).filterMap Except.toOption).Pairwise fun p q =>
      p.segments < q.segments := by
  have hp := pairwise_visits (o := o.toWalkOptions) ht (r := (· < ·))
    (fun l => (pairwise_arranged ht.distinct o.sorted l).imp fun h => h.2 hs) root
  rw [List.pairwise_filterMap, sourceFiles]
  refine (hp.filter _).imp ?_
  rintro v w hlex p hv q hw
  cases v with
  | error e => cases hv
  | ok p' =>
    cases w with
    | error e => cases hw
    | ok q' =>
      obtain rfl := Option.some.inj hv
      obtain rfl := Option.some.inj hw
      exact hlex

/-- What is found below a root that leads to `l`: just the source files that are there, each once,
and an error for each directory with a path that is too long to read it. -/
structure FoundExactly (fs : FileSystem) (o : SourceOptions) (root : Path) (l : Location)
    (found : List Visit) : Prop where
  paths : ∀ p, .ok p ∈ found ↔ ∃ names, fs.FoundBelow o root l names ∧ root.below names = p
  errors : ∀ e, .error e ∈ found ↔ ∃ names,
    fs.OpensBelow o.toWalkOptions 0 ⟨root, l⟩ names ∧ pathLimit < (root.below names).bytes.length ∧
      e = .unreadable (root.below names) .nameTooLong
  nodup : found.Nodup
  increasing : o.sorted = true →
    (found.filterMap Except.toOption).Pairwise fun p q => p.segments < q.segments

/-- Without links to follow, a walk from a root that leads somewhere finds every source file below
it once, and nothing else. -/
theorem foundExactly_sourceFiles {o : SourceOptions} (ht : fs.IsTree)
    (hf : o.followLinks = false) (hr : fs.resolve root = .ok l) :
    fs.FoundExactly o root l (fs.sourceFiles o root) where
  paths := fun _ => ok_mem_sourceFiles_iff ht hf hr
  errors := fun _ => error_mem_sourceFiles_iff ht hf hr
  nodup := (nodup_visits ht o.toWalkOptions root).filter _
  increasing := fun hs => pairwise_lt_sourceFiles ht hs root

def linked : FileSystem where
  entries :=
    [([Utf8.encode "lib"], .directory),
      ([Utf8.encode "lib", Utf8.encode "c.java"], .directory),
      ([Utf8.encode "lib", Utf8.encode "c.java", Utf8.encode "C.java"], .file .empty),
      ([Utf8.encode "lib", Utf8.encode "c.java", Utf8.encode "up"], .link (.ofText "..")),
      ([Utf8.encode "lib", Utf8.encode "D.java"], .link (.ofText "c.java/C.java")),
      ([Utf8.encode "lib", Utf8.encode "E.java"], .link (.ofText "nowhere")),
      ([Utf8.encode "src"], .link (.ofText "lib"))]
  home := []

theorem foundExactly_linked :
    linked.IsTree ∧ linked.resolve (.ofText "src") = .ok [Utf8.encode "lib"] ∧
      linked.sourceFiles { sorted := true } (.ofText "src") =
        ["src/D.java", "src/c.java/C.java"].map (.ok ∘ Path.ofText) ∧
      linked.FoundExactly { sorted := true } (.ofText "src") [Utf8.encode "lib"]
        (linked.sourceFiles { sorted := true } (.ofText "src")) := by
  have ht : linked.IsTree := isTree_of_entries (by decide) (by decide)
  have hr : linked.resolve (.ofText "src") = .ok [Utf8.encode "lib"] := by cbv
  refine ⟨ht, hr, ?_, foundExactly_sourceFiles ht rfl hr⟩
  cbv

def longName : Name := List.replicate 200 0x65

def nested : FileSystem where
  entries := [([[0x64]], .directory), ([[0x64], longName], .directory)]
  home := []

@[irreducible]
def slashes : Path := ⟨0x64 :: List.replicate 3900 slash⟩

theorem segments_replicate_slash (n : Nat) : Path.segments ⟨List.replicate n slash⟩ = [] := by
  induction n with
  | zero => rfl
  | succ n ih =>
    rw [List.replicate_succ, ← List.nil_append (slash :: _), Path.segments_append, ih]
    rfl

theorem resolve_slashes : nested.resolve slashes = .ok [[0x64]] := by
  have hu : slashes.Usable := by
    refine ⟨?_, ?_, by rw [slashes]; exact List.cons_ne_nil _ _⟩
    · rw [slashes, List.contains_cons, List.contains_replicate]
      rfl
    · rw [slashes, List.length_cons, List.length_replicate]
      decide
  have hs : slashes.segments = [[0x64]] := by
    rw [slashes, List.replicate_succ, ← List.singleton_append, Path.segments_append,
      segments_replicate_slash]
    rfl
  have he : slashes.endsInSlash = true := by
    rw [Path.endsInSlash, slashes, List.getLast?_cons, List.getLast?_replicate]
    rfl
  have ho : nested.origin slashes = [] := ite_self _
  rw [resolve_eq_ok_iff, follow_of_usable hu, Path.names, hs, if_pos he, ho]
  cbv

theorem error_mem_sourceFiles_nested (followLinks : Bool) :
    .error (.unreadable (slashes.child longName) .nameTooLong) ∈
      nested.sourceFiles { followLinks } slashes := by
  have hlisted : Listed { followLinks } [] ⟨slashes, [[0x64]]⟩ := by
    refine ⟨rfl, ?_⟩
    rw [slashes, List.length_cons, List.length_replicate]
    decide
  have hlong : pathLimit < (slashes.child longName).bytes.length := by
    obtain ⟨front, hb, hp, -⟩ := Path.exists_bytes_child slashes longName
    have hl := hp.length_le
    rw [slashes, List.length_cons, List.length_replicate] at hl
    rw [hb, List.length_append, longName, List.length_replicate, pathLimit]
    omega
  have he : (longName, Content.directory) ∈ nested.arranged false [[0x64]] := List.mem_cons_self ..
  rw [sourceFiles, List.mem_filter, and_iff_left rfl, visits, resolve_slashes]
  apply List.mem_cons_of_mem
  have hd : nested.isDirectoryAt [[0x64]] = true := rfl
  rw [if_pos hd, hlisted.contents_eq, List.mem_flatMap]
  refine ⟨_, he, List.mem_cons_of_mem _ ?_⟩
  change _ ∈ nested.contents { followLinks } [⟨slashes, [[0x64]]⟩] ⟨slashes.child longName, _⟩
  rw [contents_of_long rfl hlong]
  exact List.mem_singleton_self _

/-- A directory that cannot be read leaves an error, although all there is are two directories. -/
theorem sourceFiles_nested :
    nested.IsTree ∧ nested.resolve slashes = .ok [[0x64]] ∧
      .error (.unreadable (slashes.child longName) .nameTooLong) ∈
        nested.sourceFiles {} slashes :=
  ⟨isTree_of_entries (by decide) (by decide), resolve_slashes, error_mem_sourceFiles_nested false⟩

end FileSystem

end MethodExtraction.Files
