import Mathlib.Data.List.Flatten
import MethodExtraction.Proofs.Files.Exactness
import MethodExtraction.Proofs.Files.Stepwise

namespace MethodExtraction.Files

open Text

def Visit.depth (root : Path) (v : Visit) : Nat := v.place.length - root.segments.length

namespace FileSystem

variable {fs : FileSystem} {o : WalkOptions} {trail : List OpenDirectory} {here : OpenDirectory}

section Depth

variable (ht : fs.IsTree) (d : Nat) {r : Nat}

include ht

theorem limit_contents (trail : List OpenDirectory) (here : OpenDirectory)
    (hr : here.path.segments.length = r + trail.length) :
    fs.contents { o with maxDepth := some d } trail here =
      (fs.contents { o with maxDepth := none } trail here).filter fun v =>
        decide (v.place.length ≤ r + d) := by
  induction trail, here using contents_induction fs { o with maxDepth := none } with
  | step trail here ih =>
    by_cases hd : d < (here :: trail).length
    -- a directory at the limit is not read, and all that would be visited in it stands deeper
    · have hlimit : (some d).any (· < (here :: trail).length) = true := decide_eq_true hd
      rw [contents_of_deep hlimit, eq_comm, List.filter_eq_nil_iff]
      intro v hv
      obtain ⟨name, rest, hp⟩ := place_of_mem_contents ht trail here v hv
      rw [List.length_cons] at hd
      rw [decide_eq_true_eq, hp, List.length_append, List.length_cons]
      omega
    · have hkept : here.path.segments.length + 1 ≤ r + d := by
        rw [List.length_cons] at hd
        omega
      have hlimit : (some d).any (· < (here :: trail).length) = false := by simpa using hd
      obtain hn | ⟨hn, hlong⟩ | hl := listed_cases { o with maxDepth := none } trail here
      · cases hn
      · rw [contents_of_long hn hlong, contents_of_long hlimit hlong, List.filter_cons_of_pos]
        · rfl
        · simpa [Visit.place] using hkept
      · have hl' : Listed { o with maxDepth := some d } trail here := ⟨hlimit, hl.length⟩
        rw [hl.contents_eq, hl'.contents_eq, List.filter_flatMap]
        apply List.flatMap_congr
        intro e he
        have hname : IsName e.1 :=
          ht.named here.location _ e.2 ((fs.arranged_perm ..).subset he)
        have hchild : (here.path.child e.1).segments.length = here.path.segments.length + 1 := by
          rw [Path.segments_child hname.ne_nil hname.slash, List.length_append,
            List.length_singleton]
        rw [entryVisits, entryVisits]
        obtain ⟨v, hv, hp⟩ | ⟨l, he', hv⟩ := fs.visitEntry_cases o.followLinks trail here e
        · rw [hv, List.filter_cons_of_pos]
          · rfl
          · rw [decide_eq_true_eq, hp.place, hchild]
            exact hkept
        · rw [hv, List.filter_cons_of_pos]
          · apply congrArg (_ :: ·)
            apply ih hl e he l he'
            rw [hchild, hr, List.length_cons, Nat.add_assoc]
          · rw [decide_eq_true_eq]
            exact hchild.le.trans hkept

/-- The visits of a walk that is limited to a depth are those of one that is not, up to this depth. -/
theorem limit_visits (root : Path) :
    fs.visits { o with maxDepth := some d } root =
      (fs.visits { o with maxDepth := none } root).filter fun v => decide (v.depth root ≤ d) := by
  have hroot (v : Visit) (vs : List Visit) (hv : v.place = root.segments) :
      (v :: vs).filter (fun v => decide (v.depth root ≤ d)) =
        v :: vs.filter fun v => decide (v.depth root ≤ d) := by
    apply List.filter_cons_of_pos
    rw [Visit.depth, hv, Nat.sub_self]
    exact decide_eq_true (Nat.zero_le d)
  rw [visits, visits]
  cases fs.resolve root with
  | error e => exact (hroot _ [] rfl).symm
  | ok l =>
    simp only
    rw [hroot _ _ rfl]
    apply congrArg (_ :: ·)
    by_cases hd : fs.isDirectoryAt l = true
    · rw [if_pos hd, if_pos hd, limit_contents ht d [] ⟨root, l⟩ (r := root.segments.length) rfl]
      apply List.filter_congr
      intro v _
      rw [Visit.depth, decide_eq_decide]
      omega
    · rw [if_neg hd, if_neg hd, List.filter_nil]

theorem limit_sourceFiles (o : SourceOptions) (root : Path) :
    fs.sourceFiles { o with maxDepth := some d } root =
      (fs.sourceFiles { o with maxDepth := none } root).filter fun v =>
        decide (v.depth root ≤ d) := by
  rw [sourceFiles, sourceFiles, List.filter_filter, List.filter_congr fun _ _ => Bool.and_comm ..,
    ← List.filter_filter]
  exact congrArg _ (limit_visits ht d (o := o.toWalkOptions) root)

end Depth

theorem visitEntry_of_isFile {e : Name × Content} (followLinks : Bool)
    (h : fs.isFile (here.path.child e.1) = true) :
    (fs.visitEntry followLinks trail here e).1 = .ok (here.path.child e.1) := by
  obtain ⟨name, content⟩ := e
  cases content with
  | link target =>
    simp only [visitEntry]
    by_cases hf : followLinks = true
    · simp only [if_pos hf]
      obtain ⟨l, hr⟩ := resolve_of_isFile h
      rw [isFile, contentOf, hr] at h
      rw [hr]
      by_cases hd : fs.isDirectoryAt l = true
      · simp only [bind, Except.bind, isDirectoryAt_iff.1 hd] at h
        cases h
      · simp only [if_neg hd]
    · simp only [if_neg hf]
  | _ => rfl

def sourcePath? (fs : FileSystem) (suffix : String) : Visit → Option Path
  | .ok p => if fs.isSourceFile p suffix then some p else none
  | .error _ => none

theorem sourcePath?_visitEntry (suffix : String) (followLinks : Bool) (e : Name × Content) :
    fs.sourcePath? suffix (fs.visitEntry followLinks trail here e).1 =
      fs.sourcePath? suffix (.ok (here.path.child e.1)) := by
  by_cases hfile : fs.isFile (here.path.child e.1) = true
  · rw [visitEntry_of_isFile followLinks hfile]
  · have hs : ¬ fs.isSourceFile (here.path.child e.1) suffix = true := fun h =>
      hfile (Bool.and_eq_true_iff.1 h).2
    have hnone : fs.sourcePath? suffix (.ok (here.path.child e.1)) = none := if_neg hs
    obtain ⟨v, hv, hp⟩ | ⟨l, -, hv⟩ := fs.visitEntry_cases followLinks trail here e
    · rw [hv]
      cases v with
      | error err => exact hnone.symm
      | ok p => rw [hp.path p rfl]
    · rw [hv]

theorem filterMap_sourceFiles (o : SourceOptions) (root : Path) :
    (fs.sourceFiles o root).filterMap Except.toOption =
      (fs.visits o.toWalkOptions root).filterMap (fs.sourcePath? o.suffix) := by
  rw [sourceFiles, List.filterMap_filter]
  apply List.filterMap_congr
  intro v _
  cases v with
  | error e => rfl
  | ok p => rfl

theorem contents_sublist_followed (suffix : String) (trail : List OpenDirectory)
    (here : OpenDirectory) :
    ((fs.contents { o with followLinks := false } trail here).filterMap
      (fs.sourcePath? suffix)).Sublist
      ((fs.contents { o with followLinks := true } trail here).filterMap
        (fs.sourcePath? suffix)) := by
  induction trail, here using
    contents_induction fs { o with followLinks := false } with
  | step trail here ih =>
    obtain hd | ⟨hd, hlong⟩ | hl := listed_cases { o with followLinks := false } trail here
    · rw [contents_of_deep hd]
      exact List.nil_sublist _
    · rw [contents_of_long hd hlong,
        contents_of_long (o := { o with followLinks := true }) hd hlong]
    · have hl' : Listed { o with followLinks := true } trail here := ⟨hl.depth, hl.length⟩
      rw [hl.contents_eq, hl'.contents_eq, List.filterMap_flatMap, List.filterMap_flatMap]
      apply List.Sublist.flatMap_right
      intro e he
      have hrest : ((if e.2.isDirectory then fs.contents { o with followLinks := false }
          (here :: trail) (here.below [e.1]) else []).filterMap (fs.sourcePath? suffix)).Sublist
          ((((fs.visitEntry true trail here e).2.map
            (fs.contents { o with followLinks := true } (here :: trail))).getD []).filterMap
              (fs.sourcePath? suffix)) := by
        obtain ⟨name, content⟩ := e
        cases content with
        | directory => exact ih hl _ he _ (.directory name)
        | _ => exact List.nil_sublist _
      rw [entryVisits_of_not_followLinks rfl, entryVisits, List.filterMap_cons,
        List.filterMap_cons, sourcePath?_visitEntry]
      cases fs.sourcePath? suffix (.ok (here.path.child e.1)) with
      | none => exact hrest
      | some p => exact hrest.cons_cons p

theorem sourceFiles_sublist_followed (o : SourceOptions) (root : Path) :
    ((fs.sourceFiles { o with followLinks := false } root).filterMap Except.toOption).Sublist
      ((fs.sourceFiles { o with followLinks := true } root).filterMap Except.toOption) := by
  rw [filterMap_sourceFiles, filterMap_sourceFiles, visits, visits]
  cases fs.resolve root with
  | error e => exact List.Sublist.refl _
  | ok l =>
    simp only
    rw [List.filterMap_cons, List.filterMap_cons]
    have hrest : ((if fs.isDirectoryAt l then fs.contents { o with followLinks := false }
        [] ⟨root, l⟩ else []).filterMap (fs.sourcePath? o.suffix)).Sublist
        ((if fs.isDirectoryAt l then fs.contents { o with followLinks := true }
          [] ⟨root, l⟩ else []).filterMap (fs.sourcePath? o.suffix)) := by
      by_cases hd : fs.isDirectoryAt l = true
      · rw [if_pos hd, if_pos hd]
        exact contents_sublist_followed o.suffix [] ⟨root, l⟩ (o := o.toWalkOptions)
      · rw [if_neg hd, if_neg hd]
    cases fs.sourcePath? o.suffix (.ok root) with
    | none => exact hrest
    | some p => exact hrest.cons_cons p

/-- What can be relied on when links are followed. The walk ends; the source files that are found
without following links are found all the same, in the same order; and a limit on the depth leaves
out just the visits that stand deeper. -/
structure Dependable (fs : FileSystem) (o : SourceOptions) (root : Path) : Prop where
  ends : ∃ visits, fs.Ends o.toWalkOptions (fs.start o.toWalkOptions root).2 visits ∧
    fs.visits o.toWalkOptions root = (fs.start o.toWalkOptions root).1 ++ visits
  followed : ((fs.sourceFiles { o with followLinks := false } root).filterMap
    Except.toOption).Sublist
      ((fs.sourceFiles { o with followLinks := true } root).filterMap Except.toOption)
  limited : ∀ d, fs.sourceFiles { o with maxDepth := some d } root =
    (fs.sourceFiles { o with maxDepth := none } root).filter fun v => decide (v.depth root ≤ d)

theorem dependable_of_isTree (ht : fs.IsTree) (o : SourceOptions) (root : Path) :
    fs.Dependable o root where
  ends := fs.ends_start o.toWalkOptions root
  followed := sourceFiles_sublist_followed o root
  limited := fun d => limit_sourceFiles ht d o root

def crossed : FileSystem where
  entries :=
    [([Utf8.encode "a"], .directory),
      ([Utf8.encode "a", Utf8.encode "A.java"], .file .empty),
      ([Utf8.encode "a", Utf8.encode "b"], .link (.ofText "../b")),
      ([Utf8.encode "b"], .directory),
      ([Utf8.encode "b", Utf8.encode "B.java"], .file .empty),
      ([Utf8.encode "b", Utf8.encode "a"], .link (.ofText "../a"))]
  home := []

theorem dependable_crossed :
    crossed.IsTree ∧
      crossed.sourceFiles { followLinks := true, sorted := true } (.ofText "a") =
        [.ok (.ofText "a/A.java"), .ok (.ofText "a/b/B.java"),
          .error (.loop (.ofText "a/b/a") (.ofText "a"))] ∧
      crossed.Dependable { followLinks := true, sorted := true } (.ofText "a") := by
  have ht : crossed.IsTree := isTree_of_entries (by decide) (by decide)
  refine ⟨ht, ?_, dependable_of_isTree ht _ _⟩
  cbv

/-- The error for a directory that cannot be read has the path of this directory. A walk that is
limited to the depth of this path does not read the directory. -/
theorem limit_nested :
    nested.IsTree ∧
      .error (.unreadable (slashes.child longName) .nameTooLong) ∈
        nested.sourceFiles { followLinks := true } slashes ∧
      (slashes.child longName).segments.length = slashes.segments.length + 1 ∧
      .error (.unreadable (slashes.child longName) .nameTooLong) ∉
        nested.sourceFiles { followLinks := true, maxDepth := some 1 } slashes := by
  have ht : nested.IsTree := isTree_of_entries (by decide) (by decide)
  have hchild : (slashes.child longName).segments = slashes.segments ++ [longName] :=
    Path.segments_child (by decide) (by decide)
  refine ⟨ht, error_mem_sourceFiles_nested true, ?_, ?_⟩
  · rw [hchild, List.length_append, List.length_singleton]
  · intro h
    rw [limit_sourceFiles ht 1 { followLinks := true }] at h
    have hdepth := of_decide_eq_true (List.mem_filter.1 h).2
    rw [Visit.depth, Visit.place, hchild, List.length_append, List.length_append,
      List.length_singleton, List.length_singleton] at hdepth
    omega

end FileSystem

end MethodExtraction.Files
