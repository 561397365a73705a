import MethodExtraction.Files.Walk

namespace MethodExtraction.Files

/-- Where a visit stands: the names of its path. An error in the place of the contents of a directory
stands below that directory, at no name. -/
def Visit.place : Visit → List Name
  | .ok p => p.segments
  | .error (.unreadable p _) => p.segments ++ [[]]
  | .error e => e.path.segments

namespace FileSystem

variable {fs : FileSystem} {o : WalkOptions} {trail : List OpenDirectory} {here : OpenDirectory}

def visitEntry (fs : FileSystem) (followLinks : Bool) (trail : List OpenDirectory)
    (here : OpenDirectory) : Name × Content → Visit × Option OpenDirectory
  | (name, .directory) =>
    (.ok (here.path.child name), some ⟨here.path.child name, here.location ++ [name]⟩)
  | (name, .link _) =>
    if followLinks then
      match fs.resolve (here.path.child name) with
      | .error e => (.error (.unreachable (here.path.child name) e), none)
      | .ok location =>
        if fs.isDirectoryAt location then
          match (here :: trail).find? (·.location == location) with
          | some ancestor => (.error (.loop (here.path.child name) ancestor.path), none)
          | none => (.ok (here.path.child name), some ⟨here.path.child name, location⟩)
        else (.ok (here.path.child name), none)
    else (.ok (here.path.child name), none)
  | (name, _) => (.ok (here.path.child name), none)

def entryVisits (fs : FileSystem) (o : WalkOptions) (trail : List OpenDirectory)
    (here : OpenDirectory) (e : Name × Content) : List Visit :=
  (fs.visitEntry o.followLinks trail here e).1 ::
    ((fs.visitEntry o.followLinks trail here e).2.map (fs.contents o (here :: trail))).getD []

theorem contents_eq (o : WalkOptions) (trail : List OpenDirectory) (here : OpenDirectory) :
    fs.contents o trail here =
      if o.maxDepth.any (· < (here :: trail).length) then []
      else if pathLimit < here.path.bytes.length then [.error (.unreadable here.path .nameTooLong)]
      else (fs.arranged o.sorted here.location).flatMap (fs.entryVisits o trail here) := by
  rw [contents]
  split
  next => rfl
  split
  next => rfl
  next =>
    rw [List.flatMap_subtype (g := fs.entryVisits o trail here), List.unattach_attach]
    rintro ⟨name, content⟩ h
    cases content with
    | link target =>
      simp only [entryVisits, visitEntry]
      by_cases hf : o.followLinks = true
      · simp only [if_pos hf]
        cases hr : fs.resolve (here.path.child name) with
        | error e => rfl
        | ok location =>
          by_cases hd : fs.isDirectoryAt location = true
          · simp only [hd, dite_true, if_true]
            split <;> simp only [*] <;> rfl
          · simp only [hd]
            rfl
      · simp only [if_neg hf]
        rfl
    | _ => rfl

/-- A directory whose entries are visited: the walk goes deep enough, and the path can be read. -/
structure Listed (o : WalkOptions) (trail : List OpenDirectory) (here : OpenDirectory) : Prop where
  depth : o.maxDepth.any (· < (here :: trail).length) = false
  length : here.path.bytes.length ≤ pathLimit

/-- An entry is a directory that the walk goes into, or a link that is followed into one. -/
inductive Enters (fs : FileSystem) (followLinks : Bool) (trail : List OpenDirectory)
    (here : OpenDirectory) : Name × Content → Location → Prop where
  | directory (name : Name) :
      Enters fs followLinks trail here (name, .directory) (here.location ++ [name])
  | link {name : Name} {target : Path} {l : Location} (hf : followLinks = true)
      (hr : fs.resolve (here.path.child name) = .ok l) (hd : fs.isDirectoryAt l = true)
      (ho : (here :: trail).find? (·.location == l) = none) :
      Enters fs followLinks trail here (name, .link target) l

structure VisitedAt (p : Path) (v : Visit) : Prop where
  place : v.place = p.segments
  path : ∀ q, v = .ok q → q = p

theorem visitedAt_ok (p : Path) : VisitedAt p (.ok p) := ⟨rfl, fun _ h => (Except.ok.inj h).symm⟩

theorem visitedAt_error {p : Path} {e : WalkError} (h : Visit.place (.error e) = p.segments) :
    VisitedAt p (.error e) := by
  refine ⟨h, ?_⟩
  intro q hq
  cases hq

theorem visitEntry_cases (fs : FileSystem) (followLinks : Bool) (trail : List OpenDirectory)
    (here : OpenDirectory) (e : Name × Content) :
    (∃ v : Visit, fs.visitEntry followLinks trail here e = (v, none) ∧
        VisitedAt (here.path.child e.1) v) ∨
      ∃ l, fs.Enters followLinks trail here e l ∧ fs.visitEntry followLinks trail here e =
        (.ok (here.path.child e.1), some ⟨here.path.child e.1, l⟩) := by
  obtain ⟨name, content⟩ := e
  cases content with
  | directory => exact .inr ⟨_, .directory name, rfl⟩
  | file bytes => exact .inl ⟨_, rfl, visitedAt_ok _⟩
  | device d => exact .inl ⟨_, rfl, visitedAt_ok _⟩
  | link target =>
    simp only [visitEntry]
    by_cases hf : followLinks = true
    · simp only [if_pos hf]
      cases hr : fs.resolve (here.path.child name) with
      | error e => exact .inl ⟨_, rfl, visitedAt_error rfl⟩
      | ok l =>
        by_cases hd : fs.isDirectoryAt l = true
        · simp only [if_pos hd]
          cases ho : (here :: trail).find? (·.location == l) with
          | some ancestor => exact .inl ⟨_, rfl, visitedAt_error rfl⟩
          | none => exact .inr ⟨l, .link hf hr hd ho, rfl⟩
        · simp only [if_neg hd]
          exact .inl ⟨_, rfl, visitedAt_ok _⟩
    · simp only [if_neg hf]
      exact .inl ⟨_, rfl, visitedAt_ok _⟩

theorem contents_of_deep (hd : o.maxDepth.any (· < (here :: trail).length) = true) :
    fs.contents o trail here = [] := by
  rw [contents_eq, if_pos hd]

theorem contents_of_long (hd : o.maxDepth.any (· < (here :: trail).length) = false)
    (hl : pathLimit < here.path.bytes.length) :
    fs.contents o trail here = [.error (.unreadable here.path .nameTooLong)] := by
  rw [contents_eq, if_neg (Bool.eq_false_iff.1 hd), if_pos hl]

theorem Listed.contents_eq (h : Listed o trail here) : fs.contents o trail here =
    (fs.arranged o.sorted here.location).flatMap (fs.entryVisits o trail here) := by
  rw [FileSystem.contents_eq, if_neg (Bool.eq_false_iff.1 h.depth), if_neg (Nat.not_lt.2 h.length)]

theorem listed_cases (o : WalkOptions) (trail : List OpenDirectory) (here : OpenDirectory) :
    o.maxDepth.any (· < (here :: trail).length) = true ∨
      (o.maxDepth.any (· < (here :: trail).length) = false ∧
        pathLimit < here.path.bytes.length) ∨ Listed o trail here := by
  by_cases hd : o.maxDepth.any (· < (here :: trail).length) = true
  · exact .inl hd
  · have hd := Bool.eq_false_iff.2 hd
    by_cases hl : pathLimit < here.path.bytes.length
    · exact .inr (.inl ⟨hd, hl⟩)
    · exact .inr (.inr ⟨hd, Nat.not_lt.1 hl⟩)

/-- What holds of a directory whenever it holds of those that are entered from it. -/
theorem contents_induction (fs : FileSystem) (o : WalkOptions)
    {holds : List OpenDirectory → OpenDirectory → Prop}
    (step : ∀ trail here, (Listed o trail here → ∀ e ∈ fs.arranged o.sorted here.location,
      ∀ l, fs.Enters o.followLinks trail here e l → holds (here :: trail) ⟨here.path.child e.1, l⟩) →
      holds trail here) (trail : List OpenDirectory) (here : OpenDirectory) :
    holds trail here := by
  induction trail, here using FileSystem.contents.induct fs o with
  | case1 trail here opened hd =>
    apply step
    intro hl
    exact absurd (hl.depth.symm.trans hd) Bool.false_ne_true
  | case2 trail here opened hd hlong =>
    apply step
    intro hl
    exact absurd hlong (Nat.not_lt.2 hl.length)
  | case3 trail here opened hd hlong hdirectory hlink =>
    apply step
    rintro - e he l (⟨name⟩ | ⟨-, -, hl, ho⟩)
    · exact hdirectory name he
    · exact hlink _ l hl ho

end FileSystem

end MethodExtraction.Files
