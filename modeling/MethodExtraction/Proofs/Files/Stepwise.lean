import MethodExtraction.Proofs.Files.Descent

namespace MethodExtraction.Files

structure Level where
  directory : OpenDirectory
  pending : List (Except WalkError (Name × Content))

namespace FileSystem

def openLevel (fs : FileSystem) (o : WalkOptions) (here : OpenDirectory) : Level where
  directory := here
  pending :=
    if pathLimit < here.path.bytes.length then [.error (.unreadable here.path .nameTooLong)]
    else (fs.arranged o.sorted here.location).map .ok

/-- What is visited next, and what is open then. The innermost directory comes first; it is left when
nothing is pending in it, or at once if it is too deep. -/
def step (fs : FileSystem) (o : WalkOptions) : List Level → List Visit × List Level
  | [] => ([], [])
  | ⟨here, pending⟩ :: levels =>
    if o.maxDepth.any (· < levels.length + 1) then ([], levels)
    else
      match pending with
      | [] => ([], levels)
      | .error e :: pending => ([.error e], ⟨here, pending⟩ :: levels)
      | .ok entry :: pending =>
        let visited := fs.visitEntry o.followLinks (levels.map (·.directory)) here entry
        ([visited.1], (visited.2.map (fs.openLevel o)).toList ++ ⟨here, pending⟩ :: levels)

def start (fs : FileSystem) (o : WalkOptions) (root : Path) : List Visit × List Level :=
  match fs.resolve root with
  | .error e => ([.error (.unreachable root e)], [])
  | .ok location =>
    ([.ok root], if fs.isDirectoryAt location then [fs.openLevel o ⟨root, location⟩] else [])

/-- After finitely many steps no directory is open, and these are the visits until then. -/
inductive Ends (fs : FileSystem) (o : WalkOptions) : List Level → List Visit → Prop where
  | done : Ends fs o [] []
  | next {level : Level} {levels : List Level} {visits : List Visit}
      (h : Ends fs o (fs.step o (level :: levels)).2 visits) :
      Ends fs o (level :: levels) ((fs.step o (level :: levels)).1 ++ visits)

variable {fs : FileSystem} {o : WalkOptions} {trail : List OpenDirectory} {here : OpenDirectory}
  {levels : List Level} {visits : List Visit}

theorem Ends.of_step (visited : List Visit) {level : Level} {levels' : List Level}
    (hs : fs.step o (level :: levels) = (visited, levels')) (h : fs.Ends o levels' visits) :
    fs.Ends o (level :: levels) (visited ++ visits) := by
  have hn : fs.Ends o (level :: levels) ((fs.step o (level :: levels)).1 ++ visits) := by
    apply Ends.next
    rwa [hs]
  rwa [hs] at hn

theorem step_of_deep (hd : o.maxDepth.any (· < levels.length + 1) = true) (level : Level) :
    fs.step o (level :: levels) = ([], levels) := by
  rw [step.eq_def]
  exact if_pos hd

def Leaves (fs : FileSystem) (o : WalkOptions) (trail : List OpenDirectory)
    (here : OpenDirectory) : Prop :=
  ∀ levels : List Level, levels.map (·.directory) = trail → ∀ visits, fs.Ends o levels visits →
    fs.Ends o (fs.openLevel o here :: levels) (fs.contents o trail here ++ visits)

theorem ends_pending (hd : o.maxDepth.any (· < levels.length + 1) = false)
    (h : fs.Ends o levels visits) (entries : List (Name × Content))
    (hentries : ∀ e ∈ entries, ∀ l, fs.Enters o.followLinks (levels.map (·.directory)) here e l →
      fs.Leaves o (here :: levels.map (·.directory)) ⟨here.path.child e.1, l⟩) :
    fs.Ends o (⟨here, entries.map .ok⟩ :: levels)
      (entries.flatMap (fs.entryVisits o (levels.map (·.directory)) here) ++ visits) := by
  -- the levels below stay as they are, until nothing is pending in this one
  induction entries with
  | nil =>
    apply Ends.of_step [] _ h
    rw [List.map_nil, step, if_neg (Bool.eq_false_iff.1 hd)]
  | cons e entries ih =>
    have ih := ih fun e' he' => hentries e' (List.mem_cons_of_mem _ he')
    rw [List.flatMap_cons, entryVisits, List.cons_append, List.cons_append, List.append_assoc]
    apply Ends.of_step [_]
    · rw [List.map_cons, step, if_neg (Bool.eq_false_iff.1 hd)]
    · obtain ⟨v, hv, -⟩ | ⟨l, hl, hv⟩ :=
        fs.visitEntry_cases o.followLinks (levels.map (·.directory)) here e
      · rw [hv]
        exact ih
      · rw [hv]
        exact hentries e (List.mem_cons_self ..) l hl _ rfl _ ih

theorem leaves (fs : FileSystem) (o : WalkOptions) (trail : List OpenDirectory)
    (here : OpenDirectory) : fs.Leaves o trail here := by
  induction trail, here using contents_induction fs o with
  | step trail here ih =>
    rintro levels rfl visits h
    have hlength : (here :: levels.map (·.directory)).length = levels.length + 1 := by
      rw [List.length_cons, List.length_map]
    obtain hd | ⟨hd, hlong⟩ | hl := listed_cases o (levels.map (·.directory)) here
    · rw [contents_of_deep hd]
      rw [hlength] at hd
      exact Ends.of_step [] (step_of_deep hd _) h
    · rw [contents_of_long hd hlong, openLevel, if_pos hlong]
      rw [hlength] at hd
      have hs (e : WalkError) :
          fs.step o (⟨here, [.error e]⟩ :: levels) = ([.error e], ⟨here, []⟩ :: levels) := by
        rw [step, if_neg (Bool.eq_false_iff.1 hd)]
      apply Ends.of_step [_] (hs _)
      exact ends_pending hd h [] (by simp)
    · have hd := hl.depth
      rw [hlength] at hd
      rw [hl.contents_eq, openLevel, if_neg (Nat.not_lt.2 hl.length)]
      exact ends_pending hd h _ (ih hl)

/-- A walk comes to an end, and has then visited all there is to visit. -/
theorem ends_start (fs : FileSystem) (o : WalkOptions) (root : Path) :
    ∃ visits, fs.Ends o (fs.start o root).2 visits ∧
      fs.visits o root = (fs.start o root).1 ++ visits := by
  rw [start, FileSystem.visits]
  cases fs.resolve root with
  | error e => exact ⟨[], .done, rfl⟩
  | ok l =>
    by_cases hd : fs.isDirectoryAt l = true
    · simp only [if_pos hd]
      have h := fs.leaves o [] ⟨root, l⟩ [] rfl [] .done
      rw [List.append_nil] at h
      exact ⟨_, h, rfl⟩
    · simp only [if_neg hd]
      exact ⟨[], .done, rfl⟩

end FileSystem

end MethodExtraction.Files
