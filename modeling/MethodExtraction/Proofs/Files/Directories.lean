import MethodExtraction.Proofs.Files.Opening

namespace MethodExtraction.Files

namespace Path

variable {p q : Path}

theorem segments_append (front rest : List UInt8) :
    segments ⟨front ++ slash :: rest⟩ = segments ⟨front⟩ ++ segments ⟨rest⟩ := by
  rw [segments, segments, segments, List.splitOn_append_cons_self, List.filter_append]

theorem segments_of_not_mem {bytes : List UInt8} (h : slash ∉ bytes) (hne : bytes ≠ []) :
    segments ⟨bytes⟩ = [bytes] := by
  rw [segments, List.splitOn_eq_singleton h, List.filter_cons_of_pos (by simpa using hne),
    List.filter_nil]

theorem segments_ne_nil {bytes : List UInt8} {b : UInt8} (h : b ∈ bytes) (hb : b ≠ slash) :
    segments ⟨bytes⟩ ≠ [] := by
  induction bytes with
  | nil => cases h
  | cons c bytes ih =>
    by_cases hc : c = slash
    · subst hc
      rw [← List.nil_append (slash :: bytes), segments_append]
      refine List.append_ne_nil_of_right_ne_nil _ (ih ?_)
      exact (List.mem_cons.1 h).resolve_left hb
    · by_cases hs : slash ∈ c :: bytes
      · obtain ⟨front, rest, he, hn⟩ := List.eq_append_cons_of_mem hs
        have hne : front ≠ [] := by
          rintro rfl
          exact hc (List.cons.inj he).1
        rw [he, segments_append, segments_of_not_mem hn hne]
        exact List.cons_ne_nil _ _
      · rw [segments_of_not_mem hs (List.cons_ne_nil _ _)]
        exact List.cons_ne_nil _ _

theorem trimmed_slash_ne (b : UInt8) (rest : List UInt8) :
    trimmed (slash :: b :: rest) ≠ slash :: b :: rest := by
  intro h
  have hl := length_trimmed (b :: rest)
  rw [trimmed, if_pos rfl] at h
  rw [h] at hl
  exact absurd hl (by simp)

theorem trimmed_cases (bytes : List UInt8) :
    trimmed bytes = bytes ∨ (∃ cut, bytes = cut ++ slash :: trimmed bytes) ∨
      (trimmed bytes = [slash] ∧ ∃ cut, bytes = cut ++ [slash]) := by
  fun_induction trimmed bytes with
  | case1 b rest ih =>
    obtain he | ⟨cut, he⟩ | ⟨ht, cut, he⟩ := ih
    · exact .inr (.inl ⟨[], by rw [he]; rfl⟩)
    · exact .inr (.inl ⟨slash :: cut, congrArg _ he⟩)
    · exact .inr (.inr ⟨ht, slash :: cut, congrArg _ he⟩)
  | case2 a b rest ha hd ih =>
    obtain ⟨rfl, rfl⟩ : a = dot ∧ b = slash := by simpa using hd
    obtain he | ⟨cut, he⟩ | ⟨ht, cut, he⟩ := ih
    · cases rest with
      | nil => exact .inr (.inr ⟨rfl, [dot], rfl⟩)
      | cons c rest => exact absurd he (trimmed_slash_ne c rest)
    · exact .inr (.inl ⟨dot :: cut, congrArg _ he⟩)
    · exact .inr (.inr ⟨ht, dot :: cut, congrArg _ he⟩)
  | case3 => exact .inl rfl
  | case4 => exact .inl rfl

theorem exists_trimmed_append (bytes : List UInt8) : ∃ cut, bytes = cut ++ trimmed bytes := by
  obtain he | ⟨cut, he⟩ | ⟨ht, cut, he⟩ := trimmed_cases bytes
  · exact ⟨[], he.symm⟩
  · exact ⟨cut ++ [slash], by rw [List.append_assoc]; exact he⟩
  · exact ⟨cut, ht.symm ▸ he⟩

theorem trimmed_slash (rest : List UInt8) :
    (∃ cut, slash :: rest = cut ++ slash :: trimmed (slash :: rest)) ∨
      (trimmed (slash :: rest) = [slash] ∧ ∃ cut, slash :: rest = cut ++ [slash]) := by
  obtain he | h := trimmed_cases (slash :: rest)
  · cases rest with
    | nil => exact .inr ⟨rfl, [], rfl⟩
    | cons b rest => exact absurd he (trimmed_slash_ne b rest)
  · exact h

/-- A path and the path of the directory in which its last name is. -/
structure Within (p q : Path) : Prop where
  segments : ∃ more, more ≠ [] ∧ p.segments = q.segments ++ more
  isAbsolute : q.isAbsolute = p.isAbsolute
  usable : p.Usable → q.Usable

theorem within_of_split {front rest : List UInt8} {b : UInt8}
    (hp : p.bytes = front ++ slash :: rest)
    (hq : q.bytes = front ∨ (front = [] ∧ q.bytes = [slash])) (hne : q.bytes ≠ [])
    (hb : b ∈ rest) (hbs : b ≠ slash) : p.Within q := by
  obtain ⟨bytes⟩ := p
  obtain ⟨bytes'⟩ := q
  obtain rfl : bytes = front ++ slash :: rest := hp
  have hsub : bytes' ⊆ front ++ slash :: rest ∧
      bytes'.length ≤ (front ++ slash :: rest).length := by
    obtain rfl | ⟨rfl, rfl⟩ := hq
    · simp
    · simp
  refine ⟨⟨_, segments_ne_nil hb hbs, ?_⟩, ?_, fun hu => ⟨?_, ?_, hne⟩⟩
  · rw [segments_append]
    obtain rfl | ⟨rfl, rfl⟩ := hq
    · rfl
    · rfl
  · obtain rfl | ⟨rfl, rfl⟩ := hq
    · obtain ⟨a, bytes, rfl⟩ := List.exists_cons_of_ne_nil hne
      rfl
    · rfl
  · have hz := hu.zero
    rw [List.contains_eq_mem, decide_eq_false_iff_not] at hz ⊢
    exact fun h => hz (hsub.1 h)
  · exact Nat.le_trans hsub.2 hu.length

theorem head_trimmed_ne_slash {bytes rest : List UInt8} {a : UInt8}
    (h : trimmed bytes = a :: rest) (hs : trimmed bytes ≠ [slash]) : a ≠ slash := by
  cases rest with
  | nil =>
    rintro rfl
    exact hs h
  | cons b rest => exact head?_trimmed_ne_slash h

theorem within_of_parent? (h : p.parent? = some q) (hq : q.bytes ≠ []) : p.Within q := by
  rw [parent?] at h
  obtain ⟨hn, he⟩ := Option.ite_none_left_eq_some.1 h
  rw [Bool.or_eq_true, not_or, decide_eq_true_eq, decide_eq_true_eq] at hn
  obtain ⟨cut, hcut⟩ := exists_trimmed_append p.bytes.reverse
  obtain ⟨a, tail, htail⟩ := List.exists_cons_of_ne_nil hn.1
  have ha := head_trimmed_ne_slash htail hn.2
  generalize trimmed p.bytes.reverse = bytes at he hn hcut htail
  have hname := List.takeWhile_append_dropWhile (p := (· ≠ slash)) (l := bytes)
  have hmem : a ∈ bytes.takeWhile (· ≠ slash) := by
    rw [htail, List.takeWhile_cons_of_pos (by simpa using ha)]
    exact List.mem_cons_self ..
  generalize bytes.takeWhile (· ≠ slash) = name at hname hmem
  have hslash := List.head?_dropWhile_not (· ≠ slash) bytes
  obtain rfl : ⟨(trimmed (bytes.dropWhile (· ≠ slash))).reverse⟩ = q := Option.some.inj he
  generalize bytes.dropWhile (· ≠ slash) = outer at hname hslash hq
  cases outer with
  | nil => exact absurd rfl hq
  | cons b outer =>
    obtain rfl : b = slash := by simpa using hslash
    have hp (cut' : List UInt8) (t : List UInt8) (ht : slash :: outer = cut' ++ slash :: t) :
        p.bytes = t.reverse ++ slash :: (cut ++ name ++ cut').reverse := by
      rw [← List.reverse_inj, hcut, ← hname, ht]
      simp
    obtain ⟨cut', ht⟩ | ⟨hone, cut', ht⟩ := trimmed_slash outer
    · refine within_of_split (hp cut' _ ht) (.inl rfl) hq (b := a) ?_ ha
      simp [hmem]
    · refine within_of_split (hp cut' [] ht) (.inr ⟨rfl, by rw [hone]; rfl⟩) hq (b := a) ?_ ha
      simp [hmem]

end Path

namespace FileSystem

variable {fs fs' : FileSystem} {p q : Path} {l location : Location}

theorem resolve_eq_ok_iff : fs.resolve p = .ok location ↔
    fs.follow true p p.names = .ok (.existing location) := by
  rw [resolve, Path.names]
  cases fs.follow true p (p.segments ++ if p.endsInSlash then [[dot]] else []) with
  | error e => simp [bind, Except.bind]
  | ok t => cases t <;> simp [bind, Except.bind]

/-- The names of a path lead where the path leads; a slash at its end only asks for a directory. -/
theorem follow_segments_of_resolve (h : fs.resolve p = .ok l) :
    fs.follow true p p.segments = .ok (.existing l) := by
  rw [resolve_eq_ok_iff] at h
  have hu := usable_of_follow h
  rw [follow_of_usable hu] at h ⊢
  unfold Path.names at h
  by_cases hs : p.endsInSlash = true
  · obtain ⟨links, ha⟩ := (fs.walks_walk true linkLimit (fs.origin p) p.segments).append
      (List.cons_ne_nil [dot] []) true
    rw [if_pos hs, ha] at h
    cases hw : fs.walk true linkLimit (fs.origin p) p.segments with
    | error e =>
      rw [hw] at h
      cases h
    | ok target =>
      rw [hw] at h
      cases target with
      | vacant l' => cases h
      | existing l' =>
        simp only at h
        by_cases hd : fs.isDirectoryAt l' = true
        · rw [(Walks.dot hd .arrived).eq] at h
          exact h
        · rw [(Walks.outside (Bool.eq_false_iff.2 hd)).eq] at h
          cases h
  · rwa [if_neg hs, List.append_nil] at h

theorem resolve_of_follow_directory (hf : fs.follow true p p.segments = .ok (.existing l))
    (hd : fs.isDirectoryAt l = true) : fs.resolve p = .ok l := by
  rw [resolve_eq_ok_iff, Path.names]
  by_cases hs : p.endsInSlash = true
  · have hu := usable_of_follow hf
    rw [follow_of_usable hu] at hf ⊢
    obtain ⟨links, ha⟩ := (walks_iff.2 hf).append (List.cons_ne_nil [dot] []) true
    rw [if_pos hs, ha]
    exact (Walks.dot hd .arrived).eq
  · rwa [if_neg hs, List.append_nil]

theorem isDirectory_iff : fs.isDirectory p = true ↔
    ∃ l, fs.follow true p p.segments = .ok (.existing l) ∧ fs.isDirectoryAt l = true := by
  have hresolve : fs.isDirectory p = true ↔
      ∃ l, fs.resolve p = .ok l ∧ fs.isDirectoryAt l = true := by
    simp only [isDirectory, contentOf]
    cases fs.resolve p with
    | error e => simp [bind, Except.bind]
    | ok l =>
      simp only [bind, Except.bind]
      cases hc : fs.content? l <;> simp [isDirectoryAt, hc]
  rw [hresolve]
  constructor
  · rintro ⟨l, hr, hd⟩
    exact ⟨l, follow_segments_of_resolve hr, hd⟩
  · rintro ⟨l, hf, hd⟩
    exact ⟨l, resolve_of_follow_directory hf hd, hd⟩

theorem follow_true_of_false {r : Except IoError Target}
    (h : fs.follow false p p.segments = r) (hr : ∀ l, r ≠ .ok (.existing l)) :
    fs.follow true p p.segments = r := by
  obtain hu | hn | ⟨e, -, he⟩ := fs.usable_or_follow p
  · rw [follow_of_usable hu] at h ⊢
    exact ((walks_iff.2 h).followed hr).eq
  · rwa [follow_of_bytes_eq_nil hn] at h ⊢
  · rwa [he] at h ⊢

/-- Below what is no directory nothing is found. What is wrong above is wrong below as well. -/
theorem follow_within (hw : p.Within q) (hp : p.Usable) (hd : ¬ fs.isDirectory q = true) :
    ∃ e, fs.follow false p p.segments = .error e ∧
      ∀ e', fs.follow false q q.segments = .error e' → e = e' := by
  obtain ⟨more, hm, hsegments⟩ := hw.segments
  have hq := hw.usable hp
  have horigin : fs.origin p = fs.origin q := by rw [origin, origin, hw.isAbsolute]
  have herror : ∀ e', fs.follow false q q.segments = .error e' →
      fs.walk true linkLimit (fs.origin q) q.segments = .error e' := by
    intro e' he'
    rw [← follow_of_usable hq]
    exact follow_true_of_false he' (by simp)
  obtain ⟨links, ha⟩ :=
    (fs.walks_walk true linkLimit (fs.origin q) q.segments).append hm false
  rw [follow_of_usable hp, horigin, hsegments, ha]
  cases hr : fs.walk true linkLimit (fs.origin q) q.segments with
  | error e =>
    refine ⟨e, rfl, fun e' he' => ?_⟩
    exact Except.error.inj (hr.symm.trans (herror e' he'))
  | ok t =>
    have hnone : ∀ e', ¬ fs.follow false q q.segments = .error e' := fun e' he' => by
      cases hr.symm.trans (herror e' he')
    cases t with
    | vacant l => exact ⟨.notFound, rfl, fun e' he' => absurd he' (hnone e')⟩
    | existing l =>
      obtain ⟨name, rest, rfl⟩ := List.exists_cons_of_ne_nil hm
      have hl : fs.isDirectoryAt l = false := by
        refine Bool.eq_false_iff.2 fun h => hd (isDirectory_iff.2 ⟨l, ?_, h⟩)
        rw [follow_of_usable hq, hr]
      exact ⟨.notADirectory, (Walks.outside hl).eq, fun e' he' => absurd he' (hnone e')⟩

end FileSystem

namespace Change

variable {fs fs' : FileSystem} {p q : Path} {e : IoError}

theorem makeDirectory_cases (p : Path) (fs : FileSystem) :
    (∃ l, fs.follow false p p.segments = .ok (.vacant l) ∧
        makeDirectory p fs = .ok () (fs.put l .directory)) ∨
      (∃ l, fs.follow false p p.segments = .ok (.existing l) ∧
        makeDirectory p fs = .error .alreadyExists fs) ∨
      ∃ e, fs.follow false p p.segments = .error e ∧ makeDirectory p fs = .error e fs := by
  rw [makeDirectory]
  cases fs.follow false p p.segments with
  | error e => exact .inr (.inr ⟨e, rfl, rfl⟩)
  | ok t =>
    cases t with
    | vacant l => exact .inl ⟨l, rfl, rfl⟩
    | existing l => exact .inr (.inl ⟨l, rfl, rfl⟩)

theorem isDirectory_of_makeDirectory (h : makeDirectory p fs = .ok () fs') :
    fs'.isDirectory p = true := by
  obtain ⟨l, hf, hm⟩ | ⟨l, -, hm⟩ | ⟨e, -, hm⟩ := makeDirectory_cases p fs
  · cases hm.symm.trans h
    obtain ⟨hl, -⟩ := (FileSystem.walks_of_follow hf).content?_vacant
    refine FileSystem.isDirectory_iff.2 ⟨l, FileSystem.follow_put_vacant hf nofun, ?_⟩
    rw [FileSystem.isDirectoryAt, FileSystem.content?_put_self hl]
    rfl
  · cases hm.symm.trans h
  · cases hm.symm.trans h

theorem orDirectory_cases (p : Path) (fs : FileSystem) :
    (∃ fs', orDirectory p (makeDirectory p) fs = .ok () fs' ∧ fs'.isDirectory p = true) ∨
      ∃ e, orDirectory p (makeDirectory p) fs = .error e fs ∧
        makeDirectory p fs = .error e fs ∧ ¬ fs.isDirectory p = true := by
  have herror {e : IoError} (h : makeDirectory p fs = .error e fs) :
      orDirectory p (makeDirectory p) fs =
        if fs.isDirectory p then .ok () fs else .error e fs := by
    rw [orDirectory, h]
  cases h : makeDirectory p fs with
  | ok u fs' =>
    refine .inl ⟨fs', ?_, isDirectory_of_makeDirectory h⟩
    rw [orDirectory, h]
  | error e fs' =>
    obtain ⟨l, -, hm⟩ | ⟨l, -, hm⟩ | ⟨e', -, hm⟩ := makeDirectory_cases p fs
    · cases hm.symm.trans h
    all_goals
      cases hm.symm.trans h
      rw [herror hm]
      by_cases hd : fs.isDirectory p = true
      · exact .inl ⟨fs, if_pos hd, hd⟩
      · exact .inr ⟨_, if_neg hd, rfl, hd⟩

theorem makeDirectories_of_missing (hp : p.bytes ≠ [])
    (h : fs.follow false p p.segments = .error .notFound) :
    makeDirectories p fs =
      match p.parent? with
      | none => .error (.other "failed to create whole tree") fs
      | some parent =>
        match makeDirectories parent fs with
        | .ok () fs => orDirectory p (makeDirectory p) fs
        | .error e fs => .error e fs := by
  have hm : makeDirectory p fs = .error .notFound fs := by rw [makeDirectory, h]
  rw [makeDirectories, if_neg hp, hm]
  cases hq : p.parent? with
  | none => rfl
  | some parent => cases hd : makeDirectories parent fs <;> simp only [hd]

theorem makeDirectories_of_not_missing (hp : p.bytes ≠ [])
    (h : fs.follow false p p.segments ≠ .error .notFound) :
    makeDirectories p fs = orDirectory p (makeDirectory p) fs := by
  rw [makeDirectories, if_neg hp]
  split
  next fs' hm =>
    obtain ⟨l, -, hm'⟩ | ⟨l, -, hm'⟩ | ⟨e, hf, hm'⟩ := makeDirectory_cases p fs
    · cases hm'.symm.trans hm
    · cases hm'.symm.trans hm
    · cases hm'.symm.trans hm
      exact absurd hf h
  next => rfl

theorem makeDirectories_of_isDirectory (h : fs.isDirectory p = true) :
    makeDirectories p fs = .ok () fs := by
  obtain ⟨l, hf, -⟩ := FileSystem.isDirectory_iff.1 h
  have hfalse : ∃ l', fs.follow false p p.segments = .ok (.existing l') := by
    by_contra hn
    have htrue := FileSystem.follow_true_of_false rfl fun l' h' => hn ⟨l', h'⟩
    exact hn ⟨l, htrue.symm.trans hf⟩
  obtain ⟨l', hf'⟩ := hfalse
  have hm : makeDirectory p fs = .error .alreadyExists fs := by rw [makeDirectory, hf']
  rw [makeDirectories_of_not_missing (FileSystem.usable_of_follow hf).ne_nil
    (by rw [hf']; nofun), orDirectory, hm]
  exact if_pos h

theorem isDirectory_of_makeDirectories (hp : p.bytes ≠ [])
    (h : makeDirectories p fs = .ok () fs') : fs'.isDirectory p = true := by
  have hor {fs : FileSystem} (h : orDirectory p (makeDirectory p) fs = .ok () fs') :
      fs'.isDirectory p = true := by
    obtain ⟨fs₁, ho, hd⟩ | ⟨e, ho, -⟩ := orDirectory_cases p fs
    · cases ho.symm.trans h
      exact hd
    · cases ho.symm.trans h
  by_cases hf : fs.follow false p p.segments = .error .notFound
  · rw [makeDirectories_of_missing hp hf] at h
    cases hq : p.parent? with
    | none => simp [hq] at h
    | some q =>
      simp only [hq] at h
      cases hm : makeDirectories q fs with
      | error e fs₁ => simp [hm] at h
      | ok u fs₁ =>
        simp only [hm] at h
        exact hor h
  · rw [makeDirectories_of_not_missing hp hf] at h
    exact hor h

theorem makeDirectories_again (h : makeDirectories p fs = .ok () fs') :
    makeDirectories p fs' = .ok () fs' := by
  by_cases hp : p.bytes = []
  · rw [makeDirectories, if_pos hp]
  · exact makeDirectories_of_isDirectory (isDirectory_of_makeDirectories hp h)

theorem makeDirectory_of_not_missing (hp : p.bytes ≠ [])
    (hf : fs.follow false p p.segments ≠ .error .notFound)
    (h : makeDirectories p fs = .error e fs') : fs' = fs ∧ makeDirectory p fs = .error e fs := by
  rw [makeDirectories_of_not_missing hp hf] at h
  obtain ⟨fs₁, ho, -⟩ | ⟨e', ho, hm, -⟩ := orDirectory_cases p fs
  · cases ho.symm.trans h
  · cases ho.symm.trans h
    exact ⟨rfl, hm⟩

theorem ne_nil_of_makeDirectories (h : makeDirectories p fs = .error e fs') : p.bytes ≠ [] := by
  intro hp
  rw [makeDirectories, if_pos hp] at h
  cases h

theorem not_isDirectory_of_makeDirectories (h : makeDirectories p fs = .error e fs') :
    ¬ fs.isDirectory p = true := fun hd => by
  cases h.symm.trans (makeDirectories_of_isDirectory hd)

/-- Below a directory that cannot be made none can be made either, for the same reason, or because
the name above is taken by something else. -/
theorem makeDirectories_below (hw : p.Within q) (hu : p.Usable) (hq : p.parent? = some q)
    (h : makeDirectories q fs = .error e fs) :
    makeDirectories p fs = .error e fs ∨ (e = .alreadyExists ∧
      ∃ e', fs.follow false p p.segments = .error e' ∧ makeDirectories p fs = .error e' fs) := by
  have hqne := (hw.usable hu).ne_nil
  obtain ⟨e', he', hsame⟩ :=
    FileSystem.follow_within hw hu (not_isDirectory_of_makeDirectories h)
  by_cases hn : e' = .notFound
  · rw [makeDirectories_of_missing hu.ne_nil (hn ▸ he')]
    simp only [hq, h]
    exact .inl trivial
  · have hp : makeDirectories p fs = .error e' fs := by
      have hm : makeDirectory p fs = .error e' fs := by rw [makeDirectory, he']
      have hd : ¬ fs.isDirectory p = true := fun hd => by
        obtain ⟨l, hl, -⟩ := FileSystem.isDirectory_iff.1 hd
        cases hl.symm.trans (FileSystem.follow_true_of_false he' nofun)
      rw [makeDirectories_of_not_missing hu.ne_nil (by rw [he']; simpa using hn), orDirectory, hm]
      exact if_neg hd
    have hqf : fs.follow false q q.segments ≠ .error .notFound := fun h => hn (hsame _ h)
    obtain ⟨-, hm⟩ := makeDirectory_of_not_missing hqne hqf h
    obtain ⟨l, -, hm'⟩ | ⟨l, -, hm'⟩ | ⟨e₁, hf, hm'⟩ := makeDirectory_cases q fs
    · cases hm'.symm.trans hm
    · cases hm'.symm.trans hm
      exact .inr ⟨rfl, e', he', hp⟩
    · cases hm'.symm.trans hm
      rw [hsame e hf] at hp
      exact .inl hp

theorem makeDirectories_error_cases (h : makeDirectories p fs = .error e fs') :
    fs' = fs ∨ fs.follow false p p.segments = .error .notFound ∧ ∃ q, p.parent? = some q ∧
      (makeDirectories q fs = .error e fs' ∨ makeDirectories q fs = .ok () fs' ∧
        orDirectory p (makeDirectory p) fs' = .error e fs') := by
  have hp := ne_nil_of_makeDirectories h
  by_cases hf : fs.follow false p p.segments = .error .notFound
  · rw [makeDirectories_of_missing hp hf] at h
    cases hq : p.parent? with
    | none =>
      simp only [hq] at h
      cases h
      exact .inl rfl
    | some q =>
      simp only [hq] at h
      refine .inr ⟨hf, q, rfl, ?_⟩
      cases hm : makeDirectories q fs with
      | error e₁ fs₁ =>
        simp only [hm] at h
        exact .inl h
      | ok u fs₁ =>
        simp only [hm] at h
        obtain ⟨fs₂, ho, -⟩ | ⟨e₂, ho, -, -⟩ := orDirectory_cases p fs₁
        · cases ho.symm.trans h
        · cases ho.symm.trans h
          exact .inr ⟨rfl, ho⟩
  · exact .inl (makeDirectory_of_not_missing hp hf h).1

/-- Where directories could not be made they cannot be made the next time either, and nothing comes
of it. The error may be another one only if it was that a name is taken already. -/
theorem makeDirectories_fails_again {p : Path} {fs fs' : FileSystem} {e : IoError}
    (h : makeDirectories p fs = .error e fs') :
    ∃ e', makeDirectories p fs' = .error e' fs' ∧
      (e' = e ∨ (e = .alreadyExists ∧ fs'.follow false p p.segments = .error e')) := by
  have hp := ne_nil_of_makeDirectories h
  obtain rfl | ⟨hf, q, hq, hm | ⟨hm, ho⟩⟩ := makeDirectories_error_cases h
  · exact ⟨e, h, .inl rfl⟩
  · have hu : p.Usable := by
      obtain hu | hn | ⟨e₂, he₂, hall⟩ := fs.usable_or_follow p
      · exact hu
      · exact absurd hn hp
      · exact absurd (Except.error.inj ((hall _ _).symm.trans hf)) he₂
    have hw := Path.within_of_parent? hq (ne_nil_of_makeDirectories hm)
    -- the directory above could not be made, and its path is shorter
    obtain ⟨e₂, hm₂, hrelated⟩ := makeDirectories_fails_again hm
    obtain hbelow | ⟨he₂, e', hf', hbelow⟩ := makeDirectories_below hw hu hq hm₂
    · refine ⟨e₂, hbelow, hrelated.imp_right fun h => ⟨h.1, ?_⟩⟩
      obtain ⟨e₃, he₃, hsame⟩ :=
        FileSystem.follow_within hw hu (not_isDirectory_of_makeDirectories hm₂)
      rw [he₃, hsame e₂ h.2]
    · refine ⟨e', hbelow, .inr ⟨?_, hf'⟩⟩
      obtain he | ⟨he, -⟩ := hrelated
      · exact he.symm.trans he₂
      · exact he
  · refine ⟨e, ?_, .inl rfl⟩
    by_cases hf' : fs'.follow false p p.segments = .error .notFound
    · rw [makeDirectories_of_missing hp hf']
      simp only [hq, makeDirectories_again hm]
      exact ho
    · rw [makeDirectories_of_not_missing hp hf']
      exact ho
termination_by p.bytes.length
decreasing_by exact Path.length_parent?_lt hq

end Change

end MethodExtraction.Files
