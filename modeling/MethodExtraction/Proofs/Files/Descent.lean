import Mathlib.Data.List.Lex
import MethodExtraction.Proofs.Files.Directories
import MethodExtraction.Proofs.Files.Entries

namespace MethodExtraction.Files

structure IsName (name : Name) : Prop where
  ne_nil : name ≠ []
  slash : slash ∉ name
  ne_dot : name ≠ [dot]
  ne_dots : name ≠ [dot, dot]

instance : DecidablePred IsName := fun name =>
  decidable_of_iff (name ≠ [] ∧ Files.slash ∉ name ∧ name ≠ [dot] ∧ name ≠ [dot, dot])
    ⟨fun ⟨h, hs, hd, hds⟩ => ⟨h, hs, hd, hds⟩, fun h => ⟨h.ne_nil, h.slash, h.ne_dot, h.ne_dots⟩⟩

namespace Path

variable {p : Path} {name : Name} {names : List Name}

def below (p : Path) (names : List Name) : Path := names.foldl child p

theorem below_append (p : Path) (names more : List Name) :
    p.below (names ++ more) = (p.below names).below more := List.foldl_append

theorem exists_bytes_child (p : Path) (name : Name) :
    ∃ front, (p.child name).bytes = front ++ name ∧ p.bytes <+: front ∧
      p.segments = segments ⟨front⟩ ∧ (front = [] ∨ ∃ before, front = before ++ [Files.slash]) := by
  unfold child
  by_cases he : p.bytes = []
  · refine ⟨[], ?_, ?_, ?_, .inl rfl⟩
    · simp [he]
    · simp [he]
    · simp [segments, he]
  · by_cases hs : p.endsInSlash = true
    · have hl : p.bytes.getLast? = some Files.slash := by simpa [endsInSlash] using hs
      obtain ⟨before, hb⟩ := List.getLast?_eq_some_iff.1 hl
      exact ⟨p.bytes, by simp [hs], List.prefix_refl _, rfl, .inr ⟨before, hb⟩⟩
    · refine ⟨p.bytes ++ [Files.slash], ?_, List.prefix_append .., ?_, .inr ⟨_, rfl⟩⟩
      · simp [he, hs]
      · rw [segments_append]
        simp [segments]

theorem segments_child (hn : name ≠ []) (hs : slash ∉ name) :
    (p.child name).segments = p.segments ++ [name] := by
  obtain ⟨front, hb, -, hsegments, hfront⟩ := exists_bytes_child p name
  have hc : p.child name = ⟨front ++ name⟩ := by rw [← hb]
  rw [hc, hsegments]
  obtain rfl | ⟨before, rfl⟩ := hfront
  · rw [List.nil_append, segments_of_not_mem hs hn]
    simp [segments]
  · rw [List.append_assoc, List.singleton_append, segments_append, segments_append,
      segments_of_not_mem hs hn]
    simp [segments]

theorem segments_below (h : ∀ name ∈ names, IsName name) :
    (p.below names).segments = p.segments ++ names := by
  induction names generalizing p with
  | nil => simp [below]
  | cons name names ih =>
    obtain ⟨hname, hnames⟩ := List.forall_mem_cons.1 h
    have hb : p.below (name :: names) = (p.child name).below names := rfl
    rw [hb, ih hnames, segments_child hname.ne_nil hname.slash, List.append_assoc]
    rfl

theorem prefix_child (p : Path) (name : Name) : p.bytes <+: (p.child name).bytes := by
  obtain ⟨front, hb, hp, -, -⟩ := exists_bytes_child p name
  rw [hb]
  exact hp.trans (List.prefix_append ..)

theorem prefix_below (p : Path) (names : List Name) : p.bytes <+: (p.below names).bytes := by
  induction names generalizing p with
  | nil => exact List.prefix_refl _
  | cons name names ih => exact (prefix_child p name).trans (ih (p.child name))

theorem length_below_le {outer : List Name} (h : outer <+: names) :
    (p.below outer).bytes.length ≤ (p.below names).bytes.length := by
  obtain ⟨more, rfl⟩ := h
  rw [below_append]
  exact (prefix_below _ more).length_le

theorem isAbsolute_below (hp : p.bytes ≠ []) : (p.below names).isAbsolute = p.isAbsolute := by
  obtain ⟨b, bytes, hb⟩ := List.exists_cons_of_ne_nil hp
  obtain ⟨more, hm⟩ := prefix_below p names
  rw [isAbsolute, isAbsolute, ← hm, hb]
  rfl

end Path

namespace FileSystem

/-- A tree as there is one on a disk: an entry has a name of its own within its directory. -/
structure IsTree (fs : FileSystem) : Prop where
  distinct : fs.Distinct
  named : ∀ l name content, (name, content) ∈ fs.list l → IsName name

theorem isTree_of_entries {fs : FileSystem} (hd : (fs.entries.map (·.1)).Nodup)
    (hn : ∀ e ∈ fs.entries, ∀ name ∈ e.1.getLast?, IsName name) : fs.IsTree := by
  refine ⟨distinct_of_nodup hd, ?_⟩
  intro l name content hm
  apply hn _ (mem_list.1 hm) name
  rw [List.getLast?_concat]
  rfl

variable {fs : FileSystem} {o : WalkOptions} {trail : List OpenDirectory} {here : OpenDirectory}
  {e : Name × Content} {l : Location} {v : Visit}

theorem place_of_mem_entryVisits (hn : IsName e.1) (h : v ∈ fs.entryVisits o trail here e)
    (hc : ∀ l, fs.Enters o.followLinks trail here e l →
      ∀ w ∈ fs.contents o (here :: trail) ⟨here.path.child e.1, l⟩, ∃ name rest,
        w.place = (here.path.child e.1).segments ++ name :: rest) :
    ∃ rest, v.place = here.path.segments ++ e.1 :: rest := by
  have hs := Path.segments_child (p := here.path) hn.ne_nil hn.slash
  rw [entryVisits] at h
  obtain ⟨w, he, hw⟩ | ⟨l, hl, he⟩ := fs.visitEntry_cases o.followLinks trail here e
  · rw [he] at h
    refine ⟨[], ?_⟩
    rw [List.mem_singleton.1 h, hw.place, hs]
  · rw [he] at h
    obtain rfl | h := List.mem_cons.1 h
    · exact ⟨[], hs⟩
    · obtain ⟨name, rest, hp⟩ := hc l hl v h
      refine ⟨name :: rest, ?_⟩
      rw [hp, hs, List.append_assoc]
      rfl

theorem place_of_mem_contents (ht : fs.IsTree) (trail : List OpenDirectory) (here : OpenDirectory) :
    ∀ v ∈ fs.contents o trail here, ∃ name rest, v.place = here.path.segments ++ name :: rest := by
  induction trail, here using contents_induction fs o with
  | step trail here ih =>
    intro v hv
    obtain hd | ⟨hd, hlong⟩ | hl := listed_cases o trail here
    · rw [contents_of_deep hd] at hv
      cases hv
    · rw [contents_of_long hd hlong, List.mem_singleton] at hv
      exact ⟨[], [], by rw [hv]; rfl⟩
    · rw [hl.contents_eq] at hv
      obtain ⟨e, he, hv⟩ := List.mem_flatMap.1 hv
      have hn : IsName e.1 := ht.named here.location _ e.2 ((fs.arranged_perm ..).subset he)
      obtain ⟨rest, hp⟩ := place_of_mem_entryVisits hn hv (ih hl e he)
      exact ⟨e.1, rest, hp⟩

/-- The visits in a directory come in the order of their places, names being compared as the entries
of directories are arranged. -/
theorem pairwise_contents (ht : fs.IsTree) {r : Name → Name → Prop}
    (hr : ∀ l, (fs.arranged o.sorted l).Pairwise fun a b => r a.1 b.1)
    (trail : List OpenDirectory) (here : OpenDirectory) :
    (fs.contents o trail here).Pairwise fun v w => List.Lex r v.place w.place := by
  induction trail, here using contents_induction fs o with
  | step trail here ih =>
    obtain hd | ⟨hd, hlong⟩ | hl := listed_cases o trail here
    · rw [contents_of_deep hd]
      exact .nil
    · rw [contents_of_long hd hlong]
      exact List.pairwise_singleton ..
    · have hname {e : Name × Content} (he : e ∈ fs.arranged o.sorted here.location) : IsName e.1 :=
        ht.named here.location _ e.2 ((fs.arranged_perm ..).subset he)
      rw [hl.contents_eq, List.pairwise_flatMap]
      constructor
      · intro e he
        rw [entryVisits]
        obtain ⟨w, hw, -⟩ | ⟨l, hl', hw⟩ := fs.visitEntry_cases o.followLinks trail here e
        · rw [hw]
          exact List.pairwise_singleton ..
        · rw [hw]
          refine .cons ?_ (ih hl e he l hl')
          intro v hv
          obtain ⟨name, rest, hp⟩ := place_of_mem_contents ht _ _ v hv
          rw [hp]
          -- a directory stands at the front of the places of all that is in it
          change List.Lex r (here.path.child e.1).segments _
          simpa using List.Lex.append_left r (.nil : List.Lex r [] (name :: rest))
            (here.path.child e.1).segments
      · refine (hr here.location).imp_of_mem ?_
        intro a b ha hb hab v hv w hw
        obtain ⟨rest, hp⟩ := place_of_mem_entryVisits (hname ha) hv fun _ _ =>
          place_of_mem_contents ht _ _
        obtain ⟨rest', hp'⟩ := place_of_mem_entryVisits (hname hb) hw fun _ _ =>
          place_of_mem_contents ht _ _
        rw [hp, hp']
        exact List.Lex.append_left r (.rel hab) here.path.segments

theorem pairwise_visits (ht : fs.IsTree) {r : Name → Name → Prop}
    (hr : ∀ l, (fs.arranged o.sorted l).Pairwise fun a b => r a.1 b.1) (root : Path) :
    (fs.visits o root).Pairwise fun v w => List.Lex r v.place w.place := by
  rw [visits]
  cases fs.resolve root with
  | error e => exact List.pairwise_singleton ..
  | ok l =>
    by_cases hd : fs.isDirectoryAt l = true
    · simp only [if_pos hd]
      refine .cons ?_ (pairwise_contents ht hr [] ⟨root, l⟩)
      intro v hv
      obtain ⟨name, rest, hp⟩ := place_of_mem_contents ht _ _ v hv
      rw [hp]
      change List.Lex r root.segments _
      simpa using List.Lex.append_left r (.nil : List.Lex r [] (name :: rest)) root.segments
    · simp only [if_neg hd]
      exact List.pairwise_singleton ..

end FileSystem

end MethodExtraction.Files
