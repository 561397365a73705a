import Mathlib.Data.List.Induction
import Mathlib.Data.List.Perm.Basic
import MethodExtraction.Proofs.Files.Entries

namespace MethodExtraction.Files.FileSystem

variable {fs fs' : FileSystem} {l : Location}

/-- Two file systems with the same content everywhere, whose directories may list their entries in
different orders. The names within a directory are distinct. -/
structure Reordered (fs fs' : FileSystem) : Prop where
  home : fs'.home = fs.home
  content : ∀ l, fs'.content? l = fs.content? l
  list : ∀ l, (fs'.list l).Perm (fs.list l)
  distinct : fs.Distinct

theorem reordered_of_perm (hh : fs'.home = fs.home) (hp : fs'.entries.Perm fs.entries)
    (hd : fs.Distinct) : fs.Reordered fs' where
  home := hh
  list := fun l => hp.filterMap _
  distinct := hd
  content := by
    have hl (l : Location) : (fs'.list l).Perm (fs.list l) := hp.filterMap _
    have hd' : fs'.Distinct := fun l => ((hl l).map _).nodup_iff.2 (hd l)
    intro l
    cases l using List.reverseRecOn with
    | nil => rfl
    | append_singleton l name =>
      apply Option.ext
      intro content
      rw [content?_eq_some_iff hd, content?_eq_some_iff hd', (hl l).mem_iff]

namespace Reordered

variable (h : fs.Reordered fs') (o : WalkOptions)

include h

theorem isDirectoryAt (l : Location) : fs'.isDirectoryAt l = fs.isDirectoryAt l := by
  rw [FileSystem.isDirectoryAt, FileSystem.isDirectoryAt, h.content]

theorem resolve (p : Path) : fs'.resolve p = fs.resolve p := by
  have hw (followLast : Bool) (links : Nat) (here : Location) (names : List Name) :
      fs'.walk followLast links here names = fs.walk followLast links here names := by
    apply Walks.eq
    apply (fs.walks_walk followLast links here names).of_outline
    intro l
    rw [h.content]
  simp only [FileSystem.resolve, follow, hw, h.home]

theorem contentOf (p : Path) : fs'.contentOf p = fs.contentOf p := by
  simp only [FileSystem.contentOf, h.resolve, h.content]

theorem isSourceFile (p : Path) (suffix : String) :
    fs'.isSourceFile p suffix = fs.isSourceFile p suffix := by
  simp only [FileSystem.isSourceFile, isFile, h.contentOf]

theorem arranged (sorted : Bool) (l : Location) :
    (fs'.arranged sorted l).Perm (fs.arranged sorted l) :=
  ((fs'.arranged_perm sorted l).trans (h.list l)).trans (fs.arranged_perm sorted l).symm

end Reordered

theorem Reordered.arranged_sorted (h : fs.Reordered fs') (l : Location) :
    fs'.arranged true l = fs.arranged true l := by
  have hp := h.arranged true l
  refine hp.eq_of_pairwise ?_ (pairwise_mergeSort _) (pairwise_mergeSort _)
  intro a b ha hb hab hba
  exact List.inj_on_of_nodup_map (nodup_arranged h.distinct true l) (hp.subset ha) hb
    (Std.le_antisymm hab hba)

/-- The same things in some order, and in the same order if they are sorted. -/
structure Agree {α : Type} (sorted : Bool) (as bs : List α) : Prop where
  perm : as.Perm bs
  eq : sorted = true → as = bs

namespace Agree

variable {α β : Type} {sorted : Bool} {as bs : List α}

theorem refl (as : List α) : Agree sorted as as := ⟨.refl as, fun _ => rfl⟩

theorem cons (h : Agree sorted as bs) (a : α) : Agree sorted (a :: as) (a :: bs) :=
  ⟨h.perm.cons a, fun hs => by rw [h.eq hs]⟩

theorem filter (h : Agree sorted as bs) (p : α → Bool) :
    Agree sorted (as.filter p) (bs.filter p) :=
  ⟨h.perm.filter p, fun hs => by rw [h.eq hs]⟩

theorem flatMap (h : Agree sorted as bs) {f g : α → List β}
    (hfg : ∀ b ∈ bs, Agree sorted (f b) (g b)) :
    Agree sorted (as.flatMap f) (bs.flatMap g) where
  perm := h.perm.flatMap fun a ha => (hfg a (h.perm.subset ha)).perm
  eq := by
    intro hs
    rw [h.eq hs]
    apply List.flatMap_congr
    intro b hb
    exact (hfg b hb).eq hs

end Agree

namespace Reordered

variable (h : fs.Reordered fs') (o : WalkOptions)

include h

theorem agree_arranged (l : Location) :
    Agree o.sorted (fs'.arranged o.sorted l) (fs.arranged o.sorted l) := by
  refine ⟨h.arranged o.sorted l, ?_⟩
  intro hs
  rw [hs]
  exact h.arranged_sorted l

theorem agree_contents (trail : List OpenDirectory) (here : OpenDirectory) :
    Agree o.sorted (fs'.contents o trail here) (fs.contents o trail here) := by
  induction trail, here using contents_induction fs o with
  | step trail here ih =>
    obtain hd | ⟨hd, hlong⟩ | hl := listed_cases o trail here
    · rw [contents_of_deep hd, contents_of_deep hd]
      exact .refl _
    · rw [contents_of_long hd hlong, contents_of_long hd hlong]
      exact .refl _
    · rw [hl.contents_eq, hl.contents_eq]
      apply (h.agree_arranged o here.location).flatMap
      intro e he
      rw [entryVisits, entryVisits, visitEntry_congr h.resolve h.isDirectoryAt]
      obtain ⟨v, hv, -⟩ | ⟨l, hl', hv⟩ := fs.visitEntry_cases o.followLinks trail here e
      · rw [hv]
        exact .refl _
      · rw [hv]
        exact (ih hl e he l hl').cons _

theorem agree_visits (root : Path) :
    Agree o.sorted (fs'.visits o root) (fs.visits o root) := by
  rw [visits, visits, h.resolve]
  cases fs.resolve root with
  | error e => exact .refl _
  | ok location =>
    simp only [h.isDirectoryAt]
    by_cases hl : fs.isDirectoryAt location = true
    · simp only [if_pos hl]
      exact (h.agree_contents o [] ⟨root, location⟩).cons _
    · simp only [if_neg hl]
      exact .refl _

/-- What is found does not depend on how directories list their entries, but for its order if that
is not asked for. -/
theorem agree_sourceFiles (o : SourceOptions) (root : Path) :
    Agree o.sorted (fs'.sourceFiles o root) (fs.sourceFiles o root) := by
  simp only [sourceFiles, h.isSourceFile]
  exact (h.agree_visits o.toWalkOptions root).filter _

end Reordered

end MethodExtraction.Files.FileSystem
