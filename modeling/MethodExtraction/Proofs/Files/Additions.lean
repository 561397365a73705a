import MethodExtraction.Proofs.Files.Directories
import MethodExtraction.Proofs.Files.Entries

namespace MethodExtraction.Files

inductive Path.IsAbove : Path → Path → Prop where
  | parent {p q : Path} (h : p.parent? = some q) : IsAbove q p
  | higher {p q r : Path} (h : p.parent? = some q) (ha : IsAbove r q) : IsAbove r p

namespace FileSystem

variable {fs fs' fs'' : FileSystem} {paths paths' : Path → Prop} {p q : Path} {l : Location}

/-- A directory that was missing before. One of some paths leads there now. -/
structure Added (paths : Path → Prop) (fs fs' : FileSystem) (l : Location) : Prop where
  missing : fs.content? l = none
  made : fs'.content? l = some .directory
  path : ∃ q, paths q ∧ fs'.resolve q = .ok l

/-- Nothing has changed but that directories have been added. -/
structure Adds (paths : Path → Prop) (fs fs' : FileSystem) : Prop where
  home : fs'.home = fs.home
  content : ∀ l, fs'.content? l = fs.content? l ∨ Added paths fs fs' l

theorem Added.kept (h : Added paths fs fs' l) (hx : fs'.Extends fs'') :
    Added paths fs fs'' l := by
  obtain ⟨q, hq, hr⟩ := h.path
  have hd := hx.isDirectoryAt (isDirectoryAt_iff.2 h.made)
  refine ⟨h.missing, isDirectoryAt_iff.1 hd, q, hq, ?_⟩
  exact resolve_of_follow_directory (follow_extends hx (follow_segments_of_resolve hr)) hd

namespace Adds

theorem refl (paths : Path → Prop) (fs : FileSystem) : Adds paths fs fs :=
  ⟨rfl, fun _ => .inl rfl⟩

theorem mono (h : Adds paths fs fs') (hp : ∀ q, paths q → paths' q) : Adds paths' fs fs' := by
  refine ⟨h.home, ?_⟩
  intro l
  apply (h.content l).imp_right
  rintro ⟨hmissing, hmade, q, hq, hr⟩
  exact ⟨hmissing, hmade, q, hp q hq, hr⟩

theorem keeps (h : Adds paths fs fs') : fs.Extends fs' := by
  refine ⟨h.home, ?_⟩
  intro l c hc
  obtain he | ha := h.content l
  · exact ⟨c, he.trans hc, rfl⟩
  · cases hc.symm.trans ha.missing

theorem trans (h : Adds paths fs fs') (h' : Adds paths fs' fs'') : Adds paths fs fs'' := by
  refine ⟨h'.home.trans h.home, ?_⟩
  intro l
  obtain he' | ha' := h'.content l
  · obtain he | ha := h.content l
    · exact .inl (he'.trans he)
    · exact .inr (ha.kept h'.keeps)
  · obtain he | ha := h.content l
    · exact .inr ⟨he ▸ ha'.missing, ha'.made, ha'.path⟩
    · cases ha.made.symm.trans ha'.missing

end Adds

theorem adds_put (hf : fs.follow false q q.segments = .ok (.vacant l)) (hq : paths q) :
    Adds paths fs (fs.put l .directory) := by
  obtain ⟨hl, hnone⟩ := (walks_of_follow hf).content?_vacant
  refine ⟨home_put fs l .directory, ?_⟩
  intro l'
  by_cases he : l' = l
  · subst he
    have hmade := fs.content?_put_self hl .directory
    refine .inr ⟨hnone, hmade, q, hq, ?_⟩
    exact resolve_of_follow_directory (follow_put_vacant hf nofun) (isDirectoryAt_iff.2 hmade)
  · left
    rw [content?_put hl, if_neg he]

end FileSystem

namespace Change

open FileSystem

variable {fs : FileSystem} {paths : Path → Prop} {p : Path}

def state {α : Type} : EStateM.Result IoError FileSystem α → FileSystem
  | .ok _ fs => fs
  | .error _ fs => fs

theorem adds_makeDirectory (hp : paths p) (fs : FileSystem) :
    Adds paths fs (state (makeDirectory p fs)) := by
  obtain ⟨l, hf, hm⟩ | ⟨l, -, hm⟩ | ⟨e, -, hm⟩ := makeDirectory_cases p fs
  · rw [hm]
    exact adds_put hf hp
  · rw [hm]
    exact .refl paths fs
  · rw [hm]
    exact .refl paths fs

theorem adds_orDirectory (hp : paths p) (fs : FileSystem) :
    Adds paths fs (state (orDirectory p (makeDirectory p) fs)) := by
  have h := adds_makeDirectory hp fs
  rw [orDirectory]
  cases hm : makeDirectory p fs with
  | ok u fs' =>
    rw [hm] at h
    exact h
  | error e fs' =>
    rw [hm] at h
    by_cases hd : fs'.isDirectory p = true
    · simp only [if_pos hd]
      exact h
    · simp only [if_neg hd]
      exact h

/-- Making directories adds some at the path and at those above it, be it successful or not. -/
theorem adds_makeDirectories (p : Path) (fs : FileSystem) :
    Adds (fun q => q = p ∨ q.IsAbove p) fs (state (makeDirectories p fs)) := by
  by_cases hp : p.bytes = []
  · rw [makeDirectories, if_pos hp]
    exact .refl _ fs
  by_cases hf : fs.follow false p p.segments = .error .notFound
  · rw [makeDirectories_of_missing hp hf]
    cases hq : p.parent? with
    | none => exact .refl _ fs
    | some q =>
      have habove : Adds (fun r => r = p ∨ r.IsAbove p) fs (state (makeDirectories q fs)) := by
        apply (adds_makeDirectories q fs).mono
        rintro r (rfl | hr)
        · exact .inr (.parent hq)
        · exact .inr (.higher hq hr)
      simp only
      cases hm : makeDirectories q fs with
      | error e fs' =>
        rw [hm] at habove
        exact habove
      | ok u fs' =>
        rw [hm] at habove
        exact habove.trans (adds_orDirectory (.inl rfl) fs')
  · rw [makeDirectories_of_not_missing hp hf]
    exact adds_orDirectory (.inl rfl) fs
termination_by p.bytes.length
decreasing_by exact Path.length_parent?_lt hq

theorem adds_makeParents (p : Path) (fs : FileSystem) :
    Adds (·.IsAbove p) fs (state (makeParents p fs)) := by
  rw [makeParents]
  cases hq : p.parent? with
  | none => exact .refl _ fs
  | some q =>
    apply (adds_makeDirectories q fs).mono
    rintro r (rfl | hr)
    · exact .parent hq
    · exact .higher hq hr

end Change

end MethodExtraction.Files
