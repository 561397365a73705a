import Mathlib.Data.List.Forall2
import MethodExtraction.Proofs.Parse.Walks

namespace MethodExtraction.Parse

open Grammar Stack

variable {B : Nat → Prop} {n : Nat} {c : Setting}

/-- What a search relies on: its text has `n` bytes, tokens lie where they are read, and no action
is taken at what is not a token. -/
structure Setting.Reads (B : Nat → Prop) (n : Nat) (c : Setting) : Prop where
  zero : B 0
  le : ∀ k, B k → k ≤ n
  token : ∀ state p, B p → Lies B c.table p (SearchM.readToken c state p)
  errors : ∀ state, SearchM.actions c state (errorCode c.table) = #[]

/-- A state of the search: its stack is as `P` says, the token lies where it was read, and the best
reading lies in the text. -/
structure Search.On (B : Nat → Prop) (n : Nat) (c : Setting) (P : Stack → Prop) (s : Search) :
    Prop where
  stack : P s.stack
  token : ∀ p x, s.token = some (p, x) → Lies B c.table p x
  best : ∀ b, s.best = some b → Lies (· ≤ n) c.table 0 b

namespace Search.On

variable {P Q : Stack → Prop} {M : List (Nat × Bool)} {s : Search}

theorem imp (h : On B n c P s) (hp : P s.stack → Q s.stack) : On B n c Q s :=
  ⟨hp h.stack, h.token, h.best⟩

theorem sound (h : On B n c (Marked B c.table M) s) : On B n c (Sound B c.table) s :=
  h.imp fun hs => hs.sound

end Search.On

open Search

namespace Ensures

variable {α β : Type} {P : Stack → Prop} {Q : α → Search → Prop}

theorem imp {R : Stack → Prop} {m : SearchM α} (h : Ensures (On B n c R) m Q)
    (hp : ∀ s, P s → R s) : Ensures (On B n c P) m Q :=
  fun s hs => h s ⟨hp _ hs.stack, hs.token, hs.best⟩

end Ensures

namespace SearchM

variable {M : List (Nat × Bool)} {m : Nat × Bool} {v p q : Nat} {b : Bool}

section Groups

variable {T : Nat → List Tree → Prop} {news : List Nat} {slices : Array Slice}

def group (groups : Array (Nat × Array (List Tree))) (s : Slice) :
    Array (Nat × Array (List Tree)) :=
  match groups.back? with
  | some (v, trees) =>
    if v = s.version then groups.pop.push (v, trees.push s.trees)
    else groups.push (s.version, #[s.trees])
  | none => groups.push (s.version, #[s.trees])

structure Grouped (T : Nat → List Tree → Prop) (k : Nat) (gs : List (Nat × Array (List Tree)))
    (news : List Nat) : Prop where
  versions : gs.map Prod.fst = List.range' k gs.length
  places : List.Forall₂ (fun g q => g.2 ≠ #[] ∧ ∀ trees ∈ g.2, T q trees) gs news

structure Grouping (xs : List Slice) (k : Nat) (groups : Array (Nat × Array (List Tree))) :
    Prop where
  versions : groups.toList.map Prod.fst = List.range' k groups.size
  slices : ∀ g ∈ groups, g.2 ≠ #[] ∧ ∀ trees ∈ g.2, ∃ x ∈ xs, x.version = g.1 ∧ x.trees = trees

namespace Grouping

variable {xs ys : List Slice} {y : Slice} {k a m : Nat}
  {groups : Array (Nat × Array (List Tree))} {g : Nat × Array (List Tree)}

theorem push (h : Grouping xs k groups) (hy : y ∈ xs) (hver : y.version = k + groups.size) :
    Grouping xs k (groups.push (y.version, #[y.trees])) := by
  refine ⟨?_, fun g hg => ?_⟩
  · rw [Array.toList_push, List.map_append, h.versions, Array.size_push, List.range'_1_concat,
      ← hver]
    rfl
  · obtain hg | rfl := Array.mem_push.1 hg
    · exact h.slices g hg
    · refine ⟨fun h => absurd (congrArg Array.size h) Nat.one_ne_zero,
        fun trees htrees => ⟨y, hy, rfl, ?_⟩⟩
      exact (Array.mem_singleton.1 htrees).symm

theorem last (h : Grouping xs k (groups.push g)) : g.1 = k + groups.size := by
  have hversions := h.versions
  rw [Array.toList_push, List.map_append, Array.size_push, List.range'_1_concat] at hversions
  exact List.singleton_inj.1 (List.append_inj' hversions rfl).2

theorem join (h : Grouping xs k (groups.push g)) (hy : y ∈ xs) (hver : g.1 = y.version) :
    Grouping xs k (groups.push (g.1, g.2.push y.trees)) := by
  refine ⟨?_, fun g' hg' => ?_⟩
  · have hversions := h.versions
    rw [Array.toList_push, List.map_append, Array.size_push] at hversions ⊢
    exact hversions
  · obtain hg' | rfl := Array.mem_push.1 hg'
    · exact h.slices g' (Array.mem_push_of_mem _ hg')
    · refine ⟨Array.push_ne_empty, fun trees htrees => ?_⟩
      obtain htrees | rfl := Array.mem_push.1 htrees
      · exact (h.slices g Array.mem_push_self).2 trees htrees
      · exact ⟨y, hy, hver.symm, rfl⟩

theorem foldl (hys : ∀ y ∈ ys, y ∈ xs) (h : Grouping xs k groups)
    (hsize : a + 1 = k + groups.size) (hpos : 0 < groups.size)
    (hfollows : Follows a (ys.map Slice.version) m) :
    Grouping xs k (ys.foldl group groups) ∧ m = k + (ys.foldl group groups).size := by
  induction ys generalizing a groups with
  | nil => exact ⟨h, hfollows.trans hsize⟩
  | cons y ys ih =>
    obtain ⟨hy, hys⟩ := List.forall_mem_cons.1 hys
    obtain ⟨hver, hfollows⟩ := hfollows
    obtain ⟨gs, g, rfl⟩ := Array.exists_push_of_size_pos hpos
    have hcur : g.1 = a := by
      rw [h.last]
      rw [Array.size_push] at hsize
      omega
    rw [List.foldl_cons, group, Array.back?_push]
    dsimp only
    split_ifs with hsame
    · rw [Array.pop_push]
      refine ih hys (h.join hy hsame) ?_ ?_ hfollows
      · rw [← hsame, hcur, hsize, Array.size_push, Array.size_push]
      · rw [Array.size_push]
        exact Nat.succ_pos _
    · have hnext : y.version = a + 1 := hver.resolve_left fun h => hsame (hcur.trans h.symm)
      refine ih hys (h.push hy (hnext.trans hsize)) ?_ ?_ hfollows
      · rw [hnext, hsize, Nat.add_assoc]
        exact congrArg (k + ·) (Array.size_push ..).symm
      · rw [Array.size_push]
        exact Nat.succ_pos _

end Grouping

end Groups

section Nodes

end Nodes

theorem getElem?_append_some {L R : List (Nat × Bool)} (h : L[v]? = some m) :
    (L ++ R)[v]? = some m := by
  rw [List.getElem?_append_left (List.getElem?_eq_some_iff.1 h).1, h]

theorem Grouped.cons {T : Nat → List Tree → Prop} {k : Nat} {g : Nat × Array (List Tree)}
    {gs : List (Nat × Array (List Tree))} {news : List Nat} (h : Grouped T k (g :: gs) news) :
    ∃ q qs, news = q :: qs ∧ g.1 = k ∧ (g.2 ≠ #[] ∧ ∀ trees ∈ g.2, T q trees) ∧
      Grouped T (k + 1) gs qs := by
  obtain ⟨hversions, hplaces⟩ := h
  cases hplaces with
  | cons hg hgs =>
    rw [List.map_cons, List.length_cons, List.range'_succ, List.cons.injEq] at hversions
    exact ⟨_, _, rfl, hversions.1, hg, hversions.2, hgs⟩

section Reducing

variable {d : Nat} {qs : List Nat}

end Reducing

section Acceptance

end Acceptance

end SearchM

end MethodExtraction.Parse
