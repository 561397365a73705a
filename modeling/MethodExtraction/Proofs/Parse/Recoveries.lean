import MethodExtraction.Proofs.Parse.Reductions

namespace MethodExtraction.Parse

open Grammar Stack Search

variable {B : Nat → Prop} {n : Nat} {c : Setting} {M : List (Nat × Bool)} {m : Nat × Bool}
  {v p q : Nat} {b : Bool}

namespace SearchM

section Comparison

end Comparison

/-- What is left of the slices to go back to. They are in the order of their versions, and each
version but the last one dealt with still stands where the slice was taken off. -/
structure Returning (B : Nat → Prop) (t : Table) (k p : Nat) (L : List (Nat × Bool))
    (previous : Option Nat) (rest : List Slice) : Prop where
  behind : ∀ x ∈ rest, k ≤ x.version
  later : ∀ i, previous = some i → ∀ x ∈ rest, i ≤ x.version
  sorted : rest.Pairwise fun x y => x.version ≤ y.version
  slices : ∀ x ∈ rest, previous = some x.version ∨
    ∃ q, L[x.version]? = some (q, false) ∧ Row B t q x.trees p

namespace Returning

variable {t : Table} {k : Nat} {L L' : List (Nat × Bool)} {previous : Option Nat} {x : Slice}
  {rest : List Slice}

theorem skip (h : Returning B t k p L previous (x :: rest)) :
    Returning B t k p L previous rest :=
  ⟨fun y hy => h.behind y (List.mem_cons_of_mem x hy),
    fun i hi y hy => h.later i hi y (List.mem_cons_of_mem x hy), h.sorted.of_cons,
    fun y hy => h.slices y (List.mem_cons_of_mem x hy)⟩

theorem next (h : Returning B t k p L previous (x :: rest))
    (hL : ∀ i m, i ≠ x.version → L[i]? = some m → L'[i]? = some m) :
    Returning B t k p L' (some x.version) rest := by
  have hlater : ∀ y ∈ rest, x.version ≤ y.version := (List.pairwise_cons.1 h.sorted).1
  refine ⟨h.skip.behind, fun i hi => Option.some.inj hi ▸ hlater, h.skip.sorted, fun y hy => ?_⟩
  by_cases hxy : x.version = y.version
  · exact .inl (congrArg some hxy)
  · obtain hprevious | ⟨q, hq, hrow⟩ := h.skip.slices y hy
    · have hle := h.later _ hprevious x List.mem_cons_self
      exact absurd (Nat.le_antisymm (hlater y hy) hle) hxy
    · exact .inr ⟨q, hL _ _ (Ne.symm hxy) hq, hrow⟩

end Returning

end SearchM

end MethodExtraction.Parse
