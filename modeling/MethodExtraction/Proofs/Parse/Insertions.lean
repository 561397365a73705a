import MethodExtraction.Proofs.Parse.Recoveries

namespace MethodExtraction.Parse

open Grammar Stack Search

variable {B : Nat → Prop} {n : Nat} {c : Setting} {M : List (Nat × Bool)} {m : Nat × Bool}
  {v p q : Nat} {b : Bool}

def spread (M : List (Nat × Bool)) (p k : Nat) : List (Nat × Bool) :=
  M ++ List.replicate k (p, false)

def Spread (B : Nat → Prop) (t : Table) (M : List (Nat × Bool)) (p : Nat) (s : Stack) : Prop :=
  ∃ k, s.Marked B t (spread M p k)

section Lists

variable {k i : Nat}

theorem spread_spread {k' : Nat} : spread (spread M p k) p k' = spread M p (k + k') := by
  rw [spread, spread, spread, List.append_assoc, List.replicate_add]

theorem getElem?_spread (h : M.length ≤ i) (hi : i < M.length + k) :
    (spread M p k)[i]? = some (p, false) := by
  rw [spread, List.getElem?_append_right h]
  exact List.getElem?_replicate_of_lt (Nat.sub_lt_left_of_lt_add h hi)

end Lists

theorem Spread.trans {t : Table} {s : Stack} {k : Nat} (h : Spread B t (spread M p k) p s) :
    Spread B t M p s := by
  obtain ⟨k', hs⟩ := h
  exact ⟨k + k', spread_spread ▸ hs⟩

namespace SearchM

section Reductions

variable {start code k : Nat}

/-- A version on which reductions are still to be made: one that came of them, or the one from which
they started. -/
def Ready (M : List (Nat × Bool)) (p start code v : Nat) : Prop :=
  M.length ≤ v ∨ v = start ∧ M[start]? = some (p, false) ∧ code = Table.endCode

theorem Ready.mark (h : Ready M p start code v) (hv : v < M.length + k) :
    (spread M p k)[v]? = some (p, false) := by
  obtain hge | ⟨rfl, hm, -⟩ := h
  · exact getElem?_spread hge hv
  · exact getElem?_append_some hm

theorem Ready.next (h : Ready M p start code v) :
    Ready M p start code (if v = start then M.length + k else v + 1) := by
  split_ifs with hstart
  · exact .inl (Nat.le_add_right ..)
  · exact .inl (Nat.le_succ_of_le (h.resolve_right fun hv => hstart hv.1))

end Reductions

end SearchM

end MethodExtraction.Parse
