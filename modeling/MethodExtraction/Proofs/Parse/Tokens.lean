import Mathlib.Data.List.Basic
import Mathlib.Data.String.Basic
import MethodExtraction.Proofs.Parse.Lying
import MethodExtraction.Proofs.Parse.Steps
import MethodExtraction.Proofs.Text.Slicing
import MethodExtraction.Parse.Search

namespace MethodExtraction.Parse

open Grammar Text

namespace Source

def offsetsFrom (offset : Nat) : List Char → List Nat
  | [] => []
  | c :: cs => (offset + c.utf8Size) :: offsetsFrom (offset + c.utf8Size) cs

/-- For each byte of a text the number of its character, if the first has the number `i`. -/
def ownersFrom (i : Nat) : List Char → List Nat
  | [] => []
  | c :: cs => List.replicate c.utf8Size i ++ ownersFrom (i + 1) cs

def Indexes (s : String) (rest : List Char)
    (a : Array Nat × Array Nat × Array Nat × Nat × Nat × Nat) : Prop :=
  a.1.toList ++ offsetsFrom a.2.2.2.1 rest = 0 :: offsetsFrom 0 s.toList ∧
    a.2.2.1.toList ++ ownersFrom a.2.2.2.2.2 rest = ownersFrom 0 s.toList ∧
    a.2.2.2.2.2 + rest.length = s.toList.length

theorem Indexes.next {s : String} {c : Char} {cs : List Char}
    {offsets rows charAt charAt' : Array Nat} {offset row i : Nat}
    (h : Indexes s (c :: cs) (offsets, rows, charAt, offset, row, i))
    (hc : charAt'.toList = charAt.toList ++ List.replicate c.utf8Size i) (rows' : Array Nat)
    (row' : Nat) :
    Indexes s cs
      (offsets.push (offset + c.utf8Size), rows', charAt', offset + c.utf8Size, row', i + 1) := by
  obtain ⟨h1, h2, h3⟩ := h
  refine ⟨?_, ?_, ?_⟩
  · rw [← h1, Array.toList_push, List.append_assoc]
    rfl
  · rw [← h2, hc, List.append_assoc]
    rfl
  · rw [← h3, List.length_cons, Nat.add_assoc, Nat.add_comm 1]

variable {s : String} {i j : Nat}

end Source

namespace Scan

variable {t : Table} {s : Source} {i : Nat} {scan : Scan}

structure Within (s : Source) (i : Nat) (scan : Scan) : Prop where
  start : i ≤ scan.start
  position : scan.start ≤ scan.position
  size : scan.position ≤ s.size
  stop : ∀ k, scan.stop = some k → i ≤ k ∧ k ≤ s.size

theorem Within.stops (h : scan.Within s i) (code : Nat) :
    ({ scan with code, stop := some scan.position } : Scan).Within s i :=
  ⟨h.start, h.position, h.size, fun k hk => by
    obtain rfl := Option.some.inj hk
    exact ⟨h.start.trans h.position, h.size⟩⟩

theorem Within.span (h : scan.Within s i) :
    i ≤ scan.span.1 ∧ scan.span.1 ≤ scan.span.2 ∧ scan.span.2 ≤ s.size := by
  have hstop : i ≤ scan.stop.getD scan.position ∧ scan.stop.getD scan.position ≤ s.size := by
    cases hs : scan.stop with
    | none => exact ⟨h.start.trans h.position, h.size⟩
    | some k => exact h.stop k hs
  exact ⟨Nat.le_min.2 ⟨h.start, hstop.1⟩, Nat.min_le_right .., hstop.2⟩

end Scan

namespace Found

variable {t : Table} {s : Source} {i : Nat}

structure Within (s : Source) (i : Nat) (f : Found) : Prop where
  start : i ≤ f.start
  stop : f.start ≤ f.stop
  size : f.stop ≤ s.size

end Found

end MethodExtraction.Parse
