import Mathlib
import MethodExtraction.Proofs.Java.Begins
import MethodExtraction.Proofs.Java.Rejection
import MethodExtraction.Proofs.Text.Encoding

namespace MethodExtraction.Java

open Text

namespace Node

/-- The flag of each node says whether the node, or one below it, is an error. -/
def Flagged (n : Node) : Prop :=
  ∀ m ∈ n.everyNode, (m.label.hasError = true ↔ ∃ d ∈ m.everyNode, d.label.isError = true)

variable {n : Node} {ns : List Node}

theorem Flagged.children (h : n.Flagged) : ∀ c ∈ n.children, c.Flagged := by
  intro c hc m hm
  refine h m ?_
  rw [everyNode_eq]
  exact List.mem_cons_of_mem _ (mem_everyNodeAll.2 ⟨c, hc, hm⟩)

theorem Flagged.find?_eq_none (h : n.Flagged) (hf : ¬ n.label.hasError = true) :
    n.everyNode.find? (·.label.isError) = none := by
  refine List.find?_eq_none.2 fun d hd he => hf ?_
  exact (h n n.self_mem_everyNode).2 ⟨d, hd, he⟩

theorem hasError_iff_of_flagged (h : ∀ n ∈ ns, n.Flagged) :
    (ns.any fun n => n.label.hasError) = true ↔ ∃ d ∈ everyNodeAll ns, d.label.isError = true := by
  induction ns with
  | nil => simp [everyNodeAll]
  | cons n ns ih =>
    obtain ⟨hn, hns⟩ := List.forall_mem_cons.1 h
    rw [List.any_cons, Bool.or_eq_true, ih hns, hn n n.self_mem_everyNode, everyNodeAll]
    simp only [List.mem_append, or_and_right, exists_or]

mutual

theorem flagged_mark (n : Node) : n.mark.Flagged := by
  cases n with
  | mk l cs =>
    have hcs := flagged_markAll cs
    intro m hm
    rw [mark, everyNode] at hm
    obtain rfl | hm := List.mem_cons.1 hm
    · rw [everyNode, label, Bool.or_eq_true, hasError_iff_of_flagged hcs]
      simp only [List.mem_cons, exists_eq_or_imp]
      rfl
    · obtain ⟨c, hc, hm⟩ := mem_everyNodeAll.1 hm
      exact hcs c hc m hm

theorem flagged_markAll (ns : List Node) : ∀ n ∈ markAll ns, n.Flagged := by
  cases ns with
  | nil => exact List.forall_mem_nil _
  | cons n ns => exact List.forall_mem_cons.2 ⟨flagged_mark n, flagged_markAll ns⟩

end

end Node

end MethodExtraction.Java
