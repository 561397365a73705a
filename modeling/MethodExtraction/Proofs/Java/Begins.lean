import MethodExtraction.Java.Parser
import MethodExtraction.Proofs.Grammar.Rows
import MethodExtraction.Proofs.Java.Completeness
import MethodExtraction.Proofs.Parse.Progress
import MethodExtraction.Proofs.Parse.Tokens

namespace MethodExtraction.Java

open Grammar Parse Text

namespace Node

variable {ns : List Node}

theorem everyNode_eq (n : Node) : n.everyNode = n :: everyNodeAll n.children := by
  cases n with
  | mk l cs => rw [everyNode, children]

theorem self_mem_everyNode (n : Node) : n ∈ n.everyNode := by
  rw [everyNode_eq]
  exact List.mem_cons_self

theorem everyNodeAll_eq_flatMap (ns : List Node) : everyNodeAll ns = ns.flatMap everyNode := by
  induction ns with
  | nil => rfl
  | cons n ns ih => rw [everyNodeAll, List.flatMap_cons, ih]

theorem mem_everyNodeAll {m : Node} : m ∈ everyNodeAll ns ↔ ∃ n ∈ ns, m ∈ n.everyNode := by
  rw [everyNodeAll_eq_flatMap, List.mem_flatMap]

def BeginsBy (root : Node) (k : ℕ) : Prop := ∀ m ∈ root.everyNode, m.label.start ≤ k

variable {k : ℕ}

theorem beginsBy_mk {l : Label} {cs : List Node} :
    (mk l cs).BeginsBy k ↔ l.start ≤ k ∧ ∀ c ∈ cs, c.BeginsBy k := by
  simp only [BeginsBy, everyNode, List.forall_mem_cons, mem_everyNodeAll]
  constructor
  · rintro ⟨hl, hcs⟩
    exact ⟨hl, fun c hc m hm => hcs m ⟨c, hc, hm⟩⟩
  · rintro ⟨hl, hcs⟩
    exact ⟨hl, fun m ⟨c, hc, hm⟩ => hcs c hc m hm⟩

mutual

theorem BeginsBy.mark {n : Node} (h : n.BeginsBy k) : n.mark.BeginsBy k := by
  match n with
  | .mk l cs =>
    rw [beginsBy_mk] at h
    rw [Node.mark]
    exact beginsBy_mk.2 ⟨h.1, beginsBy_markAll h.2⟩

theorem beginsBy_markAll {ns : List Node} (h : ∀ n ∈ ns, n.BeginsBy k) :
    ∀ n ∈ markAll ns, n.BeginsBy k := by
  match ns with
  | [] => exact List.forall_mem_nil _
  | n :: ns =>
    obtain ⟨hn, hns⟩ := List.forall_mem_cons.1 h
    exact List.forall_mem_cons.2 ⟨hn.mark, beginsBy_markAll hns⟩

end

end Node

section Tasks

variable {t : Table} {k : ℕ}

def Task.BeginsBy (t : Table) (k : ℕ) : Task → Prop
  | enter tree offset _ _ => Lies (· ≤ k) t offset tree
  | close label => label.start ≤ k

end Tasks

end MethodExtraction.Java
