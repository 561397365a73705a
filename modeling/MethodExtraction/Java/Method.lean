import MethodExtraction.Java.Node
import MethodExtraction.Text.Slice

namespace MethodExtraction.Java

open Text

structure MethodRecord where
  name : String
  method : String
  hasBody : Bool
  deriving DecidableEq, Inhabited, Repr

/-- The record of a method node over a text, which need not be the text that was parsed. -/
def Node.record? (text : String) (n : Node) : Option MethodRecord := do
  let nameNode ← n.child? .name
  let name ← slice? text nameNode.label.start nameNode.label.stop
  let method ← slice? text n.label.start n.label.stop
  return ⟨name, method, (n.child? .body).isSome⟩

/-- A walk over the methods of a tree: the trees still to visit, the next one first. -/
structure MethodCursor where
  text : String
  pending : List Node

namespace MethodCursor

def ofTree (root : Node) (text : String) : MethodCursor := ⟨text, [root]⟩

/-- The next record and the cursor behind it. Methods without a record are passed over, but not
those nested in them. -/
def next? (text : String) : List Node → Option (MethodRecord × List Node)
  | [] => none
  | n :: rest =>
    let pending := n.namedChildren ++ rest
    match if n.isMethod then n.record? text else none with
    | some r => some (r, pending)
    | none => next? text pending
termination_by ns => Node.sizeAll ns
decreasing_by
  have h := Node.sizeAll_children_lt n
  have h' := Node.sizeAll_filter_le (fun c => c.label.named) n.children
  simp only [Node.namedChildren, Node.sizeAll_append, Node.sizeAll]
  omega

theorem sizeAll_next? {text : String} {ns ns' : List Node} {r : MethodRecord}
    (h : next? text ns = some (r, ns')) : Node.sizeAll ns' < Node.sizeAll ns := by
  fun_induction next? text ns with
  | case1 => simp at h
  | case2 n rest pending r' hr =>
    simp only [Option.some.injEq, Prod.mk.injEq] at h
    obtain ⟨_, rfl⟩ := h
    have h := Node.sizeAll_children_lt n
    have h' := Node.sizeAll_filter_le (fun c => c.label.named) n.children
    simp only [pending, Node.namedChildren, Node.sizeAll_append, Node.sizeAll]
    omega
  | case3 n rest pending hr ih =>
    have hlt := ih h
    have h := Node.sizeAll_children_lt n
    have h' := Node.sizeAll_filter_le (fun c => c.label.named) n.children
    simp only [pending, Node.namedChildren, Node.sizeAll_append, Node.sizeAll] at hlt ⊢
    omega

def next (c : MethodCursor) : Option (MethodRecord × MethodCursor) :=
  (next? c.text c.pending).map fun (r, pending) => (r, ⟨c.text, pending⟩)

theorem sizeAll_next {c c' : MethodCursor} {r : MethodRecord} (h : c.next = some (r, c')) :
    Node.sizeAll c'.pending < Node.sizeAll c.pending := by
  obtain ⟨⟨r', ns⟩, hn, he⟩ := Option.map_eq_some_iff.1 h
  cases he
  exact sizeAll_next? hn

def toList (c : MethodCursor) : List MethodRecord :=
  match _h : c.next with
  | none => []
  | some (r, c') => r :: c'.toList
termination_by Node.sizeAll c.pending
decreasing_by exact sizeAll_next _h

end MethodCursor

def Node.methods (root : Node) (text : String) : List MethodRecord :=
  (MethodCursor.ofTree root text).toList

end MethodExtraction.Java
