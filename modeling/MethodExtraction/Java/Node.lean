import MethodExtraction.Java.Construct

namespace MethodExtraction.Java

structure Label where
  kind : Kind
  named : Bool
  field : Option Field
  start : Nat
  stop : Nat
  missing : Bool
  hasError : Bool
  deriving DecidableEq, Inhabited, Repr

inductive Node where
  | mk (label : Label) (children : List Node)
  deriving Inhabited

namespace Label

/-- Text that no rule covers, or a token that the text lacks. -/
def isError (l : Label) : Bool := l.kind = .error || l.missing

def fills (l : Label) (f : Field) : Bool := l.field = some f

end Label

namespace Node

def label : Node → Label
  | mk l _ => l

def children : Node → List Node
  | mk _ cs => cs

def kind (n : Node) : Kind := n.label.kind

def child? (n : Node) (f : Field) : Option Node := n.children.find? fun c => c.label.fills f

def namedChildren (n : Node) : List Node := n.children.filter fun c => c.label.named

def isMethod (n : Node) : Bool := n.kind = .construct .methodDeclaration

mutual

/-- The tree with the flags set that its nodes call for. -/
def mark : Node → Node
  | mk l cs =>
    let cs := markAll cs
    mk { l with hasError := l.isError || cs.any fun c => c.label.hasError } cs

def markAll : List Node → List Node
  | [] => []
  | c :: cs => c.mark :: markAll cs

end

mutual

def size : Node → Nat
  | mk _ cs => 1 + sizeAll cs

def sizeAll : List Node → Nat
  | [] => 0
  | c :: cs => c.size + sizeAll cs

end

theorem sizeAll_append (as bs : List Node) : sizeAll (as ++ bs) = sizeAll as + sizeAll bs := by
  induction as with
  | nil => simp [sizeAll]
  | cons a as ih => simp [sizeAll, ih, Nat.add_assoc]

theorem sizeAll_filter_le (p : Node → Bool) (ns : List Node) :
    sizeAll (ns.filter p) ≤ sizeAll ns := by
  induction ns with
  | nil => simp
  | cons n ns ih =>
    by_cases h : p n = true
    · simp only [List.filter_cons_of_pos h, sizeAll]; omega
    · simp only [List.filter_cons_of_neg h, sizeAll]; omega

theorem sizeAll_children_lt (n : Node) : sizeAll n.children < n.size := by
  cases n; simp [children, size]

/-- The first error among trees in document order, found without entering trees that have none. -/
def firstErrorIn : List Node → Option Node
  | [] => none
  | n :: rest =>
    if n.label.isError then some n
    else
      firstErrorIn (n.children.filter (fun c => c.label.hasError || c.label.missing) ++ rest)
termination_by ns => sizeAll ns
decreasing_by
  have h := sizeAll_children_lt n
  have h' := sizeAll_filter_le (fun c => c.label.hasError || c.label.missing) n.children
  simp only [sizeAll_append, sizeAll]
  omega

def firstError (n : Node) : Option Node := firstErrorIn [n]

end Node

end MethodExtraction.Java
