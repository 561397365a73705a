import MethodExtraction.Java.Language
import MethodExtraction.Java.Node
import MethodExtraction.Parse.Search

namespace MethodExtraction.Java

open Grammar Parse

def tableFor (l : Language) : Thunk Table := Thunk.mk fun _ => Table.ofLanguage l

def table : Thunk Table := tableFor language

/-- What is left to do while nodes are made: enter a tree that lies at a byte offset, with the kind
and the field that its parent gives it, or close a node over the nodes made since. -/
inductive Task where
  | enter (tree : Tree) (offset : Nat) (kind : Option Nat) (field : Option Nat)
  | close (label : Label)

def kindOf (t : Table) (code : Nat) : Kind :=
  if isError t code then .error else .ofNumber ((t.showing[code]?.map Showing.kind).getD 0)

def childTasks (t : Table) (tree : Tree) (offset : Nat) (field : Option Nat) :
    List Task :=
  let (kinds, fields) := (t.layouts[tree.head.layout]?).getD (#[], #[])
  let (tasks, _, _) := tree.children.foldl (fun (tasks, i, at_) c =>
    let h := c.head
    let next := at_ + c.stretch.bytes
    if h.extra then (Task.enter c at_ none none :: tasks, i, next)
    else
      let own := ((fields[i]?).join).orElse fun _ => field
      (Task.enter c at_ (kinds[i]?).join own :: tasks, i + 1, next)) ([], 0, offset)
  tasks.reverse

/-- Tokens show even if the language calls them hidden, so that the leaves spell the text. -/
def isShown (t : Table) (tree : Tree) (kind : Option Nat) : Bool :=
  let code := tree.head.code
  kind.isSome || tree.head.visible || (code != Table.endCode && code ≤ t.tokenCount)

def run (t : Table) : Nat → List Task → List (List Node) → List (List Node)
  | 0, _, made => made
  | _, [], made => made
  | fuel + 1, .close label :: tasks, nodes :: outer :: made =>
    run t fuel tasks ((.mk label nodes.reverse :: outer) :: made)
  | fuel + 1, .close _ :: tasks, made => run t fuel tasks made
  | fuel + 1, .enter tree offset kind field :: tasks, made =>
    let h := tree.head
    if isShown t tree kind then
      let k := match kind with
        | some k => Kind.ofNumber k
        | none => kindOf t h.code
      let start := offset + h.padding.bytes
      let label : Label :=
        { kind := k
          named := k.isNamed
          field := field.bind fun f => Field.all[f]?
          start
          stop := start + h.extent.bytes
          missing := h.missing
          hasError := false }
      run t fuel (childTasks t tree offset none ++ .close label :: tasks) ([] :: made)
    else
      run t fuel (childTasks t tree offset field ++ tasks) made

def nodeOf (t : Table) (tree : Tree) : Option Node :=
  match run t (2 * tree.head.count + 1) [.enter tree 0 none none] [[]] with
  | [[n]] => some n
  | _ => none

def search (text : String) : Option Node :=
  let t := table.get
  ((Setting.mk t (.ofString text)).read).bind (nodeOf t)

end MethodExtraction.Java
