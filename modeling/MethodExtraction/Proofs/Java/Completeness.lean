import Mathlib.Data.List.Forall2
import MethodExtraction.Java.Parser
import MethodExtraction.Proofs.Java.Layout
import MethodExtraction.Proofs.Java.Preorder
import MethodExtraction.Proofs.Java.Shape

namespace MethodExtraction.Java

open Grammar Text

namespace Node

mutual

def everyNode : Node → List Node
  | mk l cs => mk l cs :: everyNodeAll cs

def everyNodeAll : List Node → List Node
  | [] => []
  | c :: cs => c.everyNode ++ everyNodeAll cs

end

/-- Whether a node can be read from some place of a text on. -/
def IsRead (text : String) (n : Node) : Prop :=
  ∃ p q : Place, p.In text ∧ n.read? p = some q

variable {text : String} {n : Node} {ns : List Node}

theorem Row.isRead {p q : Place} (h : Row text p ns q) : ∀ n ∈ ns, n.IsRead text := by
  intro n hn
  obtain ⟨p', q', hp, hr, -⟩ := h.forall_mem n hn
  exact ⟨p', q', hp, hr⟩

theorem IsRead.children (h : n.IsRead text) : ∀ c ∈ n.children, c.IsRead text := by
  obtain ⟨p, q, hp, hr⟩ := h
  obtain ⟨-, ⟨c, -, -, -, hall⟩ | ⟨hnil, -⟩⟩ := read?_cases hr
  · exact (row_of_readAll? hp hall).isRead
  · rw [hnil]
    exact List.forall_mem_nil _

mutual

theorem isRead_everyNode {text : String} {n : Node} (h : n.IsRead text) :
    ∀ m ∈ n.everyNode, m.IsRead text := by
  cases n with
  | mk l cs => exact List.forall_mem_cons.2 ⟨h, isRead_everyNodeAll h.children⟩

theorem isRead_everyNodeAll {text : String} {ns : List Node} (h : ∀ n ∈ ns, n.IsRead text) :
    ∀ m ∈ everyNodeAll ns, m.IsRead text := by
  cases ns with
  | nil => exact List.forall_mem_nil _
  | cons n ns =>
    obtain ⟨hn, hns⟩ := List.forall_mem_cons.1 h
    exact List.forall_mem_append.2 ⟨isRead_everyNode hn, isRead_everyNodeAll hns⟩

end

/-- A node without a name of its own is a token. -/
theorem IsRead.filter_everyNode_of_unnamed (h : n.IsRead text) (hn : ¬ n.label.named = true) :
    n.everyNode.filter isMethod = [] := by
  obtain ⟨p, q, -, hr⟩ := h
  obtain ⟨hnamed, ⟨c, hc, -⟩ | ⟨hnil, hm, -⟩⟩ := read?_cases hr
  · rw [hnamed, hc] at hn
    exact absurd rfl hn
  · cases n with
    | mk l cs =>
      obtain rfl : cs = [] := hnil
      exact List.filter_cons_of_neg (by rw [hm]; exact Bool.false_ne_true)

mutual

/-- All methods below a node are found by going through the named nodes alone. -/
theorem filter_everyNode {text : String} {n : Node} (h : ∀ c ∈ n.children, c.IsRead text) :
    n.everyNode.filter isMethod = n.preorder.filter isMethod := by
  cases n with
  | mk l cs =>
    have hcs : (everyNodeAll cs).filter isMethod = (preorderAll cs).filter isMethod :=
      filter_everyNodeAll h
    rw [everyNode, preorder, List.filter_cons, List.filter_cons, hcs]

theorem filter_everyNodeAll {text : String} {ns : List Node} (h : ∀ n ∈ ns, n.IsRead text) :
    (everyNodeAll ns).filter isMethod = (preorderAll ns).filter isMethod := by
  cases ns with
  | nil => rfl
  | cons n ns =>
    obtain ⟨hn, hns⟩ := List.forall_mem_cons.1 h
    rw [everyNodeAll, preorderAll, List.filter_append, filter_everyNodeAll hns]
    by_cases hl : n.label.named = true
    · rw [if_pos hl, List.filter_append, filter_everyNode hn.children]
    · rw [if_neg hl, hn.filter_everyNode_of_unnamed hl, List.nil_append]

end

structure Yields (text : String) (n : Node) (r : MethodRecord) : Prop where
  record : n.record? text = some r
  name_ne_empty : r.name ≠ ""
  name : ∃ m, n.child? .name = some m ∧ Stands text r.name m.label.start m.label.stop ∧
    n.label.start < m.label.start ∧ m.label.stop < n.label.stop
  method : Stands text r.method n.label.start n.label.stop

theorem Lies.inText {p q : Place} (h : n.Lies text p q) : n.InText text :=
  ⟨h.boundary, h.stop_eq ▸ h.behind.isBoundary, Nat.le_of_lt h.lt⟩

theorem IsRead.name (h : n.IsRead text) (hm : n.isMethod = true) :
    ∃ (m : Node) (p q : Place), n.child? .name = some m ∧ m.Lies text p q ∧
      n.label.start < m.label.start ∧ m.label.stop < n.label.stop := by
  obtain ⟨p, q, hp, hr⟩ := h
  obtain ⟨-, ⟨c, hc, hs, hf, hall⟩ | ⟨-, hnot, -⟩⟩ := read?_cases hr
  · obtain rfl : c = .methodDeclaration :=
      Kind.construct.inj (hc.symm.trans (of_decide_eq_true hm))
    obtain ⟨front, name, back, last, hparts⟩ := methodParts_of_fit hf
    obtain ⟨first, hfirst, hstart, hstop⟩ := hparts.ends hs
    have hrow := row_of_readAll? hp hall
    obtain ⟨hbefore, hbehind⟩ := hparts.between hrow.pairwise
    have hlies : ∀ m ∈ front ++ name :: back ++ [last], ∃ p q : Place, m.Lies text p q := by
      intro m hm
      obtain ⟨p', q', -, -, hl, -⟩ := hrow.forall_mem m (hparts.mem hm)
      exact ⟨p', q', hl⟩
    obtain ⟨_, _, hlfirst⟩ := hlies first (by simp [hfirst])
    obtain ⟨p', q', hlname⟩ := hlies name (by simp)
    obtain ⟨_, _, hllast⟩ := hlies last (by simp)
    refine ⟨name, p', q', hparts.child?_name hf, hlname, ?_, ?_⟩
    · rw [← hstart]
      exact Nat.lt_of_lt_of_le hlfirst.lt (hbefore first hfirst)
    · rw [← hstop]
      exact Nat.lt_of_le_of_lt hbehind hllast.lt
  · exact absurd hm (by rw [hnot]; exact Bool.false_ne_true)

theorem IsRead.yields (h : n.IsRead text) (hm : n.isMethod = true) : ∃ r, n.Yields text r := by
  obtain ⟨m, p', q', hname, hlies, hstart, hstop⟩ := h.name hm
  obtain ⟨p, q, hp, hr⟩ := h
  have hsome : n.record? text ≠ none := fun hnone =>
    record?_eq_none_iff.1 hnone m hname ⟨hlies.inText, (lies_of_read? hp hr).inText⟩
  obtain ⟨r, hrecord⟩ := Option.ne_none_iff_exists'.1 hsome
  obtain ⟨⟨m', hm', hstands⟩, hmethod, -⟩ := record?_eq_some_iff.1 hrecord
  obtain rfl : m = m' := Option.some.inj (hname.symm.trans hm')
  refine ⟨r, hrecord, fun hempty => ?_, ⟨m, hname, hstands, hstart, hstop⟩, hmethod⟩
  have hlength := hstands.length
  rw [hempty] at hlength
  exact Nat.ne_of_lt hlies.lt hlength

end Node

theorem treeBy_of_find {find : String → Option Node} {text : String} {root : Node}
    (hfind : find text = some root)
    (hroot : root.mark.label.hasError = true ∨ root.mark.derives text = true) :
    treeBy find text = root.mark := by
  rw [treeBy, hfind, Option.map_some]
  exact if_pos ((Bool.or_eq_true ..).mpr hroot)

theorem treeBy_cases (find : String → Option Node) (text : String) :
    treeBy find text = unreadable ∨ ∃ root, find text = some root ∧
      treeBy find text = root.mark ∧
        (root.mark.label.hasError = true ∨ root.mark.derives text = true) := by
  rw [treeBy]
  cases find text with
  | none => exact .inl rfl
  | some root =>
    rw [Option.map_some]
    dsimp only
    split_ifs with h
    · exact .inr ⟨root, rfl, rfl, (Bool.or_eq_true ..).mp h⟩
    · exact .inl rfl

theorem hasError_or_derives_treeBy (find : String → Option Node) (text : String) :
    (treeBy find text).label.hasError = true ∨ (treeBy find text).derives text = true := by
  obtain h | ⟨root, -, h, hroot⟩ := treeBy_cases find text
  · rw [h]
    exact .inl rfl
  · rw [h]
    exact hroot

theorem derives_of_parseBy {find : String → Option Node} {text : String} {root : Node}
    (h : parseBy find text = .ok root) : root.derives text = true := by
  simp only [parseBy] at h
  split at h
  next => cases h
  next herror =>
    cases h
    exact (hasError_or_derives_treeBy find text).resolve_left herror

theorem parseBy_of_derives {text : String} {root : Node} (hmark : root.mark = root)
    (herror : root.label.hasError = false) (h : root.derives text = true) :
    parseBy (fun _ => some root) text = .ok root := by
  have htree : treeBy (fun _ => some root) text = root := by
    rw [treeBy_of_find rfl (.inr (hmark.symm ▸ h)), hmark]
  simp only [parseBy, htree, herror, Bool.false_eq_true, if_false]

theorem Node.isRead_of_derives {text : String} {root : Node} (h : root.derives text = true) :
    root.isMethod = false ∧ ∀ n ∈ root.children, n.IsRead text := by
  simp only [Node.derives, Bool.and_eq_true, Option.any_eq_true, decide_eq_true_eq] at h
  obtain ⟨⟨⟨⟨⟨-, hkind⟩, -⟩, -⟩, -⟩, q, hq, -⟩ := h
  refine ⟨?_, (Node.row_of_readAll? (Place.in_ofText text) hq).isRead⟩
  rw [Node.isMethod, Node.kind, hkind]
  rfl

theorem forall₂_filterMap {α β : Type} {R : α → β → Prop} {f : α → Option β} {as : List α}
    (h : ∀ a ∈ as, ∃ b, f a = some b ∧ R a b) : List.Forall₂ R as (as.filterMap f) := by
  induction as with
  | nil => exact .nil
  | cons a as ih =>
    obtain ⟨⟨b, hb, hr⟩, has⟩ := List.forall_mem_cons.1 h
    rw [List.filterMap_cons_some hb]
    exact .cons hr (ih has)

theorem Node.methods_eq_filterMap_filter (root : Node) (text : String) :
    root.methods text = (root.preorder.filter isMethod).filterMap (record? text) := by
  obtain ⟨-, hl⟩ := (MethodCursor.ofTree root text).drains
  have hp : (MethodCursor.ofTree root text).pending.flatMap preorder = root.preorder :=
    List.flatMap_singleton ..
  rw [List.filterMap_filter, ← hp]
  exact hl

theorem forall₂_yields {text : String} {root : Node} (h : root.derives text = true) :
    List.Forall₂ (fun n r => n.IsRead text ∧ n.isMethod = true ∧ n.Yields text r)
      (root.preorder.filter Node.isMethod) (root.methods text) := by
  obtain ⟨hroot, hchildren⟩ := Node.isRead_of_derives h
  have hread : ∀ n ∈ root.preorder.filter Node.isMethod, n.IsRead text := by
    rw [← Node.filter_everyNode hchildren]
    intro n hn
    obtain ⟨hmem, hm⟩ := List.mem_filter.1 hn
    cases root with
    | mk l cs =>
      obtain rfl | hmem := List.mem_cons.1 hmem
      · exact absurd (hroot.symm.trans hm) Bool.false_ne_true
      · exact Node.isRead_everyNodeAll hchildren n hmem
  rw [Node.methods_eq_filterMap_filter]
  refine forall₂_filterMap fun n hn => ?_
  obtain ⟨r, hr⟩ := (hread n hn).yields (List.mem_filter.1 hn).2
  exact ⟨r, hr.record, hread n hn, (List.mem_filter.1 hn).2, hr⟩

theorem yields_of_mem_methods {text : String} {root : Node} (h : root.derives text = true) :
    ∀ r ∈ root.methods text, ∃ n : Node, n.IsRead text ∧ n.isMethod = true ∧ n.Yields text r := by
  have hall := forall₂_yields h
  generalize root.preorder.filter Node.isMethod = ns, root.methods text = rs at hall ⊢
  induction hall with
  | nil => exact List.forall_mem_nil _
  | cons hr _ ih => exact List.forall_mem_cons.2 ⟨⟨_, hr⟩, ih⟩

/-- Extraction over an accepted text loses nothing, whatever search has found its tree. Each method
of the tree, at any depth and below nodes of any kind, gives one record; its name is not empty and
stands strictly within the method, and both are parts of the text between two characters. -/
theorem methods_complete (find : String → Option Node) {text : String} {root : Node}
    (h : parseBy find text = .ok root) :
    List.Forall₂ (Node.Yields text) (root.everyNode.filter Node.isMethod) (root.methods text) ∧
      (root.methods text).length = root.everyNode.countP Node.isMethod := by
  obtain ⟨hroot, hchildren⟩ := Node.isRead_of_derives (derives_of_parseBy h)
  have hread : ∀ n ∈ root.everyNode, n.isMethod = true → n.IsRead text := by
    cases root with
    | mk l cs =>
      refine List.forall_mem_cons.2 ⟨fun hm => ?_, fun n hn _ => ?_⟩
      · exact absurd (hroot.symm.trans hm) Bool.false_ne_true
      · exact Node.isRead_everyNodeAll hchildren n hn
  have hrecords : root.methods text =
      (root.everyNode.filter Node.isMethod).filterMap (Node.record? text) := by
    obtain ⟨-, hl⟩ := (MethodCursor.ofTree root text).drains
    have hp : (MethodCursor.ofTree root text).pending.flatMap Node.preorder = root.preorder :=
      List.flatMap_singleton ..
    rw [Node.filter_everyNode hchildren, List.filterMap_filter, ← hp]
    exact hl
  have hall : List.Forall₂ (Node.Yields text) (root.everyNode.filter Node.isMethod)
      (root.methods text) := by
    rw [hrecords]
    refine forall₂_filterMap fun n hn => ?_
    obtain ⟨hmem, hm⟩ := List.mem_filter.1 hn
    obtain ⟨r, hr⟩ := (hread n hmem hm).yields hm
    exact ⟨r, hr.record, hr⟩
  refine ⟨hall, ?_⟩
  rw [List.countP_eq_length_filter, hall.length_eq]

def Node.plain (kind : Kind) (field : Option Field) (start stop : Nat) (children : List Node) :
    Node :=
  .mk ⟨kind, kind.isNamed, field, start, stop, false, false⟩ children

def accented : Node :=
  .plain (.construct .program) none 0 17 [
    .plain (.construct .methodDeclaration) none 0 17 [
      .plain (.token .voidWord) (some .type) 0 4 [],
      .plain (.token .identifier) (some .name) 5 7 [],
      .plain (.construct .formalParameters) (some .parameters) 7 9 [
        .plain (.token .lparen) none 7 8 [],
        .plain (.token .rparen) none 8 9 []],
      .plain (.token .blockComment) none 10 14 [],
      .plain (.construct .block) (some .body) 15 17 [
        .plain (.token .lbrace) none 15 16 [],
        .plain (.token .rbrace) none 16 17 []]]]

theorem methods_complete_accented :
    parseBy (fun _ => some accented) "void é() /**/ \x7b\x7d" = .ok accented ∧
      List.Forall₂ (Node.Yields "void é() /**/ \x7b\x7d") (accented.everyNode.filter Node.isMethod)
        (accented.methods "void é() /**/ \x7b\x7d") ∧
      (accented.methods "void é() /**/ \x7b\x7d").length =
        accented.everyNode.countP Node.isMethod := by
  have h : parseBy (fun _ => some accented) "void é() /**/ \x7b\x7d" = .ok accented :=
    parseBy_of_derives rfl rfl (by decide +kernel)
  exact ⟨h, methods_complete _ h⟩

end MethodExtraction.Java
