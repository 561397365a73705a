import MethodExtraction.Proofs.Java.Edges

namespace MethodExtraction.Java

open Grammar Text

structure Span where
  start : Nat
  stop : Nat
  deriving DecidableEq, Repr

namespace Span

def Contains (s t : Span) : Prop := s.start < t.start ∧ t.stop < s.stop

def Disjoint (s t : Span) : Prop := s.stop ≤ t.start ∨ t.stop ≤ s.start

/-- A later span lies within an earlier one, or behind it. -/
def Follows (s t : Span) : Prop := s.Contains t ∨ s.stop ≤ t.start

instance (s t : Span) : Decidable (s.Contains t) := inferInstanceAs (Decidable (_ ∧ _))

end Span

/-- Spans in the order of their beginnings. Those within one of them come right behind it. -/
structure Nested (spans : List Span) : Prop where
  nonempty : ∀ s ∈ spans, s.start < s.stop
  increasing : spans.Pairwise fun s t => s.start < t.start
  apart : spans.Pairwise fun s t => s.Disjoint t ∨ s.Contains t
  block : ∀ before s rest, spans = before ++ s :: rest →
    ∃ inside behind, rest = inside ++ behind ∧ (∀ t ∈ inside, s.Contains t) ∧
      (∀ t ∈ behind, s.stop ≤ t.start) ∧ ∀ t ∈ before, ¬ s.Contains t

theorem exists_block {s : Span} {rest : List Span} (hs : ∀ t ∈ rest, s.Follows t)
    (hlt : rest.Pairwise fun t u => t.start < u.start) :
    ∃ inside behind, rest = inside ++ behind ∧ (∀ t ∈ inside, s.Contains t) ∧
      ∀ t ∈ behind, s.stop ≤ t.start := by
  induction rest with
  | nil => exact ⟨[], [], rfl, List.forall_mem_nil _, List.forall_mem_nil _⟩
  | cons t rest ih =>
    obtain ⟨ht, hrest⟩ := List.forall_mem_cons.1 hs
    obtain ⟨htrest, hlt⟩ := List.pairwise_cons.1 hlt
    obtain hc | hle := ht
    · obtain ⟨inside, behind, rfl, hi, hb⟩ := ih hrest hlt
      exact ⟨t :: inside, behind, rfl, List.forall_mem_cons.2 ⟨hc, hi⟩, hb⟩
    · refine ⟨[], t :: rest, rfl, List.forall_mem_nil _, ?_⟩
      exact List.forall_mem_cons.2 ⟨hle, fun u hu => Nat.le_trans hle (Nat.le_of_lt (htrest u hu))⟩

theorem nested_of_follows {spans : List Span} (hne : ∀ s ∈ spans, s.start < s.stop)
    (h : spans.Pairwise Span.Follows) : Nested spans := by
  have hlt : spans.Pairwise fun s t => s.start < t.start := by
    refine h.imp_of_mem fun {s t} hs _ hf => ?_
    obtain hc | hle := hf
    · exact hc.1
    · exact Nat.lt_of_lt_of_le (hne s hs) hle
  refine ⟨hne, hlt, h.imp fun hf => ?_, ?_⟩
  · obtain hc | hle := hf
    · exact .inr hc
    · exact .inl (.inl hle)
  · rintro before s rest rfl
    rw [List.pairwise_append, List.pairwise_cons] at h hlt
    obtain ⟨inside, behind, he, hi, hb⟩ := exists_block h.2.1.1 hlt.2.1.2
    refine ⟨inside, behind, he, hi, hb, fun t ht hc => ?_⟩
    exact absurd (hlt.2.2 t ht s (List.mem_cons_self ..)) (Nat.not_lt.2 (Nat.le_of_lt hc.1))

namespace Node

variable {text : String} {n m c : Node} {kinds : Kind → Bool}

def span (n : Node) : Span := ⟨n.label.start, n.label.stop⟩

theorem size_lt_of_mem_children (h : c ∈ n.children) : c.size < n.size := by
  have hlt := sizeAll_children_lt n
  have hle : ∀ ns : List Node, c ∈ ns → c.size ≤ sizeAll ns := by
    intro ns hc
    induction ns with
    | nil => cases hc
    | cons n ns ih =>
      rw [sizeAll]
      obtain rfl | hc := List.mem_cons.1 hc
      · exact Nat.le_add_right ..
      · exact Nat.le_trans (ih hc) (Nat.le_add_left ..)
  exact Nat.lt_of_le_of_lt (hle n.children h) hlt

theorem mem_preorder_iff :
    m ∈ n.preorder ↔ m = n ∨ ∃ c ∈ n.namedChildren, m ∈ c.preorder := by
  rw [preorder_eq_cons, List.mem_cons, List.mem_flatMap]

theorem mem_children_of_mem_namedChildren (h : c ∈ n.namedChildren) : c ∈ n.children :=
  List.mem_of_mem_filter h

namespace IsRead

theorem pairwise_children (h : n.IsRead text) :
    n.children.Pairwise fun a b => a.label.stop ≤ b.label.start := by
  obtain ⟨p, q, hp, hr⟩ := h
  obtain ⟨-, ⟨-, -, -, -, hall⟩ | ⟨hnil, -⟩⟩ := read?_cases hr
  · exact (row_of_readAll? hp hall).pairwise
  · rw [hnil]
    exact List.Pairwise.nil

theorem lt (h : n.IsRead text) : n.label.start < n.label.stop := by
  obtain ⟨p, q, hp, hr⟩ := h
  exact (lies_of_read? hp hr).lt

theorem not_mem_children_of_word {t : Token} (h : n.IsRead text) (ht : n.kind.word? = some t) :
    c ∉ n.children := by
  obtain ⟨p, q, -, hr⟩ := h
  rw [(read?_word ht hr).1]
  exact List.not_mem_nil

theorem children_within (h : n.IsRead text) :
    ∀ c ∈ n.children, n.label.start ≤ c.label.start ∧ c.label.stop ≤ n.label.stop := by
  intro c hc
  have hpairwise := h.pairwise_children
  have hchildren := h.children
  obtain ⟨p, q, hp, hr⟩ := h
  obtain ⟨-, ⟨-, -, hs, -, -⟩ | ⟨hnil, -⟩⟩ := read?_cases hr
  · obtain ⟨first, last, hf, hl, hstart, hstop, -⟩ := spans_iff.1 hs
    obtain ⟨rest, hrest⟩ := List.head?_eq_some_iff.1 hf
    obtain ⟨init, hinit⟩ := List.getLast?_eq_some_iff.1 hl
    constructor
    · rw [hrest] at hc hpairwise hchildren
      rw [← hstart]
      obtain rfl | hc := List.mem_cons.1 hc
      · exact Nat.le_refl _
      · exact Nat.le_trans (Nat.le_of_lt (hchildren first (List.mem_cons_self ..)).lt)
          ((List.pairwise_cons.1 hpairwise).1 c hc)
    · rw [hinit] at hc hpairwise hchildren
      rw [← hstop]
      obtain hc | hc := List.mem_append.1 hc
      · exact Nat.le_trans
          ((List.pairwise_append.1 hpairwise).2.2 c hc last (List.mem_singleton_self last))
          (Nat.le_of_lt (hchildren last (List.mem_append_right _ (List.mem_singleton_self _))).lt)
      · rw [List.mem_singleton.1 hc]
  · rw [hnil] at hc
    cases hc

theorem preorder_within {n : Node} (h : n.IsRead text) :
    ∀ m ∈ n.preorder, m.IsRead text ∧ n.label.start ≤ m.label.start ∧
      m.label.stop ≤ n.label.stop := by
  intro m hm
  obtain rfl | ⟨c, hc, hm⟩ := mem_preorder_iff.1 hm
  · exact ⟨h, Nat.le_refl _, Nat.le_refl _⟩
  · have hc' := mem_children_of_mem_namedChildren hc
    obtain ⟨hstart, hstop⟩ := h.children_within c hc'
    obtain ⟨hr, hstart', hstop'⟩ := preorder_within (h.children c hc') m hm
    exact ⟨hr, Nat.le_trans hstart hstart', Nat.le_trans hstop' hstop⟩
termination_by n.size
decreasing_by exact size_lt_of_mem_children hc'

/-- If the methods in its first child begin behind the beginning of a node, so do all below it. -/
theorem start_lt_of_first {first : Node} {rest : List Node} (h : n.IsRead text)
    (he : n.children = first :: rest) (hstart : first.label.start = n.label.start)
    (hfirst : ∀ m ∈ first.preorder, m.isMethod = true → first.label.start < m.label.start) :
    ∀ c ∈ n.children, ∀ m ∈ c.preorder, m.isMethod = true → n.label.start < m.label.start := by
  intro c hc m hm hmethod
  have hpairwise := h.pairwise_children
  have hchildren := h.children
  rw [he] at hc hpairwise hchildren
  rw [← hstart]
  obtain rfl | hrest := List.mem_cons.1 hc
  · exact hfirst m hm hmethod
  · have hlt := (hchildren first (List.mem_cons_self ..)).lt
    have hle := (List.pairwise_cons.1 hpairwise).1 c hrest
    have hwithin := ((hchildren c hc).preorder_within m hm).2.1
    omega

theorem start_lt_of_begins (hk : BeginsWithin kinds)
    (hmethod : kinds (.construct .methodDeclaration) = false) {n : Node} (h : n.IsRead text)
    (hn : kinds n.kind = true) :
    ∀ m ∈ n.preorder, m.isMethod = true → n.label.start < m.label.start := by
  intro m hm hmm
  obtain rfl | ⟨c, hc, hm⟩ := mem_preorder_iff.1 hm
  · have he : m.kind = .construct .methodDeclaration := of_decide_eq_true hmm
    rw [he, hmethod] at hn
    cases hn
  · have hc' := mem_children_of_mem_namedChildren hc
    obtain ⟨p, q, hp, hr⟩ := id h
    cases hkind : n.kind with
    | construct k =>
      obtain ⟨first, rest, -, he, hmem, hstart, -⟩ := first_of_read? hkind hr
      rw [hkind] at hn
      have hfirst : first ∈ n.children := he ▸ List.mem_cons_self ..
      exact h.start_lt_of_first he hstart
        (start_lt_of_begins hk hmethod (h.children first hfirst) (hk k hn _ hmem)) c hc' m hm hmm
    | token t => exact absurd hc' (h.not_mem_children_of_word (t := t) (by rw [hkind]; rfl))
    | typeIdentifier =>
      exact absurd hc' (h.not_mem_children_of_word (t := .identifier) (by rw [hkind]; rfl))
    | error => exact absurd (hr.symm.trans (read?_error hkind)) (Option.some_ne_none q)
termination_by n.size
decreasing_by exact size_lt_of_mem_children hfirst

theorem stop_lt_of_last {front : List Node} {last : Node} (h : n.IsRead text)
    (he : n.Ends front last)
    (hlast : ∀ m ∈ last.preorder, m.isMethod = true → m.label.stop < last.label.stop) :
    ∀ c ∈ n.children, ∀ m ∈ c.preorder, m.isMethod = true → m.label.stop < n.label.stop := by
  intro c hc m hm hmethod
  have hpairwise := h.pairwise_children
  have hchildren := h.children
  obtain ⟨init, hinit⟩ := List.getLast?_eq_some_iff.1 he.getLast?
  rw [hinit] at hc hpairwise hchildren
  rw [← he.stop]
  obtain hfront | hc' := List.mem_append.1 hc
  · have hmem : last ∈ init ++ [last] := List.mem_append_right _ (List.mem_singleton_self last)
    have hlt := (hchildren last hmem).lt
    have hle := (List.pairwise_append.1 hpairwise).2.2 c hfront last (List.mem_singleton_self last)
    have hwithin := ((hchildren c hc).preorder_within m hm).2.2
    omega
  · obtain rfl := List.mem_singleton.1 hc'
    exact hlast m hm hmethod

theorem not_method_of_word {t : Token} (h : n.IsRead text) (ht : n.kind.word? = some t) :
    ∀ m ∈ n.preorder, m.isMethod = true → m.label.stop < n.label.stop := by
  intro m hm hmethod
  obtain rfl | ⟨c, hc, -⟩ := mem_preorder_iff.1 hm
  · rw [show m.kind = .construct .methodDeclaration from of_decide_eq_true hmethod] at ht
    cases ht
  · exact absurd (mem_children_of_mem_namedChildren hc) (h.not_mem_children_of_word ht)

theorem last_isRead {front : List Node} {last : Node} (h : n.IsRead text)
    (he : n.Ends front last) : last.IsRead text :=
  h.children last (List.mem_of_getLast? he.getLast?)

theorem stop_lt_of_block (h : n.IsRead text) (hk : n.kind = .construct .block) :
    ∀ m ∈ n.preorder, m.isMethod = true → m.label.stop < n.label.stop := by
  intro m hm hmethod
  obtain ⟨front, last, he, hlast⟩ := h.block_ends hk
  obtain rfl | ⟨c, hc, hm⟩ := mem_preorder_iff.1 hm
  · have hmk : m.kind = .construct .methodDeclaration := of_decide_eq_true hmethod
    cases hmk.symm.trans hk
  · exact h.stop_lt_of_last he ((h.last_isRead he).not_method_of_word (word?_of_part hlast)) c
      (mem_children_of_mem_namedChildren hc) m hm hmethod

theorem contains (h : n.IsRead text) (hn : n.isMethod = true) (hc : c ∈ n.children)
    (hm : m ∈ c.preorder) (hmethod : m.isMethod = true) : n.span.Contains m.span := by
  obtain ⟨p, q, hp, hr⟩ := id h
  constructor
  · obtain ⟨first, rest, -, he, hmem, hstart, -⟩ := first_of_read? (of_decide_eq_true hn) hr
    have hfirst : first ∈ n.children := he ▸ List.mem_cons_self ..
    exact h.start_lt_of_first he hstart (start_lt_of_begins beginsWithin_opensMethod rfl
      (h.children first hfirst) (opensMethod_of_mem_firsts _ hmem)) c hc m hm hmethod
  · obtain ⟨front, last, he, hlast, -⟩ := h.method_ends hn
    refine h.stop_lt_of_last he ?_ c hc m hm hmethod
    obtain hlast | hlast := hlast
    · exact (h.last_isRead he).stop_lt_of_block (congrArg Part.kind hlast)
    · exact (h.last_isRead he).not_method_of_word (word?_of_part hlast)

end IsRead

def MethodFollows (n m : Node) : Prop :=
  n.isMethod = true → m.isMethod = true → n.span.Follows m.span

theorem pairwise_flatMap_preorder (text : String) {ns : List Node}
    (hr : ∀ n ∈ ns, n.IsRead text)
    (hns : ns.Pairwise fun a b => a.label.stop ≤ b.label.start)
    (h : ∀ n ∈ ns, n.preorder.Pairwise MethodFollows) :
    (ns.flatMap preorder).Pairwise MethodFollows := by
  refine List.pairwise_flatMap.2 ⟨h, hns.imp_of_mem fun {a b} ha hb hle => ?_⟩
  intro m hm m' hm' _ _
  have hstop := ((hr a ha).preorder_within m hm).2.2
  have hstart := ((hr b hb).preorder_within m' hm').2.1
  exact .inr (Nat.le_trans hstop (Nat.le_trans hle hstart))

theorem IsRead.pairwise_preorder {n : Node} (h : n.IsRead text) :
    n.preorder.Pairwise MethodFollows := by
  rw [preorder_eq_cons, List.pairwise_cons]
  constructor
  · intro m hm hn hmethod
    obtain ⟨c, hc, hm⟩ := List.mem_flatMap.1 hm
    exact .inl (h.contains hn (mem_children_of_mem_namedChildren hc) hm hmethod)
  · refine pairwise_flatMap_preorder text (fun c hc => ?_)
      (h.pairwise_children.filter _) (fun c hc => ?_)
    · exact h.children c (mem_children_of_mem_namedChildren hc)
    · have hc' := mem_children_of_mem_namedChildren hc
      exact pairwise_preorder (h.children c hc')
termination_by n.size
decreasing_by exact size_lt_of_mem_children hc'

theorem pairwise_methods {root : Node} (h : root.derives text = true) :
    (root.preorder.filter isMethod).Pairwise fun n m => n.span.Follows m.span := by
  obtain ⟨hroot, hchildren⟩ := isRead_of_derives h
  have hpairwise : root.children.Pairwise fun a b => a.label.stop ≤ b.label.start := by
    simp only [derives, Bool.and_eq_true, Option.any_eq_true] at h
    obtain ⟨-, q, hq, -⟩ := h
    exact (row_of_readAll? (Place.in_ofText text) hq).pairwise
  have hall : root.preorder.Pairwise MethodFollows := by
    rw [preorder_eq_cons, List.pairwise_cons]
    refine ⟨fun m _ hm _ => absurd (hroot.symm.trans hm) Bool.false_ne_true, ?_⟩
    refine pairwise_flatMap_preorder text (fun c hc => ?_) (hpairwise.filter _) (fun c hc => ?_)
    · exact hchildren c (mem_children_of_mem_namedChildren hc)
    · exact (hchildren c (mem_children_of_mem_namedChildren hc)).pairwise_preorder
  refine List.pairwise_filter.2 (hall.imp fun hf hn hm => hf hn hm)

def methodSpans (root : Node) : List Span := (root.preorder.filter isMethod).map span

end Node

/-- The records of an accepted text are, in their order, the texts of the spans of its methods, and
these are nested like the methods themselves. -/
theorem methods_nested (find : String → Option Node) {text : String} {root : Node}
    (h : parseBy find text = .ok root) :
    List.Forall₂ (fun s r => Stands text r.method s.start s.stop) root.methodSpans
        (root.methods text) ∧
      Nested root.methodSpans := by
  have hd := derives_of_parseBy h
  have hyields := forall₂_yields hd
  obtain ⟨hread, -⟩ := (List.forall₂_and_left _ _).1 hyields
  refine ⟨List.forall₂_map_left_iff.2 (hyields.imp fun n r hr => hr.2.2.method), ?_⟩
  exact nested_of_follows (List.forall_mem_map.2 fun n hn => (hread n hn).lt)
    (List.pairwise_map.2 (Node.pairwise_methods hd))

def localClass : Node :=
  .plain (.construct .program) none 0 28 [
    .plain (.construct .methodDeclaration) none 0 28 [
      .plain (.token .voidWord) (some .type) 0 4 [],
      .plain (.token .identifier) (some .name) 5 6 [],
      .plain (.construct .formalParameters) (some .parameters) 6 8 [
        .plain (.token .lparen) none 6 7 [],
        .plain (.token .rparen) none 7 8 []],
      .plain (.construct .block) (some .body) 8 28 [
        .plain (.token .lbrace) none 8 9 [],
        .plain (.construct .classDeclaration) none 9 27 [
          .plain (.token .classWord) none 9 14 [],
          .plain (.token .identifier) (some .name) 15 16 [],
          .plain (.construct .classBody) (some .body) 16 27 [
            .plain (.token .lbrace) none 16 17 [],
            .plain (.construct .methodDeclaration) none 17 26 [
              .plain (.token .voidWord) (some .type) 17 21 [],
              .plain (.token .identifier) (some .name) 22 23 [],
              .plain (.construct .formalParameters) (some .parameters) 23 25 [
                .plain (.token .lparen) none 23 24 [],
                .plain (.token .rparen) none 24 25 []],
              .plain (.token .semicolon) none 25 26 []],
            .plain (.token .rbrace) none 26 27 []]],
        .plain (.token .rbrace) none 27 28 []]]]

def localClassText : String := "void a(){class A{void b();}}"

theorem methods_nested_localClass :
    parseBy (fun _ => some localClass) localClassText = .ok localClass ∧
      localClass.methodSpans = [⟨0, 28⟩, ⟨17, 26⟩] ∧
      List.Forall₂ (fun s r => Stands localClassText r.method s.start s.stop)
        localClass.methodSpans (localClass.methods localClassText) ∧
      Nested localClass.methodSpans := by
  have h : parseBy (fun _ => some localClass) localClassText = .ok localClass :=
    parseBy_of_derives rfl rfl (by decide +kernel)
  exact ⟨h, by decide, methods_nested _ h⟩

end MethodExtraction.Java
