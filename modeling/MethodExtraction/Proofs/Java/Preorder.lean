import Mathlib.Data.List.Basic
import MethodExtraction.Java.Method
import MethodExtraction.Proofs.Text.Slicing

namespace MethodExtraction.Java

open Text

namespace Node

mutual

def preorder : Node → List Node
  | mk l cs => mk l cs :: preorderAll cs

def preorderAll : List Node → List Node
  | [] => []
  | c :: cs => if c.label.named then c.preorder ++ preorderAll cs else preorderAll cs

end

def descendant? (n : Node) : List Nat → Option Node
  | [] => some n
  | i :: is => n.namedChildren[i]?.bind fun c => c.descendant? is

mutual

/-- The ways from a node to its named descendants, in the order of `preorder`. -/
def addresses : Node → List (List Nat)
  | mk _ cs => [] :: addressesFrom 0 cs

def addressesFrom (i : Nat) : List Node → List (List Nat)
  | [] => []
  | c :: cs =>
    if c.label.named then c.addresses.map (i :: ·) ++ addressesFrom (i + 1) cs
    else addressesFrom i cs

end

def InText (text : String) (n : Node) : Prop :=
  IsBoundary text n.label.start ∧ IsBoundary text n.label.stop ∧ n.label.start ≤ n.label.stop

structure Shows (text : String) (n : Node) (r : MethodRecord) : Prop where
  name : ∃ m, n.child? .name = some m ∧ Stands text r.name m.label.start m.label.stop
  method : Stands text r.method n.label.start n.label.stop
  body : r.hasBody = (n.child? .body).isSome

theorem record?_eq_some_iff {text : String} {n : Node} {r : MethodRecord} :
    n.record? text = some r ↔ n.Shows text r := by
  obtain ⟨name, method, hasBody⟩ := r
  simp only [record?, Option.bind_eq_bind, Option.bind_eq_some_iff, Option.pure_def,
    Option.some.injEq, MethodRecord.mk.injEq, slice?_eq_some_iff]
  constructor
  · rintro ⟨m, hm, _, hn, _, ht, rfl, rfl, rfl⟩
    exact ⟨⟨m, hm, hn⟩, ht, rfl⟩
  · rintro ⟨⟨m, hm, hn⟩, ht, hb⟩
    exact ⟨m, hm, name, hn, method, ht, rfl, rfl, hb.symm⟩

theorem record?_eq_none_iff {text : String} {n : Node} :
    n.record? text = none ↔ ∀ m, n.child? .name = some m → ¬ (m.InText text ∧ n.InText text) := by
  simp only [record?, Option.bind_eq_bind, Option.bind_eq_none_iff, Option.pure_def, reduceCtorEq]
  constructor
  · rintro h m hm ⟨hn, ht⟩
    cases hs : slice? text m.label.start m.label.stop with
    | none => exact slice?_eq_none_iff.1 hs hn
    | some name =>
      cases hs' : slice? text n.label.start n.label.stop with
      | none => exact slice?_eq_none_iff.1 hs' ht
      | some method => exact h m hm name hs method hs'
  · intro h m hm name hs method hs'
    refine h m hm ⟨?_, ?_⟩
    · by_contra hn
      simp [slice?_eq_none_iff.2 hn] at hs
    · by_contra ht
      simp [slice?_eq_none_iff.2 ht] at hs'

theorem preorderAll_eq_flatMap (cs : List Node) :
    preorderAll cs = (cs.filter fun c => c.label.named).flatMap preorder := by
  induction cs with
  | nil => rfl
  | cons c cs ih =>
    by_cases h : c.label.named = true
    · rw [List.filter_cons, if_pos h, List.flatMap_cons, preorderAll, if_pos h, ih]
    · rw [List.filter_cons, if_neg h, preorderAll, if_neg h, ih]

theorem preorder_eq_cons (n : Node) : n.preorder = n :: n.namedChildren.flatMap preorder := by
  cases n with
  | mk l cs => rw [preorder, preorderAll_eq_flatMap]; rfl

theorem flatMap_preorder_cons (n : Node) (rest : List Node) :
    (n :: rest).flatMap preorder = n :: (n.namedChildren ++ rest).flatMap preorder := by
  rw [List.flatMap_cons, preorder_eq_cons, List.cons_append, List.flatMap_append]

mutual

theorem map_descendant?_addresses (n : Node) :
    n.addresses.map n.descendant? = n.preorder.map some := by
  cases n with
  | mk l cs =>
    have h := map_descendant?_addressesFrom (mk l cs) [] cs rfl
    rw [addresses, preorder, List.map_cons, List.map_cons, ← h]
    rfl

/-- The addresses that begin in a part of the children, if `before` are the named ones before it. -/
theorem map_descendant?_addressesFrom (n : Node) (before : List Node) (cs : List Node)
    (h : n.namedChildren = before ++ cs.filter fun c => c.label.named) :
    (addressesFrom before.length cs).map n.descendant? = (preorderAll cs).map some := by
  cases cs with
  | nil => rfl
  | cons c cs =>
    by_cases hc : c.label.named = true
    · have hn : n.namedChildren = (before ++ [c]) ++ cs.filter fun c => c.label.named := by
        rw [h, List.filter_cons, if_pos hc, List.append_assoc, List.singleton_append]
      have ih := map_descendant?_addressesFrom n (before ++ [c]) cs hn
      have hd : n.descendant? ∘ (before.length :: ·) = c.descendant? := by
        funext a
        simp [descendant?, hn]
      rw [List.length_append, List.length_singleton] at ih
      rw [addressesFrom, preorderAll, if_pos hc, if_pos hc, List.map_append, List.map_append, ih,
        List.map_map, hd, map_descendant?_addresses c]
    · have hn : n.namedChildren = before ++ cs.filter fun c => c.label.named := by
        rw [h, List.filter_cons, if_neg hc]
      rw [addressesFrom, preorderAll, if_neg hc, if_neg hc]
      exact map_descendant?_addressesFrom n before cs hn

end

theorem mem_addressesFrom {i : Nat} {cs : List Node} {a : List Nat} :
    a ∈ addressesFrom i cs ↔ ∃ k c rest, a = (i + k) :: rest ∧
      (cs.filter fun c => c.label.named)[k]? = some c ∧ rest ∈ c.addresses := by
  induction cs generalizing i with
  | nil => simp [addressesFrom]
  | cons c cs ih =>
    by_cases hc : c.label.named = true
    · rw [addressesFrom, if_pos hc, List.mem_append, List.mem_map, ih, List.filter_cons, if_pos hc]
      constructor
      · rintro (⟨rest, hr, rfl⟩ | ⟨k, d, rest, rfl, hd, hr⟩)
        · exact ⟨0, c, rest, rfl, rfl, hr⟩
        · exact ⟨k + 1, d, rest, by rw [Nat.add_right_comm, Nat.add_assoc], hd, hr⟩
      · rintro ⟨k, d, rest, rfl, hd, hr⟩
        cases k with
        | zero =>
          cases hd
          exact .inl ⟨rest, hr, rfl⟩
        | succ k => exact .inr ⟨k, d, rest, by rw [Nat.add_right_comm, Nat.add_assoc], hd, hr⟩
    · rw [addressesFrom, if_neg hc, ih, List.filter_cons, if_neg hc]

theorem mem_addresses {n : Node} {a : List Nat} :
    a ∈ n.addresses ↔ (n.descendant? a).isSome = true := by
  induction a generalizing n with
  | nil => cases n; simp [addresses, descendant?]
  | cons k a ih =>
    cases n with
    | mk l cs =>
      rw [addresses, List.mem_cons, mem_addressesFrom, descendant?, Option.isSome_bind]
      simp only [reduceCtorEq, false_or, Nat.zero_add, List.cons.injEq, namedChildren, children]
      constructor
      · rintro ⟨_, c, _, ⟨rfl, rfl⟩, hc, hr⟩
        rw [hc]
        exact ih.1 hr
      · intro h
        obtain ⟨c, hc, hs⟩ := (Option.any_eq_true ..).1 h
        exact ⟨k, c, a, ⟨rfl, rfl⟩, hc, ih.2 hs⟩

mutual

theorem pairwise_addresses (n : Node) : n.addresses.Pairwise (· < ·) := by
  cases n with
  | mk l cs =>
    rw [addresses, List.pairwise_cons]
    refine ⟨?_, pairwise_addressesFrom 0 cs⟩
    intro a ha
    obtain ⟨k, c, rest, rfl, _, _⟩ := mem_addressesFrom.1 ha
    exact List.nil_lt_cons ..

theorem pairwise_addressesFrom (i : Nat) (cs : List Node) :
    (addressesFrom i cs).Pairwise (· < ·) := by
  cases cs with
  | nil => exact List.Pairwise.nil
  | cons c cs =>
    by_cases hc : c.label.named = true
    · rw [addressesFrom, if_pos hc, List.pairwise_append, List.pairwise_map]
      refine ⟨?_, pairwise_addressesFrom (i + 1) cs, ?_⟩
      · exact (pairwise_addresses c).imp fun h => List.cons_lt_cons_iff.2 (.inr ⟨rfl, h⟩)
      · intro a ha b hb
        obtain ⟨rest, _, rfl⟩ := List.mem_map.1 ha
        obtain ⟨k, d, rest', rfl, _, _⟩ := mem_addressesFrom.1 hb
        exact List.cons_lt_cons_iff.2 (.inl (by omega))
    · rw [addressesFrom, if_neg hc]
      exact pairwise_addressesFrom i cs

end

end Node

/-- The loop of the cursor: the nodes that it takes off its list, one after the other, each
replaced by its named children. -/
inductive Visits : List Node → List Node → List Node → Prop where
  | refl (ns : List Node) : Visits ns [] ns
  | visit {n : Node} {rest vs ns : List Node} (h : Visits (n.namedChildren ++ rest) vs ns) :
      Visits (n :: rest) (n :: vs) ns

/-- Calls of `next` until there is no record left: the nodes visited by all of them, and the records
that they give. -/
inductive Drains : MethodCursor → List Node → List MethodRecord → Prop where
  | stop {c : MethodCursor} {vs : List Node} (h : c.next = none) (hv : Visits c.pending vs []) :
      Drains c vs []
  | more {c c' : MethodCursor} {vs ws : List Node} {r : MethodRecord} {rs : List MethodRecord}
      (h : c.next = some (r, c')) (hv : Visits c.pending vs c'.pending) (hd : Drains c' ws rs) :
      Drains c (vs ++ ws) (r :: rs)

namespace Visits

theorem flatMap_preorder {ns vs ns' : List Node} (h : Visits ns vs ns') :
    ns.flatMap Node.preorder = vs ++ ns'.flatMap Node.preorder := by
  induction h with
  | refl ns => rfl
  | visit h ih => rw [Node.flatMap_preorder_cons, ih, List.cons_append]

end Visits

namespace MethodCursor

def recordAt? (text : String) (n : Node) : Option MethodRecord :=
  if n.isMethod then n.record? text else none

theorem visits_of_next?_eq_none {text : String} {ns : List Node} (h : next? text ns = none) :
    ∃ vs, Visits ns vs [] ∧ vs.filterMap (recordAt? text) = [] := by
  fun_induction next? text ns with
  | case1 => exact ⟨[], .refl [], rfl⟩
  | case2 n rest pending r hr => cases h
  | case3 n rest pending hr ih =>
    obtain ⟨vs, hv, he⟩ := ih h
    refine ⟨n :: vs, .visit hv, ?_⟩
    rw [List.filterMap_cons_none (by exact hr), he]

theorem visits_of_next?_eq_some {text : String} {ns ns' : List Node} {r : MethodRecord}
    (h : next? text ns = some (r, ns')) :
    ∃ vs, Visits ns vs ns' ∧ vs.filterMap (recordAt? text) = [r] := by
  fun_induction next? text ns with
  | case1 => cases h
  | case2 n rest pending r' hr =>
    simp only [Option.some.injEq, Prod.mk.injEq] at h
    obtain ⟨rfl, rfl⟩ := h
    refine ⟨[n], .visit (.refl _), ?_⟩
    rw [List.filterMap_cons_some (by exact hr), List.filterMap_nil]
  | case3 n rest pending hr ih =>
    obtain ⟨vs, hv, he⟩ := ih h
    refine ⟨n :: vs, .visit hv, ?_⟩
    rw [List.filterMap_cons_none (by exact hr), he]

theorem pending_next {c c' : MethodCursor} {r : MethodRecord} (h : c.next = some (r, c')) :
    c'.text = c.text ∧ next? c.text c.pending = some (r, c'.pending) := by
  obtain ⟨⟨r', ns⟩, hn, he⟩ := Option.map_eq_some_iff.1 h
  cases he
  exact ⟨rfl, hn⟩

/-- From any state between two calls, what is left of the enumeration is visited, and its records are
given. -/
theorem drains (c : MethodCursor) :
    Drains c (c.pending.flatMap Node.preorder) c.toList ∧
      c.toList = (c.pending.flatMap Node.preorder).filterMap (recordAt? c.text) := by
  fun_induction toList c with
  | case1 c h =>
    obtain ⟨vs, hv, he⟩ := visits_of_next?_eq_none (Option.map_eq_none_iff.1 h)
    have hp := hv.flatMap_preorder
    rw [List.flatMap_nil, List.append_nil] at hp
    rw [hp]
    exact ⟨.stop h hv, he.symm⟩
  | case2 c r c' h ih =>
    obtain ⟨ht, hs⟩ := pending_next h
    obtain ⟨vs, hv, he⟩ := visits_of_next?_eq_some hs
    obtain ⟨hd, hl⟩ := ih
    rw [hv.flatMap_preorder]
    refine ⟨.more h hv hd, ?_⟩
    rw [List.filterMap_append, he, ← ht, ← hl, List.singleton_append]

end MethodCursor

/-- The methods of a tree over any text. Calling `next` ends; the nodes visited are the node and its
named descendants, each address once and in document order, whether or not a node gives a record; and
the records are those of the methods among them that have a name and lie within the text. -/
theorem methods_eq_filterMap_preorder (root : Node) (text : String) :
    Drains (.ofTree root text) root.preorder (root.methods text) ∧
      root.methods text =
        (root.preorder.filter Node.isMethod).filterMap (Node.record? text) ∧
      (root.addresses.map root.descendant? = root.preorder.map some ∧
        root.addresses.Pairwise (· < ·) ∧
        ∀ a, a ∈ root.addresses ↔ (root.descendant? a).isSome = true) ∧
      (∀ (n : Node) (r : MethodRecord), n.record? text = some r ↔ n.Shows text r) ∧
      ∀ n : Node, n.record? text = none ↔
        ∀ m, n.child? .name = some m → ¬ (m.InText text ∧ n.InText text) := by
  obtain ⟨hd, hl⟩ := (MethodCursor.ofTree root text).drains
  have hp : (MethodCursor.ofTree root text).pending.flatMap Node.preorder = root.preorder :=
    List.flatMap_singleton ..
  rw [hp] at hd hl
  refine ⟨hd, ?_, ⟨?_, ?_, ?_⟩, ?_, ?_⟩
  · rw [List.filterMap_filter]
    exact hl
  · exact root.map_descendant?_addresses
  · exact root.pairwise_addresses
  · exact fun a => Node.mem_addresses
  · exact fun n r => Node.record?_eq_some_iff
  · exact fun n => Node.record?_eq_none_iff

end MethodExtraction.Java
