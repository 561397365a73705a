import Mathlib.Data.String.Basic
import MethodExtraction.Proofs.Java.Shape
import MethodExtraction.Proofs.Text.Slicing

namespace MethodExtraction.Java

open Grammar Text

namespace Place

variable {text : String} {p q : Place} {offset start stop : Nat} {word : List Char}

def In (text : String) (p : Place) : Prop :=
  ∃ before, text.toList = before ++ p.rest ∧ String.utf8Len before = p.offset

theorem in_ofText (text : String) : (ofText text.toList).In text := by
  unfold ofText
  split
  next rest h => exact ⟨['\uFEFF'], h, rfl⟩
  next => exact ⟨[], rfl, rfl⟩

namespace In

theorem isBoundary (hp : p.In text) : IsBoundary text p.offset := by
  obtain ⟨before, ht, hb⟩ := hp
  refine ⟨.ofList before, .ofList p.rest, ?_, ?_⟩
  · rw [← String.ofList_append, ← ht, String.ofList_toList]
  · rw [String.utf8ByteSize_ofList, hb]

end In

theorem utf8Len_take_of_charsIn? {bytes count n : Nat} {cs : List Char}
    (h : charsIn? bytes cs count = some n) :
    ∃ k, n = count + k ∧ String.utf8Len (cs.take k) = bytes := by
  fun_induction charsIn? bytes cs count with
  | case1 count => exact ⟨0, (Option.some.inj h).symm, rfl⟩
  | case2 bytes count hb => cases h
  | case3 count c cs => exact ⟨0, (Option.some.inj h).symm, rfl⟩
  | case4 bytes count c cs hb hle ih =>
    obtain ⟨k, rfl, hk⟩ := ih h
    refine ⟨k + 1, by rw [Nat.add_assoc, Nat.add_comm 1], ?_⟩
    rw [List.take_succ_cons, String.utf8Len_cons, hk, Nat.sub_add_cancel hle]
  | case5 bytes count c cs hb hle => cases h

theorem In.goTo? (hp : p.In text) (h : p.goTo? offset = some (word, q)) :
    q.In text ∧ q.offset = offset ∧ Stands text (.ofList word) p.offset offset := by
  obtain ⟨before, ht, hb⟩ := hp
  rw [Place.goTo?] at h
  split at h
  next hle =>
    obtain ⟨n, hn, he⟩ := Option.map_eq_some_iff.1 h
    cases he
    obtain ⟨k, rfl, hk⟩ := utf8Len_take_of_charsIn? hn
    rw [Nat.zero_add]
    have hsplit : before ++ p.rest.take k ++ p.rest.drop k = text.toList := by
      rw [List.append_assoc, List.take_append_drop, ht]
    refine ⟨⟨before ++ p.rest.take k, hsplit.symm, ?_⟩, rfl, ?_, ?_⟩
    · rw [String.utf8Len_append, hb, hk, Nat.add_sub_cancel' hle]
    · refine ⟨.ofList before, .ofList (p.rest.drop k), ?_, ?_⟩
      · rw [← String.ofList_append, ← String.ofList_append, hsplit, String.ofList_toList]
      · rw [String.utf8ByteSize_ofList, hb]
    · rw [String.utf8ByteSize_ofList, hk, Nat.add_sub_cancel' hle]
  next => cases h

theorem In.token? {pattern : Pattern} (hp : p.In text)
    (h : p.token? start stop pattern = some q) :
    q.In text ∧ q.offset = stop ∧ p.offset ≤ start ∧
      ∃ word, Stands text (.ofList word) start stop ∧ pattern.accepts word = true := by
  simp only [Place.token?, Option.bind_eq_bind, Option.bind_eq_some_iff, Prod.exists,
    Option.ite_none_right_eq_some, Option.some.injEq, Bool.and_eq_true] at h
  obtain ⟨gap, p', hg, word, q', hw, ⟨-, ha⟩, rfl⟩ := h
  obtain ⟨hp', ho, hgap⟩ := hp.goTo? hg
  obtain ⟨hq, ho', hword⟩ := hp'.goTo? hw
  rw [ho] at hword
  exact ⟨hq, ho', hgap.le, word, hword, ha⟩

end Place

theorem Token.nullable_pattern (t : Token) : t.lexeme.pattern.nullable = false := by
  cases t <;> rfl

namespace Node

/-- A node that reaches from behind one place to another. -/
structure Lies (text : String) (p : Place) (n : Node) (q : Place) : Prop where
  before : p.offset ≤ n.label.start
  lt : n.label.start < n.label.stop
  boundary : IsBoundary text n.label.start
  stop_eq : n.label.stop = q.offset
  behind : q.In text

inductive Row (text : String) : Place → List Node → Place → Prop where
  | nil {p : Place} (hp : p.In text) : Row text p [] p
  | cons {p q r : Place} {n : Node} {ns : List Node} (hp : p.In text) (h : n.read? p = some q)
      (hn : n.Lies text p q) (hs : Row text q ns r) : Row text p (n :: ns) r

namespace Row

variable {text : String} {p q : Place} {ns : List Node}

theorem behind (h : Row text p ns q) : q.In text := by
  induction h with
  | nil hp => exact hp
  | cons _ _ _ _ ih => exact ih

theorem le (h : Row text p ns q) : p.offset ≤ q.offset := by
  induction h with
  | nil => exact Nat.le_refl _
  | cons _ _ hn _ ih =>
    rw [← hn.stop_eq] at ih
    exact Nat.le_trans hn.before (Nat.le_trans (Nat.le_of_lt hn.lt) ih)

theorem forall_mem (h : Row text p ns q) :
    ∀ n ∈ ns, ∃ p' q' : Place, p'.In text ∧ n.read? p' = some q' ∧ n.Lies text p' q' ∧
      p.offset ≤ p'.offset ∧ q'.offset ≤ q.offset := by
  induction h with
  | nil => exact List.forall_mem_nil _
  | @cons p q r n ns hp h hn hs ih =>
    refine List.forall_mem_cons.2 ⟨⟨p, q, hp, h, hn, Nat.le_refl _, hs.le⟩, fun m hm => ?_⟩
    obtain ⟨p', q', hp', h', hm', hle, hle'⟩ := ih m hm
    have hpq : p.offset ≤ q.offset := (Row.cons hp h hn (.nil hn.behind)).le
    exact ⟨p', q', hp', h', hm', Nat.le_trans hpq hle, hle'⟩

theorem pairwise (h : Row text p ns q) :
    ns.Pairwise fun a b => a.label.stop ≤ b.label.start := by
  induction h with
  | nil => exact List.Pairwise.nil
  | cons hp h hn hs ih =>
    refine List.pairwise_cons.2 ⟨fun m hm => ?_, ih⟩
    obtain ⟨p', q', _, _, hm', hle, _⟩ := hs.forall_mem m hm
    rw [hn.stop_eq]
    exact Nat.le_trans hle hm'.before

theorem stop_getLast? (h : Row text p ns q) : ∀ n ∈ ns.getLast?, n.label.stop = q.offset := by
  induction h with
  | nil => nofun
  | @cons p q r n ns hp h hn hs ih =>
    cases ns with
    | nil =>
      cases hs
      rintro _ ⟨⟩
      exact hn.stop_eq
    | cons m ns =>
      rw [List.getLast?_cons_cons]
      exact ih

end Row

/-- What it takes to read a node: it is a construct whose children can be read and have its shape,
or a token without children. -/
theorem read?_cases {n : Node} {p q : Place} (h : n.read? p = some q) :
    n.label.named = n.kind.isNamed ∧
      ((∃ c, n.kind = .construct c ∧ spans n.label n.children = true ∧
          fit c n.children = true ∧ readAll? n.children p = some q) ∨
        (n.children = [] ∧ n.isMethod = false ∧
          ∃ t : Token, p.token? n.label.start n.label.stop t.lexeme.pattern = some q)) := by
  obtain ⟨l, ns⟩ := n
  rw [read?] at h
  split at h
  next => cases h
  next hl =>
    rw [Bool.or_eq_true, not_or, bne_iff_ne, ne_eq, not_not] at hl
    refine ⟨hl.2, ?_⟩
    split at h
    next c hk =>
      obtain ⟨hb, hr⟩ := Option.ite_none_right_eq_some.1 h
      obtain ⟨hs, hf⟩ := Bool.and_eq_true_iff.1 hb
      exact .inl ⟨c, hk, hs, hf, hr⟩
    next t hk =>
      obtain ⟨hb, ht⟩ := Option.ite_none_right_eq_some.1 h
      exact .inr ⟨List.isEmpty_iff.1 hb, by simp [isMethod, kind, label, hk], t, ht⟩
    next hk =>
      obtain ⟨hb, ht⟩ := Option.ite_none_right_eq_some.1 h
      exact .inr ⟨List.isEmpty_iff.1 hb, by simp [isMethod, kind, label, hk], .identifier, ht⟩
    next => cases h

mutual

theorem lies_of_read? {text : String} {p q : Place} {n : Node} (hp : p.In text)
    (h : n.read? p = some q) : n.Lies text p q := by
  obtain ⟨-, ⟨c, -, hs, -, hr⟩ | ⟨-, -, t, ht⟩⟩ := read?_cases h
  · obtain ⟨first, last, hf, hl, hstart, hstop, -⟩ := spans_iff.1 hs
    have hrow : Row text p n.children q := by
      cases n with
      | mk l ns => exact row_of_readAll? hp hr
    obtain ⟨p', q', -, -, hn, hle, hle'⟩ := hrow.forall_mem first (List.mem_of_head? hf)
    have hlast := hrow.stop_getLast? last hl
    have hfirst := hn.stop_eq
    have hlt := hn.lt
    refine ⟨hstart ▸ Nat.le_trans hle hn.before, ?_, hstart ▸ hn.boundary, ?_, hrow.behind⟩
    · omega
    · rw [← hstop, hlast]
  · obtain ⟨hq, hstop, hle, word, hword, ha⟩ := hp.token? ht
    refine ⟨hle, Nat.lt_of_le_of_ne hword.le fun he => ?_, hword.isBoundary_start, hstop.symm, hq⟩
    have hsize : (String.ofList word).utf8ByteSize = 0 := by
      have hlength := hword.length
      omega
    have hnil : word = [] := by simpa using hsize
    rw [hnil] at ha
    exact Bool.false_ne_true (t.nullable_pattern.symm.trans ha)

theorem row_of_readAll? {text : String} {p q : Place} {ns : List Node} (hp : p.In text)
    (h : readAll? ns p = some q) : Row text p ns q := by
  cases ns with
  | nil =>
    cases h
    exact .nil hp
  | cons n ns =>
    obtain ⟨r, hr, hs⟩ := Option.bind_eq_some_iff.1 h
    have hn := lies_of_read? hp hr
    exact .cons hp hr hn (row_of_readAll? hn.behind hs)

end

end Node

end MethodExtraction.Java
