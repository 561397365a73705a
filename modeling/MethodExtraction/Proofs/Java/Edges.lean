import MethodExtraction.Proofs.Java.Completeness

namespace MethodExtraction.Java

open Grammar Text

def Kind.word? : Kind → Option Token
  | token t => some t
  | typeIdentifier => some .identifier
  | construct _ | error => none

/-- What comes first in a node of one of these kinds is of one of them too. -/
def BeginsWithin (kinds : Kind → Bool) : Prop :=
  ∀ c, kinds (.construct c) = true → ∀ a ∈ c.shape.firsts, kinds a.kind = true

namespace Place

variable {p q : Place} {offset start stop : Nat} {word : List Char} {pattern : Pattern}

theorem goTo?_eq (h : p.goTo? offset = some (word, q)) :
    ∃ k, word = p.rest.take k ∧ q.rest = p.rest.drop k := by
  rw [goTo?] at h
  obtain ⟨-, h⟩ := Option.ite_none_right_eq_some.1 h
  obtain ⟨k, -, he⟩ := Option.map_eq_some_iff.1 h
  cases he
  exact ⟨k, rfl, rfl⟩

theorem exists_first_of_accepts (hn : pattern.nullable = false) (h : pattern.accepts word = true) :
    ∃ c rest, word = c :: rest ∧ ∃ s ∈ pattern.firsts, s.has c = true := by
  have hm := Regex.accepts_iff_matches.1 h
  cases word with
  | nil => exact absurd (Regex.nullable_iff.2 hm) (by rw [hn]; exact Bool.false_ne_true)
  | cons c rest => exact ⟨c, rest, rfl, hm.exists_first⟩

theorem first_of_token? {c : Char} {rest : List Char} (hp : p.rest = c :: rest)
    (hb : isBlank c = false) (hn : pattern.nullable = false)
    (h : p.token? start stop pattern = some q) : ∃ s ∈ pattern.firsts, s.has c = true := by
  simp only [token?, Option.bind_eq_bind, Option.bind_eq_some_iff, Prod.exists,
    Option.ite_none_right_eq_some, Bool.and_eq_true] at h
  obtain ⟨gap, p', hg, word, q', hw, ⟨hblank, ha⟩, -⟩ := h
  obtain ⟨k, rfl, hk⟩ := goTo?_eq hg
  obtain ⟨k', rfl, -⟩ := goTo?_eq hw
  obtain ⟨d, rest', hd, hs⟩ := exists_first_of_accepts hn ha
  rw [hp] at hblank hk
  cases k with
  | succ k =>
    rw [List.take_succ_cons, List.all_cons, hb, Bool.false_and] at hblank
    cases hblank
  | zero =>
    rw [hk] at hd
    cases k' with
    | zero => cases hd
    | succ k' =>
      obtain ⟨rfl, -⟩ := List.cons.inj hd
      exact hs

end Place

namespace Node

variable {text : String} {n : Node} {ns : List Node} {p q : Place} {kinds : Kind → Bool}

theorem read?_construct {c : Construct} (hk : n.kind = .construct c) (h : n.read? p = some q) :
    spans n.label n.children = true ∧ fit c n.children = true ∧
      readAll? n.children p = some q := by
  obtain ⟨l, ns⟩ := n
  have hk : l.kind = .construct c := hk
  rw [read?] at h
  obtain ⟨-, h⟩ := Option.ite_none_left_eq_some.1 h
  simp only [hk, Option.ite_none_right_eq_some, Bool.and_eq_true] at h
  exact ⟨h.1.1, h.1.2, h.2⟩

theorem read?_word {t : Token} (hk : n.kind.word? = some t) (h : n.read? p = some q) :
    n.children = [] ∧ p.token? n.label.start n.label.stop t.lexeme.pattern = some q := by
  obtain ⟨l, ns⟩ := n
  have hk : l.kind.word? = some t := hk
  rw [read?] at h
  obtain ⟨-, h⟩ := Option.ite_none_left_eq_some.1 h
  cases hl : l.kind with
  | token t' =>
    rw [hl] at hk
    cases hk
    simp only [hl, Option.ite_none_right_eq_some, List.isEmpty_iff] at h
    exact h
  | typeIdentifier =>
    rw [hl] at hk
    cases hk
    simp only [hl, Option.ite_none_right_eq_some, List.isEmpty_iff] at h
    exact h
  | construct c =>
    rw [hl] at hk
    cases hk
  | error =>
    rw [hl] at hk
    cases hk

theorem word?_of_part {t : Token} {field : Option Field} (h : n.part = ⟨.token t, field⟩) :
    n.kind.word? = some t := by
  rw [show n.kind = .token t from congrArg Part.kind h]
  rfl

theorem read?_error (hk : n.kind = .error) : n.read? p = none := by
  obtain ⟨l, ns⟩ := n
  have hk : l.isError = true := by
    rw [Label.isError, show l.kind = .error from hk]
    rfl
  rw [read?, hk]
  rfl

theorem first_mem_of_fit {c : Construct} {first : Node} {rest : List Node}
    (hf : fit c (first :: rest) = true) (hn : first.isComment = false) :
    first.part ∈ c.shape.firsts := by
  have hm := (fit_iff.1 hf).2
  rw [List.filter_cons_of_pos (by simp [hn])] at hm
  obtain ⟨a, ha, he⟩ := hm.exists_first
  rwa [← of_decide_eq_true he]

/-- A construct begins where its first child does, and that is one that may come first. -/
theorem first_of_read? {c : Construct} (hk : n.kind = .construct c) (h : n.read? p = some q) :
    ∃ first rest r, n.children = first :: rest ∧ first.part ∈ c.shape.firsts ∧
      first.label.start = n.label.start ∧ first.read? p = some r ∧ readAll? rest r = some q := by
  obtain ⟨hs, hf, hr⟩ := read?_construct hk h
  obtain ⟨first, last, hhead, -, hstart, -, hcomment, -⟩ := spans_iff.1 hs
  obtain ⟨rest, he⟩ := List.head?_eq_some_iff.1 hhead
  rw [he] at hf hr
  obtain ⟨r, hfirst, hrest⟩ := Option.bind_eq_some_iff.1 hr
  exact ⟨first, rest, r, he, first_mem_of_fit hf hcomment, hstart, hfirst, hrest⟩

theorem size_lt_of_children {first : Node} {rest : List Node} (h : n.children = first :: rest) :
    first.size < n.size := by
  have hlt := sizeAll_children_lt n
  rw [h, sizeAll] at hlt
  omega

theorem token_of_read? (hc : BeginsWithin kinds) (hp : p.In text) {n : Node} {q : Place}
    (h : n.read? p = some q) (hk : kinds n.kind = true) :
    ∃ k t stop r, kinds k = true ∧ k.word? = some t ∧
      p.token? n.label.start stop t.lexeme.pattern = some r ∧ stop ≤ n.label.stop := by
  have hword {t : Token} (ht : n.kind.word? = some t) :
      ∃ k t stop r, kinds k = true ∧ k.word? = some t ∧
        p.token? n.label.start stop t.lexeme.pattern = some r ∧ stop ≤ n.label.stop :=
    ⟨_, t, _, q, hk, ht, (read?_word ht h).2, Nat.le_refl _⟩
  cases hkind : n.kind with
  | token t => exact hword (t := t) (by rw [hkind]; rfl)
  | typeIdentifier => exact hword (t := .identifier) (by rw [hkind]; rfl)
  | error => exact absurd (h.symm.trans (read?_error hkind)) (Option.some_ne_none q)
  | construct c =>
    obtain ⟨first, rest, r, he, hmem, hstart, hr, hrest⟩ := first_of_read? hkind h
    rw [hkind] at hk
    have hlies := lies_of_read? hp hr
    have hle := (row_of_readAll? hlies.behind hrest).le
    have hstop : first.label.stop ≤ n.label.stop := by
      rw [hlies.stop_eq, (lies_of_read? hp h).stop_eq]
      exact hle
    obtain ⟨k, t, stop, r', hk', ht, htoken, hle'⟩ := token_of_read? hc hp hr (hc c hk _ hmem)
    rw [hstart] at htoken
    exact ⟨k, t, stop, r', hk', ht, htoken, Nat.le_trans hle' hstop⟩
termination_by n.size
decreasing_by exact size_lt_of_children he

theorem IsRead.first_char (hc : BeginsWithin kinds) (h : n.IsRead text) (hk : kinds n.kind = true)
    {word : String} {place : Nat} (hw : Stands text word n.label.start place)
    (hplace : n.label.stop ≤ place) :
    ∃ k t s c, kinds k = true ∧ k.word? = some t ∧ s ∈ t.lexeme.pattern.firsts ∧
      s.has c = true ∧ word.toList.head? = some c := by
  obtain ⟨p, q, hp, hr⟩ := h
  obtain ⟨k, t, stop, r, hk', ht, htoken, hle⟩ := token_of_read? hc hp hr hk
  obtain ⟨-, -, -, front, hfront, ha⟩ := hp.token? htoken
  obtain ⟨c, rest, rfl, s, hs, hhas⟩ := Place.exists_first_of_accepts t.nullable_pattern ha
  obtain ⟨behind, hb⟩ := hfront.isPrefix hw (Nat.le_trans hle hplace)
  rw [String.toList_ofList] at hb
  exact ⟨k, t, s, c, hk', ht, hs, hhas, by rw [← hb]; rfl⟩

structure Ends (n : Node) (front : List Node) (last : Node) : Prop where
  eq : n.children.filter (fun m => !m.isComment) = front ++ [last]
  getLast? : n.children.getLast? = some last
  stop : last.label.stop = n.label.stop

theorem ends_of_spans {front : List Node} {last : Node} (hs : spans n.label n.children = true)
    (he : n.children.filter (fun m => !m.isComment) = front ++ [last]) : n.Ends front last := by
  obtain ⟨-, final, -, hl, -, hstop, -, hcomment⟩ := spans_iff.1 hs
  obtain ⟨init, hi⟩ := List.getLast?_eq_some_iff.1 hl
  have hf := he
  rw [hi, List.filter_append, List.filter_cons_of_pos (by simp [hcomment]), List.filter_nil] at hf
  obtain ⟨-, hfinal⟩ := List.append_inj' hf rfl
  obtain rfl : final = last := List.singleton_inj.1 hfinal
  exact ⟨he, hl, hstop⟩

theorem ends_of_read? {c : Construct} {first middle close : Shape} (hk : n.kind = .construct c)
    (hs : c.shape = .seq first (.seq middle close)) (hl : close.isLetter = true)
    (h : n.read? p = some q) :
    ∃ front last, n.Ends front last ∧ last.part ∈ close.atoms ∧
      ∀ m ∈ front, m.part ∈ first.atoms ++ middle.atoms := by
  obtain ⟨hspans, hf, -⟩ := read?_construct hk h
  have hm := (fit_iff.1 hf).2
  rw [hs] at hm
  simp only [Regex.matches_seq_iff] at hm
  obtain ⟨as, _, he, has, bs, ls, rfl, hbs, hls⟩ := hm
  obtain ⟨last, rfl⟩ := hls.eq_singleton hl
  refine ⟨as ++ bs, last, ends_of_spans hspans (by rw [he, List.append_assoc]), ?_, ?_⟩
  · exact mem_atoms_of_matches hls last (List.mem_singleton_self last)
  · intro m hm
    obtain hm | hm := List.mem_append.1 hm
    · exact List.mem_append_left _ (mem_atoms_of_matches has m hm)
    · exact List.mem_append_right _ (mem_atoms_of_matches hbs m hm)

end Node

theorem Construct.shape_block :
    ∃ statements : Shape, shape .block =
      .seq (.atom ⟨.token .lbrace, none⟩) (.seq statements (.atom ⟨.token .rbrace, none⟩)) :=
  ⟨_, rfl⟩

/-- Only the last part of a method declaration can be its body. -/
theorem Construct.shape_methodDeclaration_last :
    ∃ modifiers header : Shape, shape .methodDeclaration =
      .seq modifiers (.seq header
        (.alt (.atom ⟨.construct .block, some .body⟩) (.atom ⟨.token .semicolon, none⟩))) ∧
      ∀ a ∈ modifiers.atoms ++ header.atoms, a.field ≠ some .body :=
  ⟨_, _, rfl, by decide⟩

namespace Node

variable {text : String} {n : Node}

theorem IsRead.block_ends (h : n.IsRead text) (hk : n.kind = .construct .block) :
    ∃ front last, n.Ends front last ∧ last.part = ⟨.token .rbrace, none⟩ := by
  obtain ⟨p, q, -, hr⟩ := h
  obtain ⟨statements, hs⟩ := Construct.shape_block
  obtain ⟨front, last, he, hl, -⟩ := ends_of_read? hk hs rfl hr
  exact ⟨front, last, he, List.mem_singleton.1 hl⟩

theorem IsRead.method_ends (h : n.IsRead text) (hm : n.isMethod = true) :
    ∃ front last, n.Ends front last ∧
      (last.part = ⟨.construct .block, some .body⟩ ∨ last.part = ⟨.token .semicolon, none⟩) ∧
      ∀ m ∈ front, m.label.field ≠ some .body := by
  obtain ⟨p, q, -, hr⟩ := h
  obtain ⟨modifiers, header, hs, hbody⟩ := Construct.shape_methodDeclaration_last
  obtain ⟨front, last, he, hl, hfront⟩ := ends_of_read? (of_decide_eq_true hm) hs rfl hr
  refine ⟨front, last, he, ?_, fun m hm => hbody m.part (hfront m hm)⟩
  obtain h | h := List.mem_cons.1 hl
  · exact .inl h
  · exact .inr (List.mem_singleton.1 h)

end Node

/-- The kinds of node with which a method declaration may begin. -/
def Kind.opensMethod : Kind → Bool
  | construct c =>
    c ∈ [.modifiers, .annotationMarker, .annotationCall, .typeParameters, .integralType,
      .floatingPointType, .scopedTypeIdentifier, .genericType, .arrayType]
  | token t =>
    t ∈ [.atSign, .publicWord, .protectedWord, .privateWord, .abstractWord, .staticWord, .finalWord,
      .strictfpWord, .defaultWord, .synchronizedWord, .nativeWord, .transientWord, .volatileWord,
      .sealedWord, .nonSealedWord, .lt, .voidWord, .byteWord, .shortWord, .intWord, .longWord,
      .charWord, .floatWord, .doubleWord, .booleanWord]
  | typeIdentifier => true
  | error => false

theorem Construct.mem_all (c : Construct) : c ∈ all := List.mem_of_getElem? c.all_getElem_number

theorem beginsWithin_opensMethod : BeginsWithin Kind.opensMethod := by
  have h : ∀ c ∈ Construct.all, Kind.opensMethod (.construct c) = true →
      ∀ a ∈ c.shape.firsts, a.kind.opensMethod = true := by decide +kernel
  exact fun c => h c c.mem_all

theorem opensMethod_of_mem_firsts :
    ∀ a ∈ (Construct.shape .methodDeclaration).firsts, a.kind.opensMethod = true := by decide

end MethodExtraction.Java
