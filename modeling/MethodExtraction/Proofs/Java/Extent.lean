import MethodExtraction.Proofs.Java.Nesting
import MethodExtraction.Proofs.Text.Spaces

namespace MethodExtraction

namespace Grammar

theorem CharSet.eq_of_has_char {c d : Char} (h : (CharSet.char c).has d = true) : d = c := by
  simp only [has, char, List.any_cons, List.any_nil, Bool.or_false, inRange, Bool.and_eq_true,
    bne_iff_ne, ne_eq, Bool.not_eq_false, decide_eq_true_eq] at h
  exact Char.le_antisymm h.2.2 h.2.1

theorem Pattern.eq_of_accepts_char {c : Char} {w : List Char}
    (h : Pattern.accepts (.atom (CharSet.char c)) w = true) : w = [c] := by
  obtain ⟨d, rfl, hd⟩ := Regex.matches_atom_iff.1 (Regex.accepts_iff_matches.1 h)
  rw [CharSet.eq_of_has_char hd]

end Grammar

namespace Java

open Grammar Text

/-- No token with which a method may begin begins with a slash or with white space. -/
theorem not_has_of_opensMethod {k : Kind} {t : Token} {s : CharSet} (hk : k.opensMethod = true)
    (ht : k.word? = some t) (hs : s ∈ t.lexeme.pattern.firsts) :
    s.has '/' = false ∧ ∀ n ∈ spaceCodes, s.has (Char.ofNat n) = false := by
  have hall : ∀ t ∈ Token.all, Kind.opensMethod (.token t) = true ∨ t = .identifier →
      ∀ s ∈ t.lexeme.pattern.firsts,
        s.has '/' = false ∧ ∀ n ∈ spaceCodes, s.has (Char.ofNat n) = false := by decide +kernel
  refine hall t (List.mem_of_getElem? t.all_getElem_number) ?_ s hs
  cases k with
  | token t' =>
    cases ht
    exact .inl hk
  | typeIdentifier =>
    cases ht
    exact .inr rfl
  | construct c => cases ht
  | error => cases ht

theorem head?_of_isComment {t : Token} {word : List Char} (ht : t.isComment = true)
    (h : t.lexeme.pattern.accepts word = true) : word.head? = some '/' := by
  have hfirsts : t.lexeme.pattern.firsts = [CharSet.char '/'] := by
    rw [Token.isComment, Bool.or_eq_true, decide_eq_true_eq, decide_eq_true_eq] at ht
    obtain rfl | rfl := ht
    · rfl
    · rfl
  obtain ⟨c, rest, rfl, s, hs, hc⟩ := Place.exists_first_of_accepts t.nullable_pattern h
  rw [hfirsts, List.mem_singleton] at hs
  rw [hs] at hc
  rw [List.head?_cons, CharSet.eq_of_has_char hc]

namespace Node.IsRead

variable {text word : String} {n : Node} {place : Nat}

theorem method_first_char (h : n.IsRead text) (hm : n.isMethod = true)
    (hw : Stands text word n.label.start n.label.stop) :
    ∃ c, word.toList.head? = some c ∧ isSpace c = false ∧ c ≠ '/' := by
  obtain ⟨p, q, hp, hr⟩ := id h
  obtain ⟨first, rest, -, he, hmem, hstart, -⟩ := first_of_read? (of_decide_eq_true hm) hr
  have hfirst : first ∈ n.children := he ▸ List.mem_cons_self ..
  rw [← hstart] at hw
  obtain ⟨k, t, s, c, hk, ht, hs, hc, hhead⟩ :=
    (h.children first hfirst).first_char beginsWithin_opensMethod
      (opensMethod_of_mem_firsts _ hmem) hw (h.children_within first hfirst).2
  obtain ⟨hslash, hspace⟩ := not_has_of_opensMethod hk ht hs
  refine ⟨c, hhead, Bool.eq_false_iff.2 fun h => ?_, ?_⟩
  · obtain ⟨code, hcode, rfl⟩ := exists_code_of_isSpace h
    exact Bool.false_ne_true ((hspace code hcode).symm.trans hc)
  · rintro rfl
    exact Bool.false_ne_true (hslash.symm.trans hc)

theorem last_char {t : Token} {c : Char} (h : n.IsRead text) (ht : n.kind.word? = some t)
    (hc : t.lexeme.pattern = .atom (CharSet.char c)) (hw : Stands text word place n.label.stop)
    (hle : place ≤ n.label.start) : word.toList.getLast? = some c := by
  obtain ⟨p, q, hp, hr⟩ := h
  obtain ⟨-, -, -, token, htoken, ha⟩ := hp.token? (read?_word ht hr).2
  rw [hc] at ha
  obtain ⟨front, hfront⟩ := htoken.isSuffix hw hle
  rw [← hfront, String.toList_ofList, Pattern.eq_of_accepts_char ha, List.getLast?_concat]

theorem last_within {front : List Node} {last : Node} (h : n.IsRead text)
    (he : n.Ends front last) : n.label.start ≤ last.label.start :=
  (h.children_within last (List.mem_of_getLast? he.getLast?)).1

theorem block_last_char (h : n.IsRead text) (hk : n.kind = .construct .block)
    (hw : Stands text word place n.label.stop) (hle : place ≤ n.label.start) :
    word.toList.getLast? = some '\x7d' := by
  obtain ⟨front, last, he, hlast⟩ := h.block_ends hk
  rw [← he.stop] at hw
  exact (h.last_isRead he).last_char (word?_of_part hlast) rfl hw
    (Nat.le_trans hle (h.last_within he))

theorem method_last_char (h : n.IsRead text) (hm : n.isMethod = true)
    (hw : Stands text word n.label.start n.label.stop) :
    ((n.child? .body).isSome = true ∧ word.toList.getLast? = some '\x7d') ∨
      ((n.child? .body).isSome = false ∧ word.toList.getLast? = some ';') := by
  obtain ⟨front, last, he, hlast, hfront⟩ := h.method_ends hm
  have hbody : n.child? .body = if last.label.fills .body then some last else none := by
    obtain ⟨p, q, hp, hr⟩ := id h
    obtain ⟨-, hf, -⟩ := read?_construct (of_decide_eq_true hm) hr
    have hnone : front.find? (fun m => m.label.fills .body) = none := by
      rw [List.find?_eq_none]
      intro m hm
      rw [Label.fills, decide_eq_true_eq]
      exact hfront m hm
    rw [child?_eq_find?_filter hf, he.eq, List.find?_append, hnone, Option.none_or,
      List.find?_singleton]
  have hread := h.last_isRead he
  have hle := h.last_within he
  rw [← he.stop] at hw
  obtain hlast | hlast := hlast
  · have hfills : last.label.fills .body = true := decide_eq_true (congrArg Part.field hlast)
    rw [hbody, if_pos hfills]
    exact .inl ⟨rfl, hread.block_last_char (congrArg Part.kind hlast) hw hle⟩
  · have hfield : last.label.field = none := congrArg Part.field hlast
    have hfills : ¬ last.label.fills .body = true := by
      rw [Label.fills, hfield]
      exact Bool.false_ne_true
    rw [hbody, if_neg hfills]
    exact .inr ⟨rfl, hread.last_char (word?_of_part hlast) rfl hw hle⟩

end Node.IsRead

/-- A record whose text is just that of a method: it ends with the brace of the body or, where there
is none, with a semicolon, and neither white space nor a comment comes first. -/
structure MethodRecord.CutOut (r : MethodRecord) : Prop where
  body : r.hasBody = true ↔ r.method.toList.getLast? = some '\x7d'
  bodiless : r.hasBody = false ↔ r.method.toList.getLast? = some ';'
  space : ∃ c, r.method.toList.head? = some c ∧ isSpace c = false
  comment : ∀ t : Token, t.isComment = true →
    ∀ front, front <+: r.method.toList → t.lexeme.pattern.accepts front = false

theorem Node.Yields.cutOut {text : String} {n : Node} {r : MethodRecord} (h : n.Yields text r)
    (hread : n.IsRead text) (hm : n.isMethod = true) : r.CutOut := by
  have hbody := (record?_eq_some_iff.1 h.record).body
  obtain ⟨c, hc, hspace, hslash⟩ := hread.method_first_char hm h.method
  have hlast := hread.method_last_char hm h.method
  rw [← hbody] at hlast
  refine ⟨?_, ?_, ⟨c, hc, hspace⟩, fun t ht front hfront => Bool.eq_false_iff.2 fun ha => ?_⟩
  · obtain ⟨hb, hl⟩ | ⟨hb, hl⟩ := hlast
    · simp [hb, hl]
    · simp [hb, hl]
  · obtain ⟨hb, hl⟩ | ⟨hb, hl⟩ := hlast
    · simp [hb, hl]
    · simp [hb, hl]
  · obtain ⟨rest, hrest⟩ := List.head?_eq_some_iff.1 (head?_of_isComment ht ha)
    obtain ⟨back, hback⟩ := hfront
    rw [← hback, hrest] at hc
    exact hslash (Option.some.inj hc).symm

/-- Every record of an accepted text is cut out of it like that. -/
theorem methods_cutOut (find : String → Option Node) {text : String} {root : Node}
    (h : parseBy find text = .ok root) : ∀ r ∈ root.methods text, r.CutOut := by
  intro r hr
  obtain ⟨n, hread, hm, hyields⟩ := yields_of_mem_methods (derives_of_parseBy h) r hr
  exact hyields.cutOut hread hm

def annotated : Node :=
  .plain (.construct .program) none 0 23 [
    .plain (.token .blockComment) none 0 4 [],
    .plain (.construct .methodDeclaration) none 4 20 [
      .plain (.construct .modifiers) none 4 10 [
        .plain (.construct .annotationCall) none 4 10 [
          .plain (.token .atSign) none 4 5 [],
          .plain (.token .identifier) (some .name) 5 6 [],
          .plain (.construct .annotationArgumentList) (some .arguments) 6 10 [
            .plain (.token .lparen) none 6 7 [],
            .plain (.construct .elementValueArrayInitializer) none 7 9 [
              .plain (.token .lbrace) none 7 8 [],
              .plain (.token .rbrace) none 8 9 []],
            .plain (.token .rparen) none 9 10 []]]],
      .plain (.construct .integralType) (some .type) 10 13 [
        .plain (.token .intWord) none 10 13 []],
      .plain (.token .identifier) (some .name) 14 15 [],
      .plain (.construct .formalParameters) (some .parameters) 15 17 [
        .plain (.token .lparen) none 15 16 [],
        .plain (.token .rparen) none 16 17 []],
      .plain (.construct .dimensions) (some .dimensions) 17 19 [
        .plain (.token .lbracket) none 17 18 [],
        .plain (.token .rbracket) none 18 19 []],
      .plain (.token .semicolon) none 19 20 []],
    .plain (.token .lineComment) none 21 23 []]

def annotatedText : String := "/**/@A(\x7b\x7d)int f()[]; //"

theorem methods_cutOut_annotated :
    parseBy (fun _ => some annotated) annotatedText = .ok annotated ∧
      annotated.methods annotatedText = [⟨"f", "@A(\x7b\x7d)int f()[];", false⟩] ∧
      ∀ r ∈ annotated.methods annotatedText, r.CutOut := by
  have h : parseBy (fun _ => some annotated) annotatedText = .ok annotated :=
    parseBy_of_derives rfl rfl (by decide +kernel)
  have hrecords : annotated.methods annotatedText =
      [⟨"f", "@A(\x7b\x7d)int f()[];", false⟩] := by
    rw [Node.methods_eq_filterMap_filter]
    decide +kernel
  exact ⟨h, hrecords, methods_cutOut _ h⟩

end Java

end MethodExtraction
