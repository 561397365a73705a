import MethodExtraction.Proofs.Java.Edges

namespace MethodExtraction.Java

open Grammar

def Kind.avoidsBracket : Kind → Bool
  | token t => t.lexeme.pattern.firsts.all fun s => !s.has '['
  | construct c => c ∉ [.dimensions, .dimensionsExpr, .textBlockFragment]
  | typeIdentifier | error => true

theorem beginsWithin_avoidsBracket : BeginsWithin Kind.avoidsBracket := by
  have h : ∀ c ∈ Construct.all, Kind.avoidsBracket (.construct c) = true →
      ∀ a ∈ c.shape.firsts, a.kind.avoidsBracket = true := by decide +kernel
  exact fun c => h c c.mem_all

theorem not_has_of_avoidsBracket {k : Kind} {t : Token} {s : CharSet}
    (hk : k.avoidsBracket = true) (ht : k.word? = some t) (hs : s ∈ t.lexeme.pattern.firsts) :
    s.has '[' = false := by
  have hall : t.lexeme.pattern.firsts.all (fun s => !s.has '[') = true := by
    cases k with
    | token t' =>
      cases ht
      exact hk
    | typeIdentifier =>
      cases ht
      decide +kernel
    | construct c => cases ht
    | error => cases ht
  have hn := List.all_eq_true.1 hall s hs
  rwa [Bool.not_eq_true'] at hn

/-- What comes first in a program does not begin with a bracket, be it a comment or not. -/
theorem avoidsBracket_of_fit {first : Node} {rest : List Node}
    (h : Node.fit .program (first :: rest) = true) : first.kind.avoidsBracket = true := by
  cases hc : first.isComment with
  | false => exact beginsWithin_avoidsBracket .program rfl _ (Node.first_mem_of_fit h hc)
  | true =>
    rw [Node.isComment] at hc
    cases hk : first.kind with
    | token t =>
      rw [hk, Kind.isComment, Token.isComment, Bool.or_eq_true, decide_eq_true_eq,
        decide_eq_true_eq] at hc
      obtain rfl | rfl := hc
      · rfl
      · rfl
    | _ =>
      rw [hk] at hc
      cases hc

theorem not_derives_of_bracket {root : Node} {text : String} (h : text.toList.head? = some '[') :
    root.derives text = false := by
  refine Bool.eq_false_iff.2 fun hd => ?_
  simp only [Node.derives, Bool.and_eq_true, Option.any_eq_true] at hd
  obtain ⟨⟨⟨⟨-, hf⟩, -⟩, -⟩, q, hr, hblank⟩ := hd
  obtain ⟨rest, hrest⟩ := List.head?_eq_some_iff.1 h
  have hin := Place.in_ofText text
  have hp : (Place.ofText text.toList).rest = '[' :: rest := by
    rw [hrest]
    rfl
  cases hc : root.children with
  | nil =>
    rw [hc] at hr
    cases hr
    rw [hp] at hblank
    cases hblank
  | cons first others =>
    rw [hc] at hf hr
    obtain ⟨r, hfirst, -⟩ := Option.bind_eq_some_iff.1 hr
    obtain ⟨k, t, stop, r', hk, ht, htoken, -⟩ :=
      Node.token_of_read? beginsWithin_avoidsBracket hin hfirst (avoidsBracket_of_fit hf)
    obtain ⟨s, hs, hhas⟩ := Place.first_of_token? hp rfl t.nullable_pattern htoken
    exact Bool.false_ne_true ((not_has_of_avoidsBracket hk ht hs).symm.trans hhas)

theorem parseBy_bracket (find : String → Option Node) {text : String}
    (h : text.toList.head? = some '[') : ∃ e, parseBy find text = .error e := by
  cases hp : parseBy find text with
  | error e => exact ⟨e, rfl⟩
  | ok root =>
    have hd := derives_of_parseBy hp
    rw [not_derives_of_bracket h] at hd
    cases hd

end MethodExtraction.Java
