import MethodExtraction.Proofs.Output.Record

namespace MethodExtraction.Output

def quotePairs (cs : List Char) : Nat := (cs.zip cs.tail).count ('\\', '"')

section

variable {c : Char} {cs : List Char}

theorem escapeQuote_quote : escapeQuote '"' = ['\\', '"'] := rfl

theorem escapeQuote_of_ne (h : c ≠ '"') : escapeQuote c = [c] := if_neg h

theorem quotePairs_cons_cons (c d : Char) (cs : List Char) :
    quotePairs (c :: d :: cs) = quotePairs (d :: cs) + if c = '\\' ∧ d = '"' then 1 else 0 := by
  simp only [quotePairs, List.tail_cons, List.zip_cons_cons, List.count_cons, beq_iff_eq,
    Prod.mk.injEq]

theorem quotePairs_cons (h : cs.head? ≠ some '"') : quotePairs (c :: cs) = quotePairs cs := by
  cases cs with
  | nil => rfl
  | cons d cs =>
    have hd : d ≠ '"' := fun he => h (congrArg some he)
    rw [quotePairs_cons_cons, if_neg fun he => hd he.2, Nat.add_zero]

/-- No backslash that was there before comes to stand before a quote. -/
theorem quotePairs_flatMap (cs : List Char) :
    quotePairs (cs.flatMap escapeQuote) = cs.count '"' := by
  induction cs with
  | nil => rfl
  | cons c cs ih =>
    have hhead := head?_flatMap_escapeQuote cs
    by_cases hc : c = '"'
    · subst hc
      rw [List.flatMap_cons, escapeQuote_quote, List.cons_append, List.singleton_append,
        quotePairs_cons_cons, quotePairs_cons hhead, ih, List.count_cons_self]
      rfl
    · rw [List.flatMap_cons, escapeQuote_of_ne hc, List.singleton_append, quotePairs_cons hhead, ih,
        List.count_cons_of_ne hc]

theorem length_flatMap_escapeQuote (cs : List Char) :
    (cs.flatMap escapeQuote).length = cs.length + cs.count '"' := by
  induction cs with
  | nil => rfl
  | cons c cs ih =>
    rw [List.flatMap_cons, List.length_append, ih, List.length_cons]
    by_cases hc : c = '"'
    · subst hc
      rw [escapeQuote_quote, List.count_cons_self, List.length_cons, List.length_singleton]
      omega
    · rw [escapeQuote_of_ne hc, List.count_cons_of_ne hc, List.length_singleton]
      omega

theorem flatMap_escapeQuote_eq_intercalate (cs : List Char) :
    cs.flatMap escapeQuote = ['\\', '"'].intercalate (cs.splitOn '"') := by
  induction cs with
  | nil => rfl
  | cons c cs ih =>
    obtain ⟨piece, pieces, hs⟩ := List.exists_cons_of_ne_nil (List.splitOn_ne_nil '"' cs)
    by_cases hc : c = '"'
    · subst hc
      rw [List.flatMap_cons, escapeQuote_quote, ih, List.splitOn_cons_eq_if_modifyHead,
        if_pos (beq_self_eq_true _), List.intercalate_cons_of_ne_nil (List.splitOn_ne_nil _ _)]
      rfl
    · rw [List.flatMap_cons, escapeQuote_of_ne hc, ih, List.splitOn_cons_eq_if_modifyHead,
        if_neg (by simpa using hc), hs, List.modifyHead_cons]
      cases pieces with
      | nil => simp
      | cons next pieces => simp [List.intercalate_cons_cons]

end

section

variable (text other : String)

theorem unescapeQuotes_escapeQuotes :
    unescapeQuotes (escapeQuotes text).text.toList = text.toList := by
  rw [toList_escapeQuotes, unescapeQuotes_flatMap]

theorem escapeQuotes_append :
    (escapeQuotes (text ++ other)).text = (escapeQuotes text).text ++ (escapeQuotes other).text := by
  apply String.toList_injective
  rw [String.toList_append, toList_escapeQuotes, toList_escapeQuotes, toList_escapeQuotes,
    String.toList_append, List.flatMap_append]

theorem isSame_escapeQuotes_iff :
    (escapeQuotes text).isSame = true ↔ (escapeQuotes text).text = text := by
  by_cases h : '"' ∈ text.toList
  · have hlength := length_flatMap_escapeQuote text.toList
    have hcount : 0 < text.toList.count '"' := List.count_pos_iff.2 h
    constructor
    · intro hs
      rw [escapeQuotes, if_pos h] at hs
      cases hs
    · intro ht
      rw [← toList_escapeQuotes, ht] at hlength
      omega
  · rw [escapeQuotes, if_neg h]
    exact ⟨fun _ => rfl, fun _ => rfl⟩

end

structure QuotesEscaped (text : String) : Prop where
  pieces : (escapeQuotes text).text.toList = ['\\', '"'].intercalate (text.toList.splitOn '"')
  restored : unescapeQuotes (escapeQuotes text).text.toList = text.toList
  injective : ∀ other, (escapeQuotes other).text = (escapeQuotes text).text → other = text
  pairs : quotePairs (escapeQuotes text).text.toList = text.toList.count '"'
  append : ∀ other,
    (escapeQuotes (text ++ other)).text = (escapeQuotes text).text ++ (escapeQuotes other).text
  same : (escapeQuotes text).isSame = true ↔ (escapeQuotes text).text = text

/-- Every quote is given one backslash, and nothing else is changed. -/
theorem quotesEscaped_escapeQuotes (text : String) : QuotesEscaped text where
  pieces := by rw [toList_escapeQuotes, flatMap_escapeQuote_eq_intercalate]
  restored := unescapeQuotes_escapeQuotes text
  injective other h := by
    have hrest := unescapeQuotes_escapeQuotes other
    rw [h, unescapeQuotes_escapeQuotes] at hrest
    exact String.toList_injective hrest.symm
  pairs := by rw [toList_escapeQuotes, quotePairs_flatMap]
  append := escapeQuotes_append text
  same := isSame_escapeQuotes_iff text

example : (escapeQuotes "\\\"\\\\").text = "\\\\\"\\\\" := by decide

end MethodExtraction.Output
