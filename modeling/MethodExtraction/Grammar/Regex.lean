namespace MethodExtraction.Grammar

inductive Regex (α : Type) where
  | never
  | empty
  | atom (a : α)
  | seq (r s : Regex α)
  | alt (r s : Regex α)
  | star (r : Regex α)
  deriving DecidableEq, Inhabited, Repr

namespace Regex

variable {α β : Type}

def plus (r : Regex α) : Regex α := seq r (star r)

def optional (r : Regex α) : Regex α := alt r empty

def concat : List (Regex α) → Regex α
  | [] => empty
  | [r] => r
  | r :: rs => seq r (concat rs)

def any : List (Regex α) → Regex α
  | [] => never
  | [r] => r
  | r :: rs => alt r (any rs)

def sepBy1 (r sep : Regex α) : Regex α := seq r (star (seq sep r))

def times (r : Regex α) : Nat → Regex α
  | 0 => empty
  | n + 1 => seq r (times r n)

/-- The words of `r`, where atom `a` stands for each letter `x` with `hit a x`. -/
inductive Matches (hit : α → β → Bool) : Regex α → List β → Prop where
  | empty : Matches hit empty []
  | atom {a x} : hit a x = true → Matches hit (atom a) [x]
  | seq {r s u v} : Matches hit r u → Matches hit s v → Matches hit (seq r s) (u ++ v)
  | left {r s u} : Matches hit r u → Matches hit (alt r s) u
  | right {r s u} : Matches hit s u → Matches hit (alt r s) u
  | done {r} : Matches hit (star r) []
  | more {r u v} : Matches hit r u → Matches hit (star r) v → Matches hit (star r) (u ++ v)

def nullable : Regex α → Bool
  | never | atom _ => false
  | empty | star _ => true
  | seq r s => r.nullable && s.nullable
  | alt r s => r.nullable || s.nullable

section Normal

variable [DecidableEq α]

def isChoiceOf (r : Regex α) : Regex α → Bool
  | alt s t => r = s || r.isChoiceOf t
  | s => r = s

/-- Alternation without `never` and without repeated alternatives, nested to the right. -/
def mkAlt : Regex α → Regex α → Regex α
  | never, s => s
  | alt r t, s => mkAlt r (mkAlt t s)
  | r, never => r
  | r, s => if r.isChoiceOf s then s else alt r s

/-- Sequence without `empty` and with `never` absorbed, nested to the right. -/
def mkSeq : Regex α → Regex α → Regex α
  | never, _ => never
  | empty, s => s
  | seq r t, s => mkSeq r (mkSeq t s)
  | _, never => never
  | r, empty => r
  | r, s => seq r s

/-- What may follow a first letter at which exactly the atoms with `hit` stand. -/
def deriv (hit : α → Bool) : Regex α → Regex α
  | never | empty => never
  | atom a => if hit a then empty else never
  | seq r s =>
    if r.nullable then mkAlt (mkSeq (r.deriv hit) s) (s.deriv hit) else mkSeq (r.deriv hit) s
  | alt r s => mkAlt (r.deriv hit) (s.deriv hit)
  | star r => mkSeq (r.deriv hit) (star r)

def accepts (hit : α → β → Bool) : Regex α → List β → Bool
  | r, [] => r.nullable
  | r, x :: xs => (r.deriv fun a => hit a x).accepts hit xs

end Normal

def firsts : Regex α → List α
  | never | empty => []
  | atom a => [a]
  | seq r s => if r.nullable then r.firsts ++ s.firsts else r.firsts
  | alt r s => r.firsts ++ s.firsts
  | star r => r.firsts

end Regex

end MethodExtraction.Grammar
