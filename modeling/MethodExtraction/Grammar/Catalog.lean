import MethodExtraction.Grammar.BitSet
import MethodExtraction.Grammar.Production

namespace MethodExtraction.Grammar

/-- How the children of a node show: the new kind of each, and which fields each fills. The flag
tells fields that come from the parts of a hidden child from the child's own. -/
structure Layout where
  kinds : List (Option Nat)
  fields : List (Nat × Nat × Bool)
  deriving DecidableEq, Hashable, Inhabited

def Layout.plain : Layout := ⟨[], []⟩

/-- `expansions` maps a production and a step at which an inlined construct stands to the
productions that take its place there. The last production is that of the whole text. -/
structure Catalog where
  allVariables : Array Variable
  productions : Array Production
  ofVariable : Array (List Nat)
  expansions : Std.HashMap (Nat × Nat) (List Nat)

def Sym.edge (ofVariable : Array BitSet) : Sym → BitSet
  | .token i => BitSet.single i
  | .variable v => ofVariable[v]!

namespace Catalog

def settle {α : Type} [BEq α] (f : α → α) : Nat → α → α
  | 0, x => x
  | n + 1, x =>
    let y := f x
    if y == x then x else settle f n y

section Inlining

/-- Step `s` of a production replaced by the steps of `q`, which take over its kind, its field and,
at their end, its precedence. -/
private def substitute (i : Nat) (s : Step) (p q : Production) : Production :=
  let inner := q.steps.map fun x =>
    { x with kind := s.kind.orElse fun _ => x.kind, field := s.field.orElse fun _ => x.field }
  let inner := match inner.getLast? with
    | some last =>
      inner.dropLast ++ [{ last with
        precedence := last.precedence.orElse fun _ => s.precedence
        assoc := last.assoc.orElse fun _ => s.assoc }]
    | none => []
  { p with
    steps := p.steps.take i ++ inner ++ p.steps.drop (i + 1)
    dynamic := NumberedRule.dominant p.dynamic q.dynamic }

private def expand (vars : Array Variable) (i : Nat) : Nat → Production → List Production
  | 0, p => [p]
  | depth + 1, p =>
    match p.steps[i]? with
    | some s =>
      match s.symbol with
      | .variable v =>
        if vars[v]!.role.isInlined then
          vars[v]!.productions.flatMap fun q => expand vars i depth (substitute i s p q)
        else [p]
      | .token _ => [p]
    | none => [p]

private structure Numbering where
  productions : Array Production
  numbers : Std.HashMap Production Nat
  expansions : Std.HashMap (Nat × Nat) (List Nat)

private def Numbering.intern (p : Production) : StateM Numbering Nat := do
  match (← get).numbers[p]? with
  | some i => pure i
  | none =>
    modifyGet fun s =>
      (s.productions.size,
        { s with
          productions := s.productions.push p
          numbers := s.numbers.insert p s.productions.size })

private def Numbering.walk (vars : Array Variable) : Nat → Nat → Nat → StateM Numbering Unit
  | 0, _, _ => pure ()
  | fuel + 1, p, i => do
    let production := (← get).productions[p]!
    match production.steps[i]? with
    | none => pure ()
    | some s =>
      match s.symbol with
      | .variable v =>
        if vars[v]!.role.isInlined then
          match (← get).expansions[(p, i)]? with
          | some _ => pure ()
          | none =>
            let numbers ← (expand vars i vars.size production).mapM Numbering.intern
            modify fun s => { s with expansions := s.expansions.insert (p, i) numbers }
            for q in numbers do
              walk vars fuel q (i + 1)
        else walk vars fuel p (i + 1)
      | .token _ => walk vars fuel p (i + 1)

end Inlining

/-- The production of a whole text belongs to no variable; its head is the first free number. -/
def ofLanguage (l : Language) : Catalog :=
  let vars := l.allVariables
  let number : StateM Numbering (Array (List Nat)) := do
    let ofVariable ← vars.mapM fun (v : Variable) => v.productions.mapM Numbering.intern
    for p in [0:(← get).productions.size] do
      Numbering.walk vars (vars.size * 8) p 0
    return ofVariable
  let (ofVariable, numbering) := number.run ⟨#[], ∅, ∅⟩
  let whole : Production := ⟨vars.size, [⟨.variable 0, none, none, none, none⟩], 0⟩
  ⟨vars, numbering.productions.push whole, ofVariable, numbering.expansions⟩

variable (c : Catalog)

def whole : Nat := c.productions.size - 1

def wholeHead : Nat := c.allVariables.size

private def edges (pick : List Step → Option Step) : Array BitSet :=
  let grow (sets : Array BitSet) : Array BitSet :=
    sets.mapIdx fun v s =>
      c.allVariables[v]!.productions.foldl (fun s p =>
        match pick p.steps with
        | some x => s.union (x.symbol.edge sets)
        | none => s) s
  settle grow c.allVariables.size (c.allVariables.map fun _ => 0)

def firsts : Array BitSet := c.edges List.head?

def lasts : Array BitSet := c.edges List.getLast?

/-- The fields that the parts of each variable fill in a node that holds it. -/
def fields : Array BitSet :=
  let ofStep (sets : Array BitSet) (s : Step) : BitSet :=
    let own := match s.field with
      | some f => BitSet.single f
      | none => 0
    match s.symbol, s.kind with
    | .variable v, none =>
      if c.allVariables[v]!.role.passesFields then own.union sets[v]! else own
    | _, _ => own
  let grow (sets : Array BitSet) : Array BitSet :=
    sets.mapIdx fun v s =>
      c.allVariables[v]!.productions.foldl (fun s p =>
        p.steps.foldl (fun s x => s.union (ofStep sets x)) s) s
  settle grow c.allVariables.size (c.allVariables.map fun _ => 0)

def inherited (fields : Array BitSet) : Sym → BitSet
  | .variable v => if c.allVariables[v]!.role.isVisible then 0 else fields[v]!
  | .token _ => 0

private def dropTrailing (kinds : List (Option Nat)) : List (Option Nat) :=
  (kinds.reverse.dropWhile Option.isNone).reverse

def layout (fields : Array BitSet) (p : Production) : Layout where
  kinds := dropTrailing (p.steps.map Step.kind)
  fields := (p.steps.zipIdx).flatMap fun (s, i) =>
    (s.field.toList.map fun f => (f, i, false)) ++
      ((c.inherited fields s.symbol).members.toList.map fun f => (f, i, true))

/-- The tokens that may come directly after each token. Comments follow and precede any. -/
def following (l : Language) : Array BitSet := Id.run do
  let firsts := c.firsts
  let lasts := c.lasts
  let n := l.tokens.size
  let mut after : Array BitSet := Array.replicate n (BitSet.ofList l.comments)
  for p in c.productions do
    for (s, next) in p.steps.zip (p.steps.drop 1) do
      for t in (s.symbol.edge lasts).members do
        after := after.modify t (·.union (next.symbol.edge firsts))
  for t in l.comments do
    after := after.set! t (BitSet.below n)
  return after

end Catalog

end MethodExtraction.Grammar
