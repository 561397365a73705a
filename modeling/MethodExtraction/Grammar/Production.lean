import MethodExtraction.Grammar.Language
import Std.Data.HashMap

namespace MethodExtraction.Grammar

/-- What a variable stands for: a construct, or one or more of what a rule repeats. -/
inductive Role where
  | construct (v : Visibility)
  | repetition
  deriving DecidableEq, Inhabited, Repr

namespace Role

def isVisible (r : Role) : Bool := r = construct .visible

def isInlined (r : Role) : Bool := r = construct .inlined

def passesFields (r : Role) : Bool := r != construct .visible && r != construct .supertype

end Role

structure Step where
  symbol : Sym
  precedence : Option Int
  assoc : Option Assoc
  kind : Option Nat
  field : Option Nat
  deriving DecidableEq, Hashable, Inhabited, Repr

structure Production where
  head : Nat
  steps : List Step
  dynamic : Int
  deriving DecidableEq, Hashable, Inhabited, Repr

namespace NumberedRule

/-- Replaces each repetition by a variable, numbered from `first`; equal repetitions share one. -/
def liftRepeats (first : Nat) : NumberedRule → StateM (Array NumberedRule) NumberedRule
  | .repeat1 a => do
    let a ← liftRepeats first a
    let found ← get
    match found.findIdx? (· = a) with
    | some i => pure (.symbol (.variable (first + i)))
    | none =>
      set (found.push a)
      pure (.symbol (.variable (first + found.size)))
  | .seq a b => return .seq (← liftRepeats first a) (← liftRepeats first b)
  | .choice a b => return .choice (← liftRepeats first a) (← liftRepeats first b)
  | .field n a => return .field n (← liftRepeats first a)
  | .rename k a => return .rename k (← liftRepeats first a)
  | .prec l c a => return .prec l c (← liftRepeats first a)
  | .dynamic l a => return .dynamic l (← liftRepeats first a)
  | .blank => pure .blank
  | .symbol s => pure (.symbol s)

def branches : NumberedRule → List NumberedRule
  | .seq a b => (branches a).flatMap fun x => (branches b).map fun y => .seq x y
  | .choice a b => branches a ++ branches b
  | .field n a => (branches a).map (.field n)
  | .rename k a => (branches a).map (.rename k)
  | .prec l c a => (branches a).map (.prec l c)
  | .dynamic l a => (branches a).map (.dynamic l)
  | r => [r]

/-- What surrounds a part of a rule; `atEnd` says that the part is the last of the rule. -/
structure Context where
  precedence : Option Int := none
  assoc : Option Assoc := none
  kind : Option Nat := none
  field : Option Nat := none
  atEnd : Bool := true

/-- A precedence also rules what may follow its last step, unless more of the rule follows. -/
private def closePrecedence (c : Context) (assoc : Option Assoc) (steps : List Step) : List Step :=
  match steps.getLast? with
  | some last =>
    if c.atEnd then steps
    else
      let last := { last with precedence := c.precedence }
      let last := if assoc.isSome then { last with assoc := c.assoc } else last
      steps.dropLast ++ [last]
  | none => steps

def steps (c : Context) : NumberedRule → List Step
  | .symbol s => [⟨s, c.precedence, c.assoc, c.kind, c.field⟩]
  | .seq a b => steps { c with atEnd := false } a ++ steps c b
  | .field n a => steps { c with field := some n } a
  | .rename k a => steps { c with kind := some k } a
  | .prec l assoc a =>
    closePrecedence c assoc
      (steps { c with precedence := some l, assoc := assoc.orElse fun _ => c.assoc } a)
  | .dynamic _ a => steps c a
  | _ => []

/-- The larger of two dynamic precedences by magnitude; of equal ones the first. -/
def dominant (a b : Int) : Int := if a.natAbs < b.natAbs then b else a

def dynamicLevel : NumberedRule → Int
  | .seq a b => dominant (dynamicLevel a) (dynamicLevel b)
  | .field _ a | .rename _ a | .prec _ _ a => dynamicLevel a
  | .dynamic l a => dominant l (dynamicLevel a)
  | _ => 0

def productions (head : Nat) (r : NumberedRule) : List Production :=
  ((branches r).map fun b => ⟨head, steps {} b, dynamicLevel b⟩).eraseDups

end NumberedRule

structure Variable where
  role : Role
  productions : List Production
  deriving Inhabited

namespace Language

def allVariables (l : Language) : Array Variable :=
  let first := l.constructs.size
  let (constructs, repeated) := (l.constructs.mapM fun (v, r) => do
    return (Role.construct v, ← NumberedRule.liftRepeats first r)).run #[]
  let repetitions := repeated.mapIdx fun i r =>
    let self := Rule.symbol (.variable (first + i))
    (Role.repetition, Rule.choice (.seq self self) r)
  (constructs ++ repetitions).mapIdx fun i (role, r) => ⟨role, NumberedRule.productions i r⟩

end Language

end MethodExtraction.Grammar
