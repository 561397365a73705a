import MethodExtraction.Grammar.Catalog

namespace MethodExtraction.Grammar

/-- `marked` says that a hidden symbol which brings fields of its own has been read. -/
structure Item where
  production : Nat
  step : Nat
  marked : Bool
  deriving DecidableEq, Hashable, Inhabited, Repr

/-- Facts about a class of items. `follow` is what may come after the next symbol, if the
production says so; `expansions` are the classes that stand in for an inlined symbol. -/
structure ItemClass where
  head : Nat
  step : Nat
  next : Option Sym
  follow : Option BitSet
  successor : Nat
  expansions : List Nat
  precedence : Option Int
  assoc : Option Assoc
  dynamic : Int
  layout : Nat
  deriving Inhabited

/-- An item that reading a variable brings along: its class, tokens that may follow it, and whether
what follows the variable may follow it too. -/
structure Addition where
  item : Nat
  follow : BitSet
  inherits : Bool
  deriving Inhabited

structure ItemTable where
  tokenCount : Nat
  variableCount : Nat
  repetitions : BitSet
  classes : Array ItemClass
  additions : Array (Array Addition)
  firsts : Array BitSet
  layouts : Array Layout
  start : Nat
  wholeHead : Nat
  comments : List Nat

namespace Item

private def optionKey : Option Int → List Int
  | none => [0, 0]
  | some x => [1, x]

private def natKey (o : Option Nat) : List Int := optionKey (o.map Int.ofNat)

private def symKey : Sym → List Int
  | .token i => [0, i]
  | .variable i => [1, i]

private def assocKey : Option Assoc → List Int
  | none => [0]
  | some .left => [1]
  | some .right => [2]

private def pastKey (marked : Bool) (s : Step) : List Int :=
  natKey s.kind ++ natKey s.field ++ (if marked then symKey s.symbol else [])

private def futureKey (s : Step) : List Int :=
  symKey s.symbol ++ optionKey s.precedence ++ assocKey s.assoc ++ natKey s.kind ++ natKey s.field

variable (c : Catalog)

def lastRead (i : Item) : Option Step :=
  if i.step = 0 then none else (c.productions[i.production]!).steps[i.step - 1]?

def key (i : Item) : List Int :=
  let p := c.productions[i.production]!
  [Int.ofNat i.step, Int.ofNat p.head, p.dynamic, Int.ofNat p.steps.length]
    ++ optionKey ((i.lastRead c).bind Step.precedence)
    ++ assocKey ((i.lastRead c).bind Step.assoc)
    ++ [if i.marked then 1 else 0]
    ++ (p.steps.take i.step).flatMap (pastKey i.marked)
    ++ (p.steps.drop i.step).flatMap futureKey

def all : List Item :=
  (List.range c.productions.size).flatMap fun p =>
    (List.range ((c.productions[p]!).steps.length + 1)).flatMap fun step =>
      if step = 0 then [⟨p, 0, false⟩] else [⟨p, step, false⟩, ⟨p, step, true⟩]

end Item

private def lexLE : List Int → List Int → Bool
  | [], _ => true
  | _ :: _, [] => false
  | a :: as, b :: bs => if a < b then true else if b < a then false else lexLE as bs

namespace ItemTable

/-- Items in the order of their keys, each run of equal keys being one class. An item before an
inlined construct whose replacements are known speaks for its class. -/
private def number (c : Catalog) (keyed : List (List Int × Item)) :
    Array Item × Std.HashMap Item Nat := Id.run do
  let mut representatives : Array Item := #[]
  let mut numbers : Std.HashMap Item Nat := ∅
  let mut previous : Option (List Int) := none
  for (key, item) in keyed do
    if previous != some key then
      representatives := representatives.push item
      previous := some key
    else if c.expansions.contains (item.production, item.step) then
      representatives := representatives.pop.push item
    numbers := numbers.insert item (representatives.size - 1)
  return (representatives, numbers)

private def internLayouts (c : Catalog) : Array Layout × Array Nat := Id.run do
  let fields := c.fields
  let mut layouts := #[Layout.plain]
  let mut numbers : Std.HashMap Layout Nat := Std.HashMap.ofList [(Layout.plain, 0)]
  let mut ofProduction := #[]
  for p in c.productions do
    let l := c.layout fields p
    match numbers[l]? with
    | some i => ofProduction := ofProduction.push i
    | none =>
      ofProduction := ofProduction.push layouts.size
      numbers := numbers.insert l layouts.size
      layouts := layouts.push l
  return (layouts, ofProduction)

/-- What each variable reached from `start` at the left edge may be followed by. -/
private def reach (c : Catalog) (firsts : Array BitSet) (start : Nat) :
    Array (Option (BitSet × Bool)) := Id.run do
  let mut known : Array (Option (BitSet × Bool)) := c.allVariables.map fun _ => none
  let mut todo : List (Nat × BitSet × Bool) := [(start, 0, true)]
  for _ in [0:c.allVariables.size * c.productions.size] do
    match todo with
    | [] => break
    | (v, follow, inherits) :: rest =>
      todo := rest
      let old := known[v]!
      let new := match old with
        | none => (follow, inherits)
        | some (f, i) => (f.union follow, i || inherits)
      if old != some new then
        known := known.set! v (some new)
        for p in (c.allVariables[v]!).productions do
          match p.steps with
          | ⟨.variable w, _, _, _, _⟩ :: next :: _ =>
            todo := (w, next.symbol.edge firsts, false) :: todo
          | [⟨.variable w, _, _, _, _⟩] => todo := (w, follow, inherits) :: todo
          | _ => pure ()
  return known

private def additionsFor (c : Catalog) (firsts : Array BitSet) (number : Item → Nat) (v : Nat) :
    Array Addition := Id.run do
  let mut out := #[]
  for (known, w) in (reach c firsts v).zipIdx do
    match known with
    | none => pure ()
    | some (follow, inherits) =>
      if !(c.allVariables[w]!).role.isInlined then
        for p in c.ofVariable[w]! do
          for q in (c.expansions[(p, 0)]?).getD [p] do
            out := out.push ⟨number ⟨q, 0, false⟩, follow, inherits⟩
  return out

def ofLanguage (l : Language) : ItemTable :=
  let c := Catalog.ofLanguage l
  let firsts := c.firsts
  let fields := c.fields
  let keyed := (Item.all c).map fun i => (i.key c, i)
  let (representatives, numbers) := number c (keyed.mergeSort fun a b => lexLE a.1 b.1)
  let numberOf (i : Item) : Nat := numbers.getD i 0
  let (layouts, layoutOf) := internLayouts c
  let classOf (i : Item) : ItemClass :=
    let p := c.productions[i.production]!
    let next := p.steps[i.step]?
    { head := p.head
      step := i.step
      next := next.map Step.symbol
      follow := (p.steps[i.step + 1]?).map fun s => s.symbol.edge firsts
      successor := match next with
        | none => 0
        | some s =>
          numberOf ⟨i.production, i.step + 1, i.marked || c.inherited fields s.symbol != 0⟩
      expansions := ((c.expansions[(i.production, i.step)]?).getD []).map fun q =>
        numberOf ⟨q, i.step, i.marked⟩
      precedence := (i.lastRead c).bind Step.precedence
      assoc := (i.lastRead c).bind Step.assoc
      dynamic := p.dynamic
      layout := layoutOf[i.production]! }
  { tokenCount := l.tokens.size
    variableCount := c.allVariables.size
    repetitions := BitSet.ofList ((c.allVariables.toList.zipIdx.filter fun (v, _) =>
      v.role = .repetition).map Prod.snd)
    classes := representatives.map classOf
    additions := (Array.range c.allVariables.size).map (additionsFor c firsts numberOf)
    firsts
    layouts
    start := numberOf ⟨c.whole, 0, false⟩
    wholeHead := c.wholeHead
    comments := l.comments }

end ItemTable

end MethodExtraction.Grammar
