import MethodExtraction.Grammar.Item

namespace MethodExtraction.Grammar

/-- What a state does at a token. `extra` takes a comment; `recover` gives a token to error
recovery. A shift is a `repetition` if it goes on with a repetition that could as well be ended. -/
inductive Action where
  | shift (state : Nat) (repetition : Bool)
  | extra
  | reduce (head count : Nat) (dynamic : Int) (layout : Nat)
  | accept
  | recover
  deriving DecidableEq, Inhabited

namespace Automaton

/-- The items from which a state starts, by class, with the tokens that may follow each. -/
abbrev Kernel := Array (Nat × BitSet)

/-- `actions` are by token, with those at the end of the text last; `gotos` are by variable. States
with one core differ in their lookahead only. -/
structure State where
  core : Nat
  actions : Array (Array Action)
  gotos : Array (Nat × Nat)
  deriving Inhabited

section Closure

variable (t : ItemTable)

private structure Lookaheads where
  sets : Array BitSet
  touched : Array Nat

private def Lookaheads.add (l : Lookaheads) (item : Nat) (follow : BitSet) : Lookaheads :=
  let old := l.sets[item]!
  if old = 0 && follow != 0 then ⟨l.sets.set! item follow, l.touched.push item⟩
  else ⟨l.sets.set! item (old.union follow), l.touched⟩

private def Lookaheads.enter (l : Lookaheads) (item : Nat) (follow : BitSet) : Lookaheads :=
  let k := t.classes[item]!
  let l := match k.next with
    | some (.variable v) =>
      let after := k.follow.getD follow
      (t.additions[v]!).foldl (fun (l : Lookaheads) (a : Addition) =>
        let l := l.add a.item a.follow
        if a.inherits then l.add a.item after else l) l
    | _ => l
  l.add item follow

/-- All items that are open in a state, in the order of their classes. The sets given back are
empty again. -/
private def close (kernel : Kernel) (sets : Array BitSet) : Kernel × Array BitSet :=
  let found := kernel.foldl (fun l (item, follow) =>
    match (t.classes[item]!).expansions with
    | [] => l.enter t item follow
    | qs => qs.foldl (fun l q => l.enter t q follow) l) (⟨sets, #[]⟩ : Lookaheads)
  let order := found.touched.qsort (· < ·)
  let items := order.map fun item => (item, found.sets[item]!)
  (items, order.foldl (fun sets item => sets.set! item 0) found.sets)

end Closure

section Numbering

private structure Numbered where
  kernels : Array Kernel
  cores : Array Nat
  byKernel : Std.HashMap Kernel Nat
  byCore : Std.HashMap (Array Nat) Nat

private def normalize (entries : Kernel) : Kernel :=
  (entries.qsort fun a b => a.1 < b.1).foldl (fun out (item, follow) =>
    match out.back? with
    | some (last, s) =>
      if last = item then out.pop.push (item, s.union follow) else out.push (item, follow)
    | none => out.push (item, follow)) #[]

private def Numbered.number (n : Numbered) (kernel : Kernel) : Nat × Numbered :=
  match n.byKernel[kernel]? with
  | some i => (i, n)
  | none =>
    let core := kernel.map Prod.fst
    let i := n.kernels.size
    match n with
    | ⟨kernels, cores, byKernel, byCore⟩ =>
      let c := byCore.getD core byCore.size
      let byCore := if c = byCore.size then byCore.insert core c else byCore
      (i, ⟨kernels.push kernel, cores.push c, byKernel.insert kernel i, byCore⟩)

end Numbering

section Conflicts

private structure Preference where
  precedence : Int := 0
  left : Bool := false
  right : Bool := false
  neither : Bool := false
  deriving Inhabited

private def Preference.record (p : Preference) (level : Int) (assoc : Option Assoc) :
    Preference :=
  let p := { p with precedence := level }
  match assoc with
  | some .left => { p with left := true }
  | some .right => { p with right := true }
  | none => { p with neither := true }

private structure Draft where
  actions : Array (Array Action)
  preferences : Array Preference
  undecided : BitSet

private def Draft.reduce (d : Draft) (token : Nat) (action : Action) (level : Int)
    (assoc : Option Assoc) : Draft :=
  match d with
  | ⟨actions, preferences, undecided⟩ =>
    let here := actions[token]!
    let p := preferences[token]!
    if here.isEmpty then
      ⟨actions.set! token #[action],
        preferences.set! token (({} : Preference).record level assoc), undecided⟩
    else if p.precedence < level then
      ⟨actions.set! token #[action],
        preferences.set! token (({} : Preference).record level assoc),
        if undecided.has token then undecided ^^^ BitSet.single token else undecided⟩
    else if level = p.precedence then
      ⟨actions.modify token (·.push action), preferences.set! token (p.record level assoc),
        undecided.insert token⟩
    else ⟨actions, preferences, undecided⟩

private def Draft.shift (d : Draft) (token target : Nat) : Draft :=
  match d with
  | ⟨actions, preferences, undecided⟩ =>
    let undecided := if actions[token]!.isEmpty then undecided else undecided.insert token
    ⟨actions.modify token (·.push (.shift target false)), preferences, undecided⟩

/-- Decides between the reductions at a token and a shift after them. -/
private def decide (t : ItemTable) (items : Kernel) (token : Nat) (p : Preference)
    (actions : Array Action) : Array Action :=
  match actions.back? with
  | some (.shift target _) =>
    let involved := items.filter fun (item, follow) =>
      let k := t.classes[item]!
      match k.next with
      | some s => 0 < k.step && (s.edge t.firsts).has token
      | none => follow.has token
    let classes := involved.map fun (item, _) => t.classes[item]!
    let heads := (classes.map ItemClass.head).filter (· != t.wholeHead)
    let head := heads[0]?.getD t.wholeHead
    if t.repetitions.has head && heads.all (· = head) then
      actions.pop.push (.shift target true)
    else
      let levels := (classes.filter fun k => k.next.isSome).map fun k => k.precedence.getD 0
      let higher := levels.any (p.precedence < ·)
      let lower := levels.any (· < p.precedence)
      if higher && !lower then #[.shift target false]
      else if lower && !higher then actions.pop
      else if higher then actions
      else if p.left && !p.neither && !p.right then actions.pop
      else if p.right && !p.neither && !p.left then #[.shift target false]
      else actions
  | _ => actions

end Conflicts

private def buildState (t : ItemTable) (core : Nat) (items : Kernel) (numbered : Numbered) :
    State × Numbered := Id.run do
  let endMark := t.tokenCount
  let mut numbered := numbered
  let mut draft : Draft :=
    ⟨Array.replicate (endMark + 1) #[], Array.replicate (endMark + 1) {}, 0⟩
  let mut afterTokens : Array Kernel := Array.replicate t.tokenCount #[]
  let mut afterVariables : Array Kernel := Array.replicate t.variableCount #[]
  for (item, follow) in items do
    let k := t.classes[item]!
    match k.next with
    | some (.token i) => afterTokens := afterTokens.modify i (·.push (k.successor, follow))
    | some (.variable v) =>
      afterVariables := afterVariables.modify v (·.push (k.successor, follow))
    | none =>
      let action :=
        if k.head = t.wholeHead then .accept else .reduce k.head k.step k.dynamic k.layout
      for token in follow.members do
        draft := draft.reduce token action (k.precedence.getD 0) k.assoc
  for token in [0:t.tokenCount] do
    let kernel := afterTokens[token]!
    if !kernel.isEmpty then
      let (target, n) := numbered.number (normalize kernel)
      numbered := n
      draft := draft.shift token target
  let mut gotos := #[]
  for v in [0:t.variableCount] do
    let kernel := afterVariables[v]!
    if !kernel.isEmpty then
      let (target, n) := numbered.number (normalize kernel)
      numbered := n
      gotos := gotos.push (v, target)
  let mut actions := draft.actions
  for token in draft.undecided.members do
    let p := draft.preferences[token]!
    actions := actions.modify token (decide t items token p)
  for token in t.comments do
    if actions[token]!.isEmpty then
      actions := actions.set! token #[.extra]
  return (⟨core, actions, gotos⟩, numbered)

/-- Far above the number of states of any grammar in use. -/
private def stateLimit : Nat := 1000000

/-- The states of the automaton. State 0 starts nowhere and is there for error recovery; reading
begins in state 1. -/
def build (t : ItemTable) : Array State := Id.run do
  let (_, n) := Numbered.number ⟨#[], #[], ∅, ∅⟩ #[]
  let (_, n) := n.number #[(t.start, BitSet.single t.tokenCount)]
  let mut numbered := n
  let mut sets : Array BitSet := Array.replicate t.classes.size 0
  let mut states := #[]
  for i in [0:stateLimit] do
    match numbered.kernels[i]? with
    | none => break
    | some kernel =>
      let (items, emptied) := close t kernel sets
      sets := emptied
      let (state, n) := buildState t numbered.cores[i]! items numbered
      numbered := n
      states := states.push state
  return states

end Automaton

end MethodExtraction.Grammar
