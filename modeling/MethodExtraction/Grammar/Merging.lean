import MethodExtraction.Grammar.Automaton
import MethodExtraction.Grammar.Interference

namespace MethodExtraction.Grammar.Automaton

def State.tokens (s : State) : BitSet :=
  BitSet.ofList ((s.actions.toList.zipIdx.filter fun (a, _) => !a.isEmpty).map Prod.snd)

section Recovery

def companions (tokenCount : Nat) (states : Array State) : Array BitSet := Id.run do
  let mut out : Array BitSet := Array.replicate tokenCount 0
  for s in states do
    let tokens := s.tokens
    for t in tokens.members do
      if t < tokenCount then
        out := out.modify t (·.union tokens)
  return out

/-- The tokens that recovery looks for: all but those that could hide one which never outgrows
another. -/
private def recoverable (i : Interference) (companions : Array BitSet) (keywords : BitSet)
    (word : Nat) : List Nat :=
  let tokens := List.range companions.size
  let apart (a b : Nat) : Bool := a != b && !(companions[a]!).has b
  let outgrows (a b : Nat) : Bool :=
    ((i.clash a b).intoNext || (i.clash a b).withBlanks) && !(i.clash b a).withBlanks
  let plain := tokens.filter fun a => !tokens.any fun b => apart a b && outgrows a b
  tokens.filter fun a =>
    plain.contains a || keywords.has a || a = word ||
      !plain.any fun b => !(companions[a]!).has b && (i.clash a b).conflicts

def withRecovery (i : Interference) (companions : Array BitSet) (keywords : BitSet) (word : Nat)
    (states : Array State) : Array State :=
  let tokens := recoverable i companions keywords word ++ [companions.size]
  states.modify 0 fun s =>
    { s with
      actions := tokens.foldl (fun actions t =>
        actions.modify t fun here => if here.isEmpty then #[.recover] else here) s.actions }

end Recovery

section Groups

private structure Partition where
  groupOf : Array Nat
  groups : Array (Array Nat)

private def Partition.byCore (states : Array State) : Partition := Id.run do
  let count := states.foldl (fun n s => max n (s.core + 1)) 0
  let mut groups : Array (Array Nat) := Array.replicate count #[]
  for (s, i) in states.zipIdx do
    groups := groups.modify s.core (·.push i)
  return ⟨states.map State.core, groups⟩

/-- Moves out of group `g` each state that must be kept apart from one that stays. -/
private def Partition.splitGroup (apart : Array Nat → Nat → Nat → Bool) (p : Partition) (g : Nat) :
    Partition × Bool := Id.run do
  let ids := p.groups[g]!
  let mut leaves : Array Bool := Array.replicate ids.size false
  for i in [0:ids.size] do
    if !leaves[i]! then
      for j in [i + 1:ids.size] do
        if !leaves[j]! && apart p.groupOf ids[i]! ids[j]! then
          leaves := leaves.set! j true
  if !leaves.contains true then
    return (p, false)
  let tagged := ids.zip leaves
  let stay := (tagged.filter fun (_, l) => !l).map Prod.fst
  let leave := (tagged.filter Prod.snd).map Prod.fst
  match p with
  | ⟨groupOf, groups⟩ =>
    let n := groups.size
    return (⟨leave.foldl (fun m i => m.set! i n) groupOf, (groups.set! g stay).push leave⟩, true)

private def Partition.split (apart : Array Nat → Nat → Nat → Bool) (p : Partition) :
    Partition × Bool := Id.run do
  let mut p := p
  let mut changed := false
  for g in [0:p.groupOf.size] do
    if g < p.groups.size then
      let (q, c) := p.splitGroup apart g
      p := q
      changed := changed || c
  return (p, changed)

private def Partition.refine (apart : Array Nat → Nat → Nat → Bool) : Nat → Partition → Partition
  | 0, p => p
  | n + 1, p =>
    let (p, changed) := p.split apart
    if changed then p.refine apart n else p

private def sameAction (groupOf : Array Nat) : Action → Action → Bool
  | .shift s r, .shift s' r' => groupOf[s]! = groupOf[s']! && r = r'
  | a, b => a = b

/-- Whether two states with one core contradict each other. `clash` holds for each token those it
must not meet in one state, `tokens` and `lists` the tokens of each state. -/
private def contradict (clash tokens : Array BitSet) (lists : Array (Array Nat))
    (states : Array State) (groupOf : Array Nat) (i j : Nat) : Bool :=
  let x := (states[i]!).actions
  let y := (states[j]!).actions
  let clashes (t k : Nat) : Bool := ((clash[t]?).getD 0).meets tokens[k]!
  (lists[i]!).any (fun t =>
    let here := y[t]!
    if here.isEmpty then clashes t j else !(x[t]!).isEqv here (sameAction groupOf)) ||
    (lists[j]!).any fun t => (x[t]!).isEmpty && clashes t i

private def lastShift (actions : Array Action) : Option Nat :=
  match actions.back? with
  | some (.shift s _) => some s
  | _ => none

private def diverge (lists : Array (Array Nat)) (states : Array State) (groupOf : Array Nat)
    (i j : Nat) : Bool :=
  let x := states[i]!
  let y := states[j]!
  (x.gotos.zip y.gotos).any (fun (a, b) => a.1 = b.1 && groupOf[a.2]! != groupOf[b.2]!) ||
    (lists[i]!).any fun t =>
      match lastShift x.actions[t]!, lastShift y.actions[t]! with
      | some s, some s' => groupOf[s]! != groupOf[s']!
      | _, _ => false

private def swapGroups (p : Partition) (g : Nat) (state : Nat) : Partition :=
  let h := p.groupOf[state]!
  let a := p.groups[g]!
  let b := p.groups[h]!
  let groups := (p.groups.set! g b).set! h a
  let groupOf := a.foldl (fun m i => m.set! i h) p.groupOf
  ⟨b.foldl (fun m i => m.set! i g) groupOf, groups⟩

private def redirect (target : Nat → Nat) (s : State) : State :=
  { s with
    actions := s.actions.map fun here => here.map fun
      | .shift t r => .shift (target t) r
      | a => a
    gotos := s.gotos.map fun (v, t) => (v, target t) }

private def joinStates (states : Array State) (p : Partition) (group : Array Nat) : State :=
  let first := states[group[0]!]!
  let actions := (group.foldl (fun actions i =>
    actions.zipWith (fun old new => if new.isEmpty then old else new) (states[i]!).actions)
      first.actions)
  redirect (fun t => p.groupOf[t]!) { first with actions }

/-- The first two groups are those of the first two states. -/
def merge (clash : Array BitSet) (states : Array State) : Array State :=
  let tokens := states.map State.tokens
  let lists := tokens.map BitSet.members
  let (p, _) := (Partition.byCore states).split (contradict clash tokens lists states)
  let p := p.refine (diverge lists states) states.size
  let p := swapGroups (swapGroups p 0 0) 1 1
  p.groups.map (joinStates states p)

end Groups

section Shortcuts

private def renames (plain : Nat → Bool) (s : State) : Option Nat :=
  let actions := (s.actions.flatMap id).filter (· != Action.extra)
  match actions[0]? with
  | some (Action.reduce v 1 0 0) =>
    if plain v && actions.all (· = Action.reduce v 1 0 0) then some v else none
  | _ => none

/-- Leads past the states that only rename; `plain` holds of the variables whose nodes do not
show. -/
def skipRenamings (plain : Nat → Bool) (states : Array State) : Array State :=
  let shortcuts := states.map (renames plain)
  let rec follow (gotos : Array (Nat × Nat)) : Nat → Nat → Nat
    | 0, t => t
    | n + 1, t =>
      match shortcuts[t]! with
      | none => t
      | some v =>
        match gotos.find? (·.1 = v) with
        | some (_, t') => follow gotos n t'
        | none => t
  states.map fun s => redirect (follow s.gotos states.size) s

end Shortcuts

section Pruning

private def targets (s : State) : Array Nat :=
  s.gotos.map Prod.snd ++ (s.actions.flatMap id).filterMap fun
    | .shift t _ => some t
    | _ => none

private def reachable (states : Array State) : Array Bool := Id.run do
  let mut seen : Array Bool := (Array.replicate states.size false).set! 0 true |>.set! 1 true
  let mut order := #[0, 1]
  for i in [0:states.size] do
    match order[i]? with
    | none => break
    | some s =>
      for t in targets states[s]! do
        if !seen[t]! then
          seen := seen.set! t true
          order := order.push t
  return seen

private def weight (s : State) : Nat := s.tokens.members.size + s.gotos.size

/-- Drops the states that cannot be reached and puts the larger ones first, after the first two. -/
def arrange (states : Array State) : Array State :=
  let seen := reachable states
  let kept := (List.range states.size).filter fun i => seen[i]!
  let weights := states.map weight
  let order := kept.take 2 ++ (kept.drop 2).mergeSort fun a b => weights[b]! ≤ weights[a]!
  let places := order.zipIdx.foldl (fun places (s, i) => places.set! s i)
    (Array.replicate states.size 0)
  (order.map fun i => redirect (fun t => places[t]!) states[i]!).toArray

end Pruning

end MethodExtraction.Grammar.Automaton
