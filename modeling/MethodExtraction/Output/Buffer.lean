import MethodExtraction.Output.Sink

namespace MethodExtraction.Output

open Files

inductive Fault where
  | none
  | limit (count : Nat)
  | failure (text : String)
  | interrupt
  deriving DecidableEq, Inhabited, Repr

/-- What became of some bytes: why the rest of them was given up, which were taken, and the faults
that are still to come. -/
structure Delivery where
  failure : Option IoError
  taken : ByteArray
  plan : List Fault

/-- Offer bytes until all are taken. Interrupts are ignored; an attempt that takes nothing fails. -/
def deliver (bytes : ByteArray) : List Fault → Delivery
  | [] => ⟨.none, bytes, []⟩
  | fault :: plan =>
    if bytes.isEmpty then ⟨.none, .empty, fault :: plan⟩
    else
      match fault with
      | .none => ⟨.none, bytes, plan⟩
      | .limit 0 => ⟨some .nothingWritten, .empty, plan⟩
      | .limit count =>
        let rest := deliver (bytes.extract count bytes.size) plan
        { rest with taken := bytes.extract 0 count ++ rest.taken }
      | .failure text => ⟨some (.other text), .empty, plan⟩
      | .interrupt => deliver bytes plan

structure FaultyBuffer where
  plan : List Fault
  flushFailure : Option String
  bytes : ByteArray

namespace FaultyBuffer

def writeAll (bytes : ByteArray) : EStateM IoError FaultyBuffer Unit := fun b =>
  let d := deliver bytes b.plan
  let b' := { b with plan := d.plan, bytes := b.bytes ++ d.taken }
  match d.failure with
  | none => .ok () b'
  | some e => .error e b'

def flush : EStateM IoError FaultyBuffer Unit := fun b =>
  match b.flushFailure with
  | none => .ok () b
  | some text => .error (.other text) b

def sink : ByteSink FaultyBuffer := ⟨writeAll, flush⟩

end FaultyBuffer

end MethodExtraction.Output
