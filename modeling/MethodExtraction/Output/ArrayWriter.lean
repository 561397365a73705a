import MethodExtraction.Output.Format
import MethodExtraction.Output.Sink

namespace MethodExtraction.Output

open Files Java

structure ArrayWriter (δ : Type) where
  format : OutputFormat
  recordsWritten : Nat
  /-- Whether bytes of a record may have been written, be it only a part of one. -/
  emitted : Bool
  target : δ

namespace ArrayWriter

variable {δ : Type}

def new (format : OutputFormat) (target : δ) : ArrayWriter δ := ⟨format, 0, false, target⟩

def onTarget (action : EStateM IoError δ Unit) : EStateM IoError (ArrayWriter δ) Unit :=
  fun ⟨format, recordsWritten, emitted, target⟩ =>
    match action target with
    | .ok () target => .ok () ⟨format, recordsWritten, emitted, target⟩
    | .error e target => .error e ⟨format, recordsWritten, emitted, target⟩

def opening : String := "[\n"

def piece (w : ArrayWriter δ) (r : MethodRecord) : String :=
  match w.format with
  | .legacy => formatRecord .legacy r ++ ",\n"
  | .strict => if w.emitted then ",\n" ++ formatRecord .strict r else formatRecord .strict r

def closing (w : ArrayWriter δ) : String :=
  match w.format with
  | .legacy => "]"
  | .strict => if w.emitted then "\n]" else "]"

variable (target : ByteSink δ)

def put (text : String) : EStateM IoError (ArrayWriter δ) Unit :=
  onTarget (target.writeAll text.toUTF8)

def start : EStateM IoError (ArrayWriter δ) Unit := put target opening

def write (r : MethodRecord) : EStateM IoError (ArrayWriter δ) Unit := do
  let text := (← get).piece r
  modify fun w => { w with emitted := true }
  put target text
  modify fun w => { w with recordsWritten := w.recordsWritten + 1 }

def finish : EStateM IoError (ArrayWriter δ) Unit := do
  put target (← get).closing
  onTarget target.flush

def sink : RecordSink (ArrayWriter δ) := ⟨start target, write target, finish target⟩

end ArrayWriter

end MethodExtraction.Output
