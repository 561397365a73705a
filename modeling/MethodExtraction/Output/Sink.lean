import MethodExtraction.Files.Change
import MethodExtraction.Java.Method

namespace MethodExtraction.Output

open Files Java

/-- A destination for bytes, with states `δ`. An action that fails keeps what it has done. -/
structure ByteSink (δ : Type) where
  writeAll : ByteArray → EStateM IoError δ Unit
  flush : EStateM IoError δ Unit

structure RecordSink (σ : Type) where
  start : EStateM IoError σ Unit
  write : MethodRecord → EStateM IoError σ Unit
  finish : EStateM IoError σ Unit

def fileSink (location : Location) : ByteSink FileSystem := ⟨Change.append location, pure ()⟩

end MethodExtraction.Output
