import MethodExtraction.Extraction.Engine
import MethodExtraction.Output.ArrayWriter

namespace MethodExtraction.Extraction

open Files Output

def openOutput (output : Path) : Change Location := do
  Change.makeParents output
  Change.create output

/-- The file is there, empty, before the walk begins, and may be part of it. -/
def extractToFile (config : Config) (fs : FileSystem) : RunReport × FileSystem :=
  match Engine.new config with
  | .error e => (⟨[], .error e⟩, fs)
  | .ok engine =>
    match openOutput config.output fs with
    | .error e fs => (⟨[], .error (.write e)⟩, fs)
    | .ok location fs =>
      let sink := ArrayWriter.sink (fileSink location)
      let (report, writer) := engine.run sink ArrayWriter.target (.new config.format fs)
      (report, writer.target)

end MethodExtraction.Extraction
