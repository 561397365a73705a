import MethodExtraction.Extraction.Config
import MethodExtraction.Extraction.Statistics
import MethodExtraction.Output.Sink

namespace MethodExtraction.Extraction

open Files Java Output Text

structure Unwritten where
  method : String
  cause : IoError
  deriving DecidableEq, Inhabited, Repr

structure FileReport where
  path : Path
  outcome : FileOutcome
  unwritten : List Unwritten
  deriving DecidableEq, Inhabited, Repr

structure RunReport where
  files : List FileReport
  result : Except ExtractionError Statistics

/-- Whether a file is within the limit. If there is none, nothing is asked of the file. -/
def checkSize (fs : FileSystem) (limit : Option Nat) (p : Path) : Except ExtractionError Unit :=
  match limit with
  | none => .ok ()
  | some limit =>
    match fs.size p with
    | .error e => .error (.fileRead p e)
    | .ok size => if limit < size then .error (.fileTooLarge p size limit) else .ok ()

def readSource (fs : FileSystem) (p : Path) : Except ExtractionError String :=
  match fs.read p with
  | .error e => .error (.fileRead p e)
  | .ok bytes => .ok (Utf8.decode bytes.data.toList)

def extractSource (text : String) : Except ParseError (List MethodRecord) :=
  (methods text).mapError .ofSyntaxError

def extractFile (fs : FileSystem) (limit : Option Nat) (p : Path) :
    Except ExtractionError (List MethodRecord) := do
  checkSize fs limit p
  (extractSource (← readSource fs p)).mapError .parse

structure Engine where
  config : Config
  valid : config.validate = .ok ()

namespace Engine

def new (config : Config) : Except ExtractionError Engine :=
  match h : config.validate with
  | .ok () => .ok ⟨config, h⟩
  | .error message => .error (.configuration message)

variable {σ : Type} (sink : RecordSink σ)

/-- Offer records one after the other: how many were written, and which were not. -/
def offer (records : List MethodRecord) (s : σ) : (Nat × List Unwritten) × σ :=
  match records with
  | [] => ((0, []), s)
  | r :: rest =>
    match sink.write r s with
    | .ok _ s =>
      let ((written, unwritten), s) := offer rest s
      ((written + 1, unwritten), s)
    | .error cause s =>
      let ((written, unwritten), s) := offer rest s
      ((written, ⟨r.name, cause⟩ :: unwritten), s)

variable (files : σ → FileSystem) (engine : Engine)

def processFile (p : Path) (s : σ) : FileReport × σ :=
  match extractFile (files s) engine.config.maxFileSize p with
  | .error e => (⟨p, .failed (.ofError e), []⟩, s)
  | .ok records =>
    let ((written, unwritten), s) := offer sink records s
    (⟨p, .parsed written unwritten.length, unwritten⟩, s)

def processAll (stats : Statistics) (visits : List Visit) (s : σ) : RunReport × σ :=
  match visits with
  | [] =>
    match sink.finish s with
    | .ok _ s => (⟨[], .ok stats⟩, s)
    | .error e s => (⟨[], .error (.write e)⟩, s)
  | .error e :: _ => (⟨[], .error (.traversal e)⟩, s)
  | .ok p :: rest =>
    let (file, s) := engine.processFile sink files p s
    let (report, s) := processAll (stats.record file.outcome) rest s
    ({ report with files := file :: report.files }, s)

/-- Process every source file under the root. The files may change as the sink is written to, so
they are a function of its state. -/
def run (s : σ) : RunReport × σ :=
  match sink.start s with
  | .error e s => (⟨[], .error (.write e)⟩, s)
  | .ok _ s =>
    let c := engine.config
    engine.processAll sink files {} ((files s).sourceFiles c.toSourceOptions c.root) s

end Engine

end MethodExtraction.Extraction
