import MethodExtraction.Extraction.Config
import MethodExtraction.Files.Change

namespace MethodExtraction.CommandLine.Disk

open Extraction Files Text

structure Snapshot where
  fs : FileSystem
  /-- The directories of which all entries have been read. -/
  searched : List Location := []

abbrev Reader := StateT Snapshot IO

def pathText (location : Location) : String := "/" ++ "/".intercalate (location.map Utf8.decode)

def located (text : String) : Location := (Path.ofText text).segments

def entry (location : Location) : IO.FS.DirEntry :=
  { root := pathText location.dropLast, fileName := Utf8.decode (location.getLast?.getD [dot]) }

def real? (text : String) : IO (Option Location) := do
  try return some (located (toString (← IO.FS.realPath text))) catch _ => return none

def type? (location : Location) : IO (Option IO.FS.FileType) := do
  try return some (← (entry location).path.symlinkMetadata).type catch _ => return none

def put (location : Location) (content : Content) : Reader Unit :=
  unless location = [] do modify fun s => { s with fs := s.fs.put location content }

/-- Read what is at a location: of a directory all entries if `deep` is set, of a file the bytes if
`keep` is. -/
partial def load (o : SourceOptions) (deep keep : Bool) (location : Location) : Reader Unit := do
  for n in [0:location.length] do put (location.take n) .directory
  match ← type? location with
  | none => return
  | some .file =>
    let bytes ← if keep then IO.FS.readBinFile (pathText location) else pure .empty
    put location (.file bytes)
  | some .other =>
    put location (.device (if location.getLast? = some (Utf8.encode "full") then .full else .null))
  | some .symlink =>
    match ← real? (pathText location) with
    | none => put location (.link ⟨slash :: List.replicate (nameLimit + 1) dot⟩)
    | some target =>
      put location (.link (.ofText (pathText target)))
      load o (deep && o.followLinks) keep target
  | some .dir =>
    put location .directory
    if deep && !(← get).searched.contains location then
      modify fun s => { s with searched := location :: s.searched }
      for e in ← (entry (location ++ [[dot]])).root.readDir do
        load o true (e.fileName.endsWith o.suffix) (location ++ [Utf8.encode e.fileName])

def loadPath (o : SourceOptions) (deep keep : Bool) (p : Path) : Reader Unit := do
  let mut text := if p.isAbsolute then "/" else "."
  for name in p.segments do
    if let some here ← real? text then
      unless name = [dot] || name = [dot, dot] do load o false keep (here ++ [name])
    text := text ++ "/" ++ Utf8.decode name
  if let some location ← real? text then load o deep keep location

def read (c : Config) : IO FileSystem := do
  let home := (← real? ".").getD []
  let run : Reader Unit := do
    load c.toSourceOptions false false home
    loadPath c.toSourceOptions false false c.output
    loadPath c.toSourceOptions true true c.root
  return (← run.run { fs := ⟨[], home⟩ }).2.fs

/-- Make the directories that are new, and write the output. -/
def update (c : Config) (before after : FileSystem) : IO Unit := do
  for (location, content) in after.entries do
    if content.isDirectory && (before.content? location).isNone then
      IO.FS.createDir (pathText location)
  match after.resolve c.output with
  | .ok location =>
    match after.content? location with
    | some (.file bytes) => IO.FS.writeBinFile (pathText location) bytes
    | _ => return
  | .error _ => return

end MethodExtraction.CommandLine.Disk
