import MethodExtraction.Files.IoError
import MethodExtraction.Files.Path

namespace MethodExtraction.Files

/-- The names from the top directory down, without links, `.` and `..`. -/
abbrev Location := List Name

/-- `null` takes everything and `full` nothing. -/
inductive Device where
  | null
  | full
  deriving DecidableEq, Inhabited, Repr

inductive Content where
  | directory
  | file (bytes : ByteArray)
  | link (target : Path)
  | device (device : Device)
  deriving Inhabited

def Content.isDirectory : Content → Bool
  | .directory => true
  | _ => false

/-- The entries of all directories, those of one directory in the order in which it lists them. The
top directory has no entry. Relative paths start at `home`. -/
structure FileSystem where
  entries : List (Location × Content)
  home : Location

/-- Where a path leads: to something, or to a place in a directory where nothing is. -/
inductive Target where
  | existing (location : Location)
  | vacant (location : Location)
  deriving DecidableEq, Inhabited

def linkLimit : Nat := 40

def nameLimit : Nat := 255

def pathLimit : Nat := 4095

def directorySize : Nat := 4096

def entryName? : (outer inner : Location) → Option Name
  | [], [name] => some name
  | a :: outer, b :: inner => if a = b then entryName? outer inner else none
  | _, _ => none

namespace FileSystem

def content? (fs : FileSystem) (location : Location) : Option Content :=
  if location = [] then some .directory else fs.entries.lookup location

def isDirectoryAt (fs : FileSystem) (location : Location) : Bool :=
  (fs.content? location).any Content.isDirectory

def list (fs : FileSystem) (location : Location) : List (Name × Content) :=
  fs.entries.filterMap fun (inner, content) => (entryName? location inner).map (·, content)

/-- Follow names from a location on. The last name may be vacant, and if it is a link it is followed
only if `followLast` is set; at most `links` links are followed in all. -/
def walk (fs : FileSystem) (followLast : Bool) (links : Nat) (here : Location) :
    List Name → Except IoError Target
  | [] => .ok (.existing here)
  | name :: rest =>
    if !fs.isDirectoryAt here then .error .notADirectory
    else if name = [dot] then fs.walk followLast links here rest
    else if name = [dot, dot] then fs.walk followLast links here.dropLast rest
    else if name.length > nameLimit then .error .nameTooLong
    else
      match fs.content? (here ++ [name]) with
      | none => if rest = [] then .ok (.vacant (here ++ [name])) else .error .notFound
      | some (.link target) =>
        if rest = [] && !followLast then .ok (.existing (here ++ [name]))
        else
          match links with
          | 0 => .error .linkLoop
          | links + 1 =>
            fs.walk followLast links (if target.isAbsolute then [] else here)
              (target.segments ++ (if target.endsInSlash then [[dot]] else []) ++ rest)
      | some _ => fs.walk followLast links (here ++ [name]) rest
termination_by names => (links, names.length)

def follow (fs : FileSystem) (followLast : Bool) (p : Path) (names : List Name) :
    Except IoError Target :=
  if p.bytes.contains 0 then .error .nulInPath
  else if p.bytes.length > pathLimit then .error .nameTooLong
  else if p.bytes = [] then .error .notFound
  else fs.walk followLast linkLimit (if p.isAbsolute then [] else fs.home) names

/-- The location of what a path leads to. A slash at the end asks for a directory. -/
def resolve (fs : FileSystem) (p : Path) : Except IoError Location := do
  match ← fs.follow true p (p.segments ++ if p.endsInSlash then [[dot]] else []) with
  | .existing location => .ok location
  | .vacant _ => .error .notFound

def contentOf (fs : FileSystem) (p : Path) : Except IoError Content := do
  match fs.content? (← fs.resolve p) with
  | some content => .ok content
  | none => .error .notFound

def isFile (fs : FileSystem) (p : Path) : Bool :=
  match fs.contentOf p with
  | .ok (.file _) => true
  | _ => false

def isDirectory (fs : FileSystem) (p : Path) : Bool :=
  match fs.contentOf p with
  | .ok content => content.isDirectory
  | .error _ => false

def size (fs : FileSystem) (p : Path) : Except IoError Nat := do
  match ← fs.contentOf p with
  | .directory => .ok directorySize
  | .file bytes => .ok bytes.size
  | .link target => .ok target.bytes.length
  | .device _ => .ok 0

def read (fs : FileSystem) (p : Path) : Except IoError ByteArray := do
  match ← fs.contentOf p with
  | .directory => .error .isADirectory
  | .file bytes => .ok bytes
  | .link _ => .error .linkLoop
  | .device .null => .ok .empty
  | .device .full => .error .outOfMemory

def isSourceFile (fs : FileSystem) (p : Path) (suffix : String) : Bool :=
  hasSuffix p suffix && fs.isFile p

end FileSystem

end MethodExtraction.Files
