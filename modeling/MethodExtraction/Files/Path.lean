import MethodExtraction.Text.Utf8

namespace MethodExtraction.Files

open Text

abbrev Name := List UInt8

def slash : UInt8 := 0x2F

def dot : UInt8 := 0x2E

structure Path where
  bytes : List UInt8
  deriving DecidableEq, Inhabited, Repr

namespace Path

def ofText (text : String) : Path := ⟨Utf8.encode text⟩

def display (p : Path) : String := Utf8.decode p.bytes

def empty : Path := ⟨[]⟩

def isAbsolute (p : Path) : Bool := p.bytes.head? == some slash

def endsInSlash (p : Path) : Bool := p.bytes.getLast? == some slash

/-- The names on the way, `.` and `..` among them. -/
def segments (p : Path) : List Name := (p.bytes.splitOn slash).filter (· ≠ [])

def child (p : Path) (name : Name) : Path :=
  if p.bytes = [] || p.endsInSlash then ⟨p.bytes ++ name⟩ else ⟨p.bytes ++ slash :: name⟩

/-- From the end: a path without the slashes and `.` names at its end. A slash or a `.` that is all
there is stays. -/
def trimmed : List UInt8 → List UInt8
  | a :: b :: rest =>
    if a = slash then trimmed (b :: rest)
    else if a = dot && b = slash then trimmed (b :: rest)
    else a :: b :: rest
  | bytes => bytes

/-- The last name, unless it is `..` or the path has none. -/
def fileName? (p : Path) : Option Name :=
  let name := ((trimmed p.bytes.reverse).takeWhile (· ≠ slash)).reverse
  if name = [] || name = [dot] || name = [dot, dot] then none else some name

def parent? (p : Path) : Option Path :=
  let bytes := trimmed p.bytes.reverse
  if bytes = [] || bytes = [slash] then none
  else some ⟨(trimmed (bytes.dropWhile (· ≠ slash))).reverse⟩

theorem length_trimmed (bytes : List UInt8) : (trimmed bytes).length ≤ bytes.length := by
  fun_induction trimmed bytes <;> grind

end Path

/-- Whether the last name of a path, as it is shown, ends in `suffix`. -/
def hasSuffix (p : Path) (suffix : String) : Bool :=
  match p.fileName? with
  | none => false
  | some name => (Utf8.decode name).endsWith suffix

end MethodExtraction.Files
