import MethodExtraction.Files.FileSystem

namespace MethodExtraction.Files

abbrev Change := EStateM IoError FileSystem

theorem Path.head?_trimmed_ne_slash {a b : UInt8} {bytes rest : List UInt8}
    (h : trimmed bytes = a :: b :: rest) : a ≠ slash := by
  fun_induction trimmed bytes <;> grind

theorem Path.length_parent?_lt {p q : Path} (h : p.parent? = some q) :
    q.bytes.length < p.bytes.length := by
  unfold parent? at h
  have hp := length_trimmed p.bytes.reverse
  rw [List.length_reverse] at hp
  match ht : trimmed p.bytes.reverse with
  | [] => simp [ht] at h
  | [a] =>
    by_cases ha : a = slash
    · simp [ht, ha] at h
    · simp only [ht] at h hp
      simp only [reduceCtorEq, decide_false, List.cons.injEq, ha, and_true, Bool.or_self,
        Bool.false_eq_true, ↓reduceIte, Option.some.injEq] at h
      subst h
      simp [List.dropWhile, ha, trimmed] at hp ⊢
      omega
  | a :: b :: rest =>
    have ha := head?_trimmed_ne_slash ht
    have hd := length_trimmed ((b :: rest).dropWhile (· ≠ slash))
    have hs := (List.dropWhile_sublist (· ≠ slash) (l := b :: rest)).length_le
    simp only [ht, reduceCtorEq, decide_false, List.cons.injEq, and_false, Bool.or_self,
      Bool.false_eq_true, ↓reduceIte, Option.some.injEq] at h
    subst h
    rw [ht] at hp
    simp only [List.length_cons] at hp hs
    rw [List.dropWhile_cons_of_pos (by simpa using ha), List.length_reverse]
    omega

namespace FileSystem

/-- Let something be at a location, in place of what is there, else as the last entry. -/
def put (fs : FileSystem) (location : Location) (content : Content) : FileSystem :=
  if (fs.entries.lookup location).isSome then
    { fs with entries := fs.entries.map fun e => if e.1 = location then (location, content) else e }
  else { fs with entries := fs.entries ++ [(location, content)] }

def erase (fs : FileSystem) (location : Location) : FileSystem :=
  { fs with entries := fs.entries.filter fun e => !location.isPrefixOf e.1 }

end FileSystem

namespace Change

def makeDirectory (p : Path) : Change Unit := fun fs =>
  match fs.follow false p p.segments with
  | .ok (.vacant location) => .ok () (fs.put location .directory)
  | .ok (.existing _) => .error .alreadyExists fs
  | .error e => .error e fs

/-- The outcome of making a directory that may be there already. -/
def orDirectory (p : Path) (change : Change Unit) : Change Unit := fun fs =>
  match change fs with
  | .ok () fs => .ok () fs
  | .error e fs => if fs.isDirectory p then .ok () fs else .error e fs

/-- Make a directory and those above it, as far as they are missing. What has been made stays if one
of them cannot be. -/
def makeDirectories (p : Path) : Change Unit := fun fs =>
  if p.bytes = [] then .ok () fs
  else
    match makeDirectory p fs with
    | .error .notFound fs =>
      match _h : p.parent? with
      | none => .error (.other "failed to create whole tree") fs
      | some parent =>
        match makeDirectories parent fs with
        | .ok () fs => orDirectory p (makeDirectory p) fs
        | .error e fs => .error e fs
    | _ => orDirectory p (makeDirectory p) fs
termination_by p.bytes.length
decreasing_by exact Path.length_parent?_lt _h

def makeParents (p : Path) : Change Unit :=
  match p.parent? with
  | none => pure ()
  | some parent => makeDirectories parent

/-- What a path names as a file to write. A slash at the end asks for a directory. -/
def writable (p : Path) (fs : FileSystem) : Except IoError Target :=
  if p.endsInSlash then
    (fs.follow true p (p.segments.dropLast ++ [[dot]])).bind fun _ => .error .isADirectory
  else fs.follow true p p.segments

/-- Open a file for writing: it is made if there is none, and emptied if there is one. -/
def create (p : Path) : Change Location := fun fs =>
  match writable p fs with
  | .error e => .error e fs
  | .ok (.vacant location) => .ok location (fs.put location (.file .empty))
  | .ok (.existing location) =>
    match fs.content? location with
    | some (.file _) => .ok location (fs.put location (.file .empty))
    | some (.device _) => .ok location fs
    | some .directory => .error .isADirectory fs
    | _ => .error .notFound fs

def append (location : Location) (bytes : ByteArray) : Change Unit := fun fs =>
  match fs.content? location with
  | some (.file written) => .ok () (fs.put location (.file (written ++ bytes)))
  | some (.device .null) => .ok () fs
  | some (.device .full) => if bytes.isEmpty then .ok () fs else .error .noSpace fs
  | _ => .error .notFound fs

def save (p : Path) (bytes : ByteArray) : Change Unit := do
  makeParents p
  append (← create p) bytes

def makeLink (p target : Path) : Change Unit := do
  makeParents p
  fun fs =>
    match fs.follow false p p.segments with
    | .ok (.vacant location) => .ok () (fs.put location (.link target))
    | .ok (.existing _) => .error .alreadyExists fs
    | .error e => .error e fs

def remove (p : Path) : Change Unit := fun fs =>
  match fs.follow false p p.segments with
  | .ok (.existing location) => .ok () (fs.erase location)
  | .ok (.vacant _) => .error .notFound fs
  | .error e => .error e fs

end Change

end MethodExtraction.Files
