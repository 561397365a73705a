import MethodExtraction.Files.FileSystem

namespace MethodExtraction.Files

structure WalkOptions where
  followLinks : Bool := false
  maxDepth : Option Nat := none
  sorted : Bool := false
  deriving DecidableEq, Inhabited, Repr

structure SourceOptions extends WalkOptions where
  suffix : String := ".java"
  deriving DecidableEq, Inhabited, Repr

inductive WalkError where
  | unreachable (path : Path) (cause : IoError)
  /-- A directory that was visited but not read: it is read by its path, which may be too long. -/
  | unreadable (path : Path) (cause : IoError)
  | loop (path ancestor : Path)
  deriving DecidableEq, Inhabited, Repr

namespace WalkError

def path : WalkError → Path
  | .unreachable path _ => path
  | .unreadable path _ => path
  | .loop path _ => path

def text : WalkError → String
  | .unreachable path cause | .unreadable path cause =>
    "IO error for operation on " ++ path.display ++ ": " ++ cause.text
  | .loop path ancestor =>
    "File system loop found: " ++ path.display ++ " points to an ancestor " ++ ancestor.display

end WalkError

structure OpenDirectory where
  path : Path
  location : Location
  deriving DecidableEq, Inhabited, Repr

abbrev Visit := Except WalkError Path

theorem entryName?_eq_some {outer inner : Location} {name : Name}
    (h : entryName? outer inner = some name) : inner = outer ++ [name] := by
  fun_induction entryName? outer inner <;> simp_all

theorem entryName?_append (outer : Location) (name : Name) :
    entryName? outer (outer ++ [name]) = some name := by
  induction outer with
  | nil => rfl
  | cons a outer ih => simpa [entryName?] using ih

namespace FileSystem

theorem mem_list {fs : FileSystem} {location : Location} {name : Name} {content : Content} :
    (name, content) ∈ fs.list location ↔ (location ++ [name], content) ∈ fs.entries := by
  simp only [list, List.mem_filterMap, Option.map_eq_some_iff, Prod.mk.injEq, Prod.exists]
  constructor
  · rintro ⟨inner, _, hm, _, hn, rfl, rfl⟩
    rwa [← entryName?_eq_some hn]
  · intro hm
    exact ⟨_, _, hm, name, entryName?_append location name, rfl, rfl⟩

def arranged (fs : FileSystem) (sorted : Bool) (location : Location) : List (Name × Content) :=
  if sorted then (fs.list location).mergeSort fun a b => decide (a.1 ≤ b.1) else fs.list location

theorem mem_arranged {fs : FileSystem} {sorted : Bool} {location : Location} {name : Name}
    {content : Content} :
    (name, content) ∈ fs.arranged sorted location ↔
      (location ++ [name], content) ∈ fs.entries := by
  unfold arranged
  split
  · rw [List.mem_mergeSort, mem_list]
  · exact mem_list

def directories (fs : FileSystem) : List Location :=
  [] :: (fs.entries.filter (·.2.isDirectory)).map (·.1)

theorem mem_directories {fs : FileSystem} {location : Location}
    (h : fs.isDirectoryAt location = true) : location ∈ fs.directories := by
  obtain ⟨content, hc, hd⟩ := (Option.any_eq_true ..).1 h
  unfold content? at hc
  split at hc
  · simp_all [directories]
  · obtain ⟨_, _, he, _⟩ := List.lookup_eq_some_iff.1 hc
    simp only [directories, List.mem_cons, List.mem_map, List.mem_filter, he]
    exact .inr ⟨_, ⟨List.mem_append_right _ (List.mem_cons_self ..), hd⟩, rfl⟩

/-- How many directories there are besides those that are known. -/
def others (fs : FileSystem) (known : List Location) : Nat :=
  fs.directories.countP fun l => !known.contains l

theorem others_cons_le (fs : FileSystem) (location : Location) (known : List Location) :
    fs.others (location :: known) ≤ fs.others known :=
  List.countP_mono_left fun l _ _ => by simp_all

theorem countP_lt_countP {α : Type} {p q : α → Bool} {a : α} {as : List α}
    (himp : ∀ b, p b → q b) (ha : a ∈ as) (hp : p a = false) (hq : q a = true) :
    as.countP p < as.countP q := by
  induction as with
  | nil => simp at ha
  | cons b as ih =>
    have hle : as.countP p ≤ as.countP q := List.countP_mono_left fun b _ => himp b
    rcases List.mem_cons.1 ha with rfl | ha
    · simp only [List.countP_cons, hp, hq]
      simp only [Bool.false_eq_true, ↓reduceIte]
      omega
    · have := ih ha
      have := himp b
      simp only [List.countP_cons]
      split <;> split <;> first | omega | simp_all

theorem others_cons_lt {fs : FileSystem} {location : Location} {known : List Location}
    (h : location ∈ fs.directories) (hn : location ∉ known) :
    fs.others (location :: known) < fs.others known :=
  countP_lt_countP (fun l hl => by simp_all) h (by simp) (by simpa using hn)

def height (fs : FileSystem) : Nat := (fs.entries.map (·.1.length)).foldr max 0

theorem length_le_height {fs : FileSystem} {location : Location} {content : Content}
    (h : (location, content) ∈ fs.entries) : location.length ≤ fs.height := by
  unfold height
  generalize fs.entries = entries at h
  induction entries with
  | nil => simp at h
  | cons e es ih =>
    rcases List.mem_cons.1 h with rfl | h
    · exact Nat.le_max_left ..
    · exact Nat.le_trans (ih h) (Nat.le_max_right ..)

/-- What is visited in a directory, which is open below those of `trail`. A link is followed into a
directory only if that is not open: each such step leaves fewer directories that are not, and each
other step leads deeper. -/
def contents (fs : FileSystem) (o : WalkOptions) (trail : List OpenDirectory)
    (here : OpenDirectory) : List Visit :=
  let opened := here :: trail
  if o.maxDepth.any (· < opened.length) then []
  else if pathLimit < here.path.bytes.length then [.error (.unreadable here.path .nameTooLong)]
  else
    (fs.arranged o.sorted here.location).attach.flatMap fun ⟨(name, content), _h⟩ =>
      let path := here.path.child name
      match content with
      | .directory =>
        .ok path :: fs.contents o opened ⟨path, here.location ++ [name]⟩
      | .link _ =>
        if o.followLinks then
          match fs.resolve path with
          | .error e => [.error (.unreachable path e)]
          | .ok location =>
            if _hd : fs.isDirectoryAt location then
              match _hf : opened.find? (·.location == location) with
              | some ancestor => [.error (.loop path ancestor.path)]
              | none => .ok path :: fs.contents o opened ⟨path, location⟩
            else [.ok path]
        else [.ok path]
      | _ => [.ok path]
termination_by
  (fs.others ((here :: trail).map (·.location)), fs.height - here.location.length)
decreasing_by
  · have he := mem_arranged.1 _h
    have hl := length_le_height he
    have hle := fs.others_cons_le (here.location ++ [name]) ((here :: trail).map (·.location))
    simp only [List.length_append, List.length_singleton] at hl
    simp only [List.map_cons, List.length_append, List.length_singleton] at hle ⊢
    rcases Nat.lt_or_eq_of_le hle with hlt | _
    · exact Prod.Lex.left _ _ hlt
    · exact Prod.Lex.right' _ hle (by omega)
  · refine Prod.Lex.left _ _ (others_cons_lt (mem_directories _hd) ?_)
    intro hm
    obtain ⟨d, hd, he⟩ := List.mem_map.1 hm
    exact List.find?_eq_none.1 _hf d hd (by simpa using he)

def visits (fs : FileSystem) (o : WalkOptions) (root : Path) : List Visit :=
  match fs.resolve root with
  | .error e => [.error (.unreachable root e)]
  | .ok location =>
    .ok root :: if fs.isDirectoryAt location then fs.contents o [] ⟨root, location⟩ else []

def sourceFiles (fs : FileSystem) (o : SourceOptions) (root : Path) : List Visit :=
  (fs.visits o.toWalkOptions root).filter fun
    | .ok p => fs.isSourceFile p o.suffix
    | .error _ => true

end FileSystem

end MethodExtraction.Files
