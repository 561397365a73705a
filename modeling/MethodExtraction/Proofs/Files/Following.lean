import Mathlib.Data.List.Basic
import MethodExtraction.Files.FileSystem

namespace MethodExtraction.Files

def Path.names (p : Path) : List Name := p.segments ++ if p.endsInSlash then [[dot]] else []

namespace FileSystem

structure LooksUp (fs : FileSystem) (here : Location) (name : Name) : Prop where
  directory : fs.isDirectoryAt here = true
  ne_dot : name ≠ [dot]
  ne_dots : name ≠ [dot, dot]

inductive Walks (fs : FileSystem) (followLast : Bool) :
    Nat → Location → List Name → Except IoError Target → Prop where
  | arrived {links here} : Walks fs followLast links here [] (.ok (.existing here))
  | outside {links here name rest} (h : fs.isDirectoryAt here = false) :
      Walks fs followLast links here (name :: rest) (.error .notADirectory)
  | dot {links here rest r} (h : fs.isDirectoryAt here = true)
      (hw : Walks fs followLast links here rest r) :
      Walks fs followLast links here ([Files.dot] :: rest) r
  | dots {links here rest r} (h : fs.isDirectoryAt here = true)
      (hw : Walks fs followLast links here.dropLast rest r) :
      Walks fs followLast links here ([Files.dot, Files.dot] :: rest) r
  | long {links here name rest} (h : fs.LooksUp here name) (hl : nameLimit < name.length) :
      Walks fs followLast links here (name :: rest) (.error .nameTooLong)
  | vacant {links here name} (h : fs.LooksUp here name) (hl : name.length ≤ nameLimit)
      (hc : fs.content? (here ++ [name]) = none) :
      Walks fs followLast links here [name] (.ok (.vacant (here ++ [name])))
  | missing {links here name rest} (h : fs.LooksUp here name) (hl : name.length ≤ nameLimit)
      (hc : fs.content? (here ++ [name]) = none) (hr : rest ≠ []) :
      Walks fs followLast links here (name :: rest) (.error .notFound)
  | kept {links here name target} (h : fs.LooksUp here name) (hl : name.length ≤ nameLimit)
      (hc : fs.content? (here ++ [name]) = some (.link target)) (hf : followLast = false) :
      Walks fs followLast links here [name] (.ok (.existing (here ++ [name])))
  | loop {here name rest target} (h : fs.LooksUp here name) (hl : name.length ≤ nameLimit)
      (hc : fs.content? (here ++ [name]) = some (.link target))
      (hf : rest = [] → followLast = true) :
      Walks fs followLast 0 here (name :: rest) (.error .linkLoop)
  | link {links here name rest target r} (h : fs.LooksUp here name)
      (hl : name.length ≤ nameLimit) (hc : fs.content? (here ++ [name]) = some (.link target))
      (hf : rest = [] → followLast = true)
      (hw : Walks fs followLast links (if target.isAbsolute then [] else here)
        (target.names ++ rest) r) :
      Walks fs followLast (links + 1) here (name :: rest) r
  | enter {links here name rest content r} (h : fs.LooksUp here name)
      (hl : name.length ≤ nameLimit) (hc : fs.content? (here ++ [name]) = some content)
      (hn : ∀ target, content ≠ .link target)
      (hw : Walks fs followLast links (here ++ [name]) rest r) :
      Walks fs followLast links here (name :: rest) r

variable {fs : FileSystem} {followLast : Bool} {links : Nat} {here l : Location} {name : Name}
  {rest names more : List Name} {r : Except IoError Target}

theorem walks_walk (fs : FileSystem) (followLast : Bool) (links : Nat) (here : Location)
    (names : List Name) :
    fs.Walks followLast links here names (fs.walk followLast links here names) := by
  fun_induction fs.walk followLast links here names with
  | case1 links here => exact .arrived
  | case2 links here name rest hd => exact .outside (by simpa using hd)
  | case3 links here rest hd ih => exact .dot (by simpa using hd) ih
  | case4 links here rest hd _ ih => exact .dots (by simpa using hd) ih
  | case5 links here name rest hd h₁ h₂ hl => exact .long ⟨by simpa using hd, h₁, h₂⟩ hl
  | case6 links here name hd h₁ h₂ hl hc =>
    exact .vacant ⟨by simpa using hd, h₁, h₂⟩ (Nat.not_lt.1 hl) hc
  | case7 links here name rest hd h₁ h₂ hl hc hr =>
    exact .missing ⟨by simpa using hd, h₁, h₂⟩ (Nat.not_lt.1 hl) hc hr
  | case8 links here name rest hd h₁ h₂ hl target hc hf =>
    simp only [Bool.and_eq_true, decide_eq_true_eq, Bool.not_eq_true'] at hf
    obtain ⟨rfl, hf⟩ := hf
    exact .kept ⟨by simpa using hd, h₁, h₂⟩ (Nat.not_lt.1 hl) hc hf
  | case9 here name rest hd h₁ h₂ hl target hc hf =>
    exact .loop ⟨by simpa using hd, h₁, h₂⟩ (Nat.not_lt.1 hl) hc (by simpa using hf)
  | case10 here name rest hd h₁ h₂ hl target hc hf links ih =>
    exact .link ⟨by simpa using hd, h₁, h₂⟩ (Nat.not_lt.1 hl) hc (by simpa using hf) ih
  | case11 links here name rest hd h₁ h₂ hl content hn hc ih =>
    exact .enter ⟨by simpa using hd, h₁, h₂⟩ (Nat.not_lt.1 hl) hc hn ih

theorem LooksUp.walk_eq (h : fs.LooksUp here name) (hl : name.length ≤ nameLimit) :
    fs.walk followLast links here (name :: rest) =
      match fs.content? (here ++ [name]) with
      | none => if rest = [] then .ok (.vacant (here ++ [name])) else .error .notFound
      | some (.link target) =>
        if rest = [] && !followLast then .ok (.existing (here ++ [name]))
        else
          match links with
          | 0 => .error .linkLoop
          | links + 1 =>
            fs.walk followLast links (if target.isAbsolute then [] else here)
              (target.names ++ rest)
      | some _ => fs.walk followLast links (here ++ [name]) rest := by
  rw [walk, h.directory, Bool.not_true, if_neg Bool.false_ne_true, if_neg h.ne_dot,
    if_neg h.ne_dots, if_neg (Nat.not_lt.2 hl)]
  rfl

theorem Walks.eq (h : fs.Walks followLast links here names r) :
    fs.walk followLast links here names = r := by
  induction h with
  | arrived => rw [walk]
  | outside h =>
    rw [walk, h]
    rfl
  | dot h _ ih =>
    rw [walk, h]
    exact ih
  | dots h _ ih =>
    rw [walk, h]
    exact ih
  | long h hl =>
    rw [walk, h.directory, Bool.not_true, if_neg Bool.false_ne_true, if_neg h.ne_dot,
      if_neg h.ne_dots, if_pos hl]
  | vacant h hl hc => rw [h.walk_eq hl, hc, if_pos rfl]
  | missing h hl hc hr => rw [h.walk_eq hl, hc, if_neg hr]
  | kept h hl hc hf => simp [h.walk_eq hl, hc, hf]
  | loop h hl hc hf =>
    rw [h.walk_eq hl, hc]
    exact if_neg (by simpa using hf)
  | link h hl hc hf _ ih =>
    rw [h.walk_eq hl, hc]
    exact (if_neg (by simpa using hf)).trans ih
  | enter h hl hc hn _ ih =>
    rw [h.walk_eq hl, hc]
    split
    next hnone => cases hnone
    next target hlink => exact absurd (Option.some.inj hlink) (hn target)
    next => exact ih

theorem walks_iff : fs.Walks followLast links here names r ↔
    fs.walk followLast links here names = r := by
  refine ⟨Walks.eq, ?_⟩
  rintro rfl
  exact fs.walks_walk followLast links here names

namespace Walks

theorem followed (h : fs.Walks false links here names r) (hr : ∀ l, r ≠ .ok (.existing l)) :
    fs.Walks true links here names r := by
  induction h with
  | arrived => exact absurd rfl (hr _)
  | outside h => exact .outside h
  | dot h _ ih => exact .dot h (ih hr)
  | dots h _ ih => exact .dots h (ih hr)
  | long h hl => exact .long h hl
  | vacant h hl hc => exact .vacant h hl hc
  | missing h hl hc hn => exact .missing h hl hc hn
  | kept => exact absurd rfl (hr _)
  | loop h hl hc _ => exact .loop h hl hc fun _ => rfl
  | link h hl hc _ _ ih => exact .link h hl hc (fun _ => rfl) (ih hr)
  | enter h hl hc hn _ ih => exact .enter h hl hc hn (ih hr)

/-- Where names lead if no more names follow decides where they lead if some do. -/
theorem append (h : fs.Walks true links here names r) (hm : more ≠ []) (followLast : Bool) :
    ∃ links', fs.walk followLast links here (names ++ more) =
      match r with
      | .error e => .error e
      | .ok (.vacant _) => .error .notFound
      | .ok (.existing l) => fs.walk followLast links' l more := by
  have hne (rest : List Name) : rest ++ more = [] → followLast = true :=
    fun h => absurd (List.append_eq_nil_iff.1 h).2 hm
  induction h with
  | @arrived links here => exact ⟨links, rfl⟩
  | outside h => exact ⟨0, (Walks.outside h).eq⟩
  | dot h _ ih =>
    obtain ⟨links', he⟩ := ih
    exact ⟨links', he ▸ (Walks.dot h (fs.walks_walk ..)).eq⟩
  | dots h _ ih =>
    obtain ⟨links', he⟩ := ih
    exact ⟨links', he ▸ (Walks.dots h (fs.walks_walk ..)).eq⟩
  | long h hl => exact ⟨0, (Walks.long h hl).eq⟩
  | vacant h hl hc => exact ⟨0, (Walks.missing h hl hc hm).eq⟩
  | @missing links here name rest h hl hc hr =>
    exact ⟨0, (Walks.missing h hl hc fun h => hr (List.append_eq_nil_iff.1 h).1).eq⟩
  | kept _ _ _ hf => cases hf
  | @loop here name rest target h hl hc _ => exact ⟨0, (Walks.loop h hl hc (hne rest)).eq⟩
  | @link links here name rest target r h hl hc _ _ ih =>
    obtain ⟨links', he⟩ := ih
    rw [List.append_assoc] at he
    exact ⟨links', he ▸ (Walks.link h hl hc (hne rest) (fs.walks_walk ..)).eq⟩
  | enter h hl hc hn _ ih =>
    obtain ⟨links', he⟩ := ih
    exact ⟨links', he ▸ (Walks.enter h hl hc hn (fs.walks_walk ..)).eq⟩

end Walks

end FileSystem

end MethodExtraction.Files
