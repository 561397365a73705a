import MethodExtraction.Files.Change
import MethodExtraction.Proofs.Files.Following
import MethodExtraction.Proofs.Files.Visiting

namespace MethodExtraction.Files

namespace FileSystem

variable {fs : FileSystem} {l : Location}

theorem content?_of_ne_nil {location : Location} (h : location ≠ []) :
    fs.content? location = fs.entries.lookup location := if_neg h

theorem lookup_replace (entries : List (Location × Content)) (location l : Location)
    (content : Content) :
    (entries.map fun e => if e.1 = location then (location, content) else e).lookup l =
      if l = location then (entries.lookup location).map fun _ => content
      else entries.lookup l := by
  induction entries with
  | nil => split <;> rfl
  | cons e entries ih =>
    obtain ⟨key, value⟩ := e
    rw [List.map_cons, List.lookup_cons, List.lookup_cons, List.lookup_cons, ih]
    by_cases hk : key = location
    · subst hk
      by_cases hl : l = key
      · simp [hl]
      · simp [hl, beq_eq_false_iff_ne.2 hl]
    · by_cases hl : l = location
      · subst hl
        simp [hk, beq_eq_false_iff_ne.2 (Ne.symm hk)]
      · simp [hk, hl]

theorem home_put (fs : FileSystem) (location : Location) (content : Content) :
    (fs.put location content).home = fs.home := by
  rw [put]
  split <;> rfl

theorem content?_put {location : Location} (h : location ≠ []) (content : Content) :
    (fs.put location content).content? l =
      if l = location then some content else fs.content? l := by
  by_cases hl : l = []
  · subst hl
    rw [if_neg (Ne.symm h)]
    rfl
  rw [content?_of_ne_nil hl, content?_of_ne_nil hl, put]
  split
  next hs =>
    obtain ⟨old, ho⟩ := Option.isSome_iff_exists.1 hs
    rw [lookup_replace, ho]
    rfl
  next hs =>
    have hn : fs.entries.lookup location = none := Option.not_isSome_iff_eq_none.1 hs
    rw [List.lookup_append]
    by_cases he : l = location
    · subst he
      simp [hn]
    · simp [List.lookup_cons, beq_eq_false_iff_ne.2 he, he]

theorem content?_put_self {location : Location} (h : location ≠ []) (content : Content) :
    (fs.put location content).content? location = some content := by
  rw [content?_put h, if_pos rfl]

theorem replace_of_lookup_eq_none {entries : List (Location × Content)} {location : Location}
    (h : entries.lookup location = none) (content : Content) :
    (entries.map fun e => if e.1 = location then (location, content) else e) = entries := by
  rw [List.lookup_eq_none_iff] at h
  refine (List.map_congr_left fun e he => if_neg fun hk => ?_).trans (List.map_id _)
  exact absurd (h e he) (by simp [hk])

theorem put_put (fs : FileSystem) (location : Location) (content content' : Content) :
    (fs.put location content).put location content' = fs.put location content' := by
  unfold put
  by_cases hs : (fs.entries.lookup location).isSome = true
  · have hs' : ((fs.entries.map fun e => if e.1 = location then (location, content) else e).lookup
        location).isSome = true := by
      rw [lookup_replace, if_pos rfl, Option.isSome_map]
      exact hs
    simp only [if_pos hs, if_pos hs', List.map_map, FileSystem.mk.injEq, and_true]
    refine List.map_congr_left fun e _ => ?_
    by_cases he : e.1 = location
    · simp [he]
    · simp [he]
  · have hn : fs.entries.lookup location = none := Option.not_isSome_iff_eq_none.1 hs
    have hs' : ((fs.entries ++ [(location, content)]).lookup location).isSome = true := by
      simp [List.lookup_append, hn]
    simp only [if_neg hs, if_pos hs', List.map_append, replace_of_lookup_eq_none hn,
      List.map_cons, if_true, List.map_nil]

end FileSystem

def Content.outline : Content → Content
  | .file _ => .file .empty
  | c => c

namespace FileSystem

variable {fs : FileSystem} {l : Location}

/-- A file system without the bytes of its files. -/
def outline (fs : FileSystem) : FileSystem :=
  { fs with entries := fs.entries.map fun e => (e.1, e.2.outline) }

theorem content?_outline : fs.outline.content? l = (fs.content? l).map Content.outline := by
  have hlookup (entries : List (Location × Content)) :
      (entries.map fun e => (e.1, e.2.outline)).lookup l =
        (entries.lookup l).map Content.outline := by
    induction entries with
    | nil => rfl
    | cons e entries ih =>
      rw [List.map_cons, List.lookup_cons, List.lookup_cons, ih]
      cases l == e.1 <;> rfl
  by_cases hl : l = []
  · subst hl
    rfl
  · rw [content?_of_ne_nil hl, content?_of_ne_nil hl]
    exact hlookup fs.entries

theorem isDirectoryAt_eq_outline (fs : FileSystem) (l : Location) :
    fs.isDirectoryAt l = ((fs.content? l).map Content.outline).any Content.isDirectory := by
  rw [isDirectoryAt]
  cases fs.content? l with
  | none => rfl
  | some c => cases c <;> rfl

theorem isDirectoryAt_outline : fs.outline.isDirectoryAt l = fs.isDirectoryAt l := by
  rw [isDirectoryAt_eq_outline fs, isDirectoryAt, content?_outline]

/-- Where names lead does not depend on the bytes of files, nor on the order of entries. -/
theorem Walks.of_outline {fs' : FileSystem}
    (hc : ∀ l, (fs'.content? l).map Content.outline = (fs.content? l).map Content.outline)
    {followLast : Bool} {links : Nat} {here : Location} {names : List Name}
    {r : Except IoError Target} (h : fs.Walks followLast links here names r) :
    fs'.Walks followLast links here names r := by
  have hd (l : Location) : fs'.isDirectoryAt l = fs.isDirectoryAt l := by
    rw [isDirectoryAt_eq_outline, isDirectoryAt_eq_outline, hc]
  have hlook {here : Location} {name : Name} (h : fs.LooksUp here name) :
      fs'.LooksUp here name := ⟨(hd here).trans h.directory, h.ne_dot, h.ne_dots⟩
  have hnone {l : Location} (h : fs.content? l = none) : fs'.content? l = none := by
    have hl := hc l
    rw [h] at hl
    exact Option.map_eq_none_iff.1 hl
  have hsome {l : Location} {c : Content} (h : fs.content? l = some c) :
      ∃ c', fs'.content? l = some c' ∧ c'.outline = c.outline := by
    have hl := hc l
    rw [h] at hl
    exact Option.map_eq_some_iff.1 hl
  have hlink {l : Location} {target : Path} (h : fs.content? l = some (.link target)) :
      fs'.content? l = some (.link target) := by
    obtain ⟨c, hc', he⟩ := hsome h
    cases c <;> cases he
    exact hc'
  induction h with
  | arrived => exact .arrived
  | outside h => exact .outside ((hd _).trans h)
  | dot h _ ih => exact .dot ((hd _).trans h) ih
  | dots h _ ih => exact .dots ((hd _).trans h) ih
  | long h hl => exact .long (hlook h) hl
  | vacant h hl hn => exact .vacant (hlook h) hl (hnone hn)
  | missing h hl hn hr => exact .missing (hlook h) hl (hnone hn) hr
  | kept h hl hk hf => exact .kept (hlook h) hl (hlink hk) hf
  | loop h hl hk hf => exact .loop (hlook h) hl (hlink hk) hf
  | link h hl hk hf _ ih => exact .link (hlook h) hl (hlink hk) hf ih
  | @enter links here name rest content r h hl hk hn _ ih =>
    obtain ⟨c, hc', he⟩ := hsome hk
    refine .enter (hlook h) hl hc' ?_ ih
    rintro target rfl
    cases content with
    | link t => exact hn t rfl
    | _ => cases he

theorem walk_outline (followLast : Bool) (links : Nat) (here : Location) (names : List Name) :
    fs.outline.walk followLast links here names = fs.walk followLast links here names := by
  apply Walks.eq
  apply (fs.walks_walk followLast links here names).of_outline
  intro l
  rw [content?_outline, Option.map_map]
  cases fs.content? l with
  | none => rfl
  | some c => cases c <;> rfl

theorem follow_outline (followLast : Bool) (p : Path) (names : List Name) :
    fs.outline.follow followLast p names = fs.follow followLast p names := by
  simp only [follow, walk_outline]
  rfl

theorem resolve_outline (p : Path) : fs.outline.resolve p = fs.resolve p := by
  rw [resolve, resolve, follow_outline]

theorem isFile_outline (p : Path) : fs.outline.isFile p = fs.isFile p := by
  rw [isFile, isFile, contentOf, contentOf, resolve_outline]
  cases fs.resolve p with
  | error e => rfl
  | ok l =>
    simp only [bind, Except.bind, content?_outline]
    cases fs.content? l with
    | none => rfl
    | some c => cases c <;> rfl

theorem list_outline : fs.outline.list l = (fs.list l).map fun e => (e.1, e.2.outline) := by
  rw [list, list, outline, List.filterMap_map, List.map_filterMap]
  refine List.filterMap_congr fun e _ => ?_
  obtain ⟨inner, content⟩ := e
  simp only [Function.comp_apply, Option.map_map]
  rfl

theorem arranged_outline (sorted : Bool) :
    fs.outline.arranged sorted l = (fs.arranged sorted l).map fun e => (e.1, e.2.outline) := by
  rw [arranged, arranged, list_outline]
  split
  · symm
    exact List.map_mergeSort (f := fun e : Name × Content => (e.1, e.2.outline)) fun _ _ _ _ => rfl
  · rfl

theorem visitEntry_congr {fs' : FileSystem} (hr : ∀ p, fs'.resolve p = fs.resolve p)
    (hd : ∀ l, fs'.isDirectoryAt l = fs.isDirectoryAt l) (followLinks : Bool)
    (trail : List OpenDirectory) (here : OpenDirectory) (e : Name × Content) :
    fs'.visitEntry followLinks trail here e = fs.visitEntry followLinks trail here e := by
  obtain ⟨name, content⟩ := e
  cases content with
  | link target => simp only [visitEntry, hr, hd]
  | _ => rfl

theorem visitEntry_outline (followLinks : Bool) (trail : List OpenDirectory)
    (here : OpenDirectory) (e : Name × Content) :
    fs.outline.visitEntry followLinks trail here (e.1, e.2.outline) =
      fs.visitEntry followLinks trail here e := by
  rw [visitEntry_congr resolve_outline fun _ => isDirectoryAt_outline]
  obtain ⟨name, content⟩ := e
  cases content <;> rfl

theorem contents_outline (o : WalkOptions) (trail : List OpenDirectory) (here : OpenDirectory) :
    fs.outline.contents o trail here = fs.contents o trail here := by
  induction trail, here using contents_induction fs o with
  | step trail here ih =>
    obtain hd | ⟨hd, hlong⟩ | hl := listed_cases o trail here
    · rw [contents_of_deep hd, contents_of_deep hd]
    · rw [contents_of_long hd hlong, contents_of_long hd hlong]
    · rw [hl.contents_eq, hl.contents_eq, arranged_outline, List.flatMap_map]
      apply List.flatMap_congr
      intro e he
      rw [entryVisits, entryVisits, visitEntry_outline]
      obtain ⟨v, hv, -⟩ | ⟨l, hl', hv⟩ := fs.visitEntry_cases o.followLinks trail here e
      · rw [hv]
        rfl
      · rw [hv]
        exact congrArg _ (ih hl e he l hl')

theorem visits_outline (o : WalkOptions) (root : Path) :
    fs.outline.visits o root = fs.visits o root := by
  simp only [visits, resolve_outline, isDirectoryAt_outline, contents_outline]

theorem sourceFiles_outline (o : SourceOptions) (root : Path) :
    fs.outline.sourceFiles o root = fs.sourceFiles o root := by
  simp only [sourceFiles, visits_outline, isSourceFile, isFile_outline]

theorem outline_put_file (fs : FileSystem) (location : Location) (bytes bytes' : ByteArray) :
    (fs.put location (.file bytes)).outline = (fs.put location (.file bytes')).outline := by
  unfold put outline
  split
  · simp only [List.map_map, FileSystem.mk.injEq, and_true]
    refine List.map_congr_left fun e _ => ?_
    simp only [Function.comp_apply]
    split <;> rfl
  · simp only [List.map_append, List.map_cons, List.map_nil]
    rfl

/-- Everything that one file system has is in the other one too, but for the bytes of files. -/
structure Extends (fs fs' : FileSystem) : Prop where
  home : fs'.home = fs.home
  content : ∀ l c, fs.content? l = some c →
    ∃ c', fs'.content? l = some c' ∧ c'.outline = c.outline

variable {fs' : FileSystem} {followLast : Bool} {links : Nat} {here location : Location}
  {name : Name} {names : List Name} {content : Content}

namespace Extends

theorem isDirectoryAt (hx : fs.Extends fs') (h : fs.isDirectoryAt l = true) :
    fs'.isDirectoryAt l = true := by
  obtain ⟨c, hc, hd⟩ := (Option.any_eq_true ..).1 h
  obtain ⟨c', hc', he⟩ := hx.content l c hc
  rw [FileSystem.isDirectoryAt, hc']
  cases c <;> cases hd
  cases c' <;> cases he
  rfl

theorem looksUp (hx : fs.Extends fs') (h : fs.LooksUp here name) : fs'.LooksUp here name :=
  ⟨hx.isDirectoryAt h.directory, h.ne_dot, h.ne_dots⟩

theorem link (hx : fs.Extends fs') {target : Path} (h : fs.content? l = some (.link target)) :
    fs'.content? l = some (.link target) := by
  obtain ⟨c', hc', he⟩ := hx.content l _ h
  cases c' <;> cases he
  exact hc'

theorem enter (hx : fs.Extends fs') {c : Content} (h : fs.content? l = some c)
    (hn : ∀ target, c ≠ .link target) :
    ∃ c', fs'.content? l = some c' ∧ ∀ target, c' ≠ .link target := by
  obtain ⟨c', hc', he⟩ := hx.content l c h
  refine ⟨c', hc', ?_⟩
  rintro target rfl
  cases c with
  | link t => exact hn t rfl
  | _ => cases he

end Extends

theorem Walks.extends (h : fs.Walks followLast links here names (.ok (.existing l)))
    (hx : fs.Extends fs') : fs'.Walks followLast links here names (.ok (.existing l)) := by
  generalize hr : Except.ok (Target.existing l) = r at h
  induction h with
  | arrived => exact .arrived
  | dot h _ ih => exact .dot (hx.isDirectoryAt h) (ih hr)
  | dots h _ ih => exact .dots (hx.isDirectoryAt h) (ih hr)
  | kept h hl hc hf => exact .kept (hx.looksUp h) hl (hx.link hc) hf
  | link h hl hc hf _ ih => exact .link (hx.looksUp h) hl (hx.link hc) hf (ih hr)
  | enter h hl hc hn _ ih =>
    obtain ⟨c', hc', hn'⟩ := hx.enter hc hn
    exact .enter (hx.looksUp h) hl hc' hn' (ih hr)
  | _ => cases hr

theorem Walks.content?_vacant (h : fs.Walks followLast links here names (.ok (.vacant l))) :
    l ≠ [] ∧ fs.content? l = none := by
  generalize hr : Except.ok (Target.vacant l) = r at h
  induction h with
  | vacant h hl hc =>
    cases hr
    exact ⟨by simp, hc⟩
  | dot _ _ ih | dots _ _ ih | link _ _ _ _ _ ih | enter _ _ _ _ _ ih => exact ih hr
  | _ => cases hr

theorem extends_put (hl : location ≠ [])
    (hc : ∀ c, fs.content? location = some c → content.outline = c.outline) :
    fs.Extends (fs.put location content) where
  home := home_put fs location content
  content := by
    intro l c hlc
    rw [content?_put hl]
    split
    next h => exact ⟨content, rfl, hc c (h ▸ hlc)⟩
    next => exact ⟨c, hlc, rfl⟩

theorem Walks.put_vacant (h : fs.Walks followLast links here names (.ok (.vacant l)))
    (hn : ∀ target, content ≠ .link target) :
    (fs.put l content).Walks true links here names (.ok (.existing l)) := by
  obtain ⟨hne, hnone⟩ := h.content?_vacant
  have hx : fs.Extends (fs.put l content) := extends_put hne (by rw [hnone]; nofun)
  generalize hr : Except.ok (Target.vacant l) = r at h
  induction h with
  | vacant h hl hc =>
    cases hr
    exact .enter (hx.looksUp h) hl (content?_put_self hne content) hn .arrived
  | dot h _ ih => exact .dot (hx.isDirectoryAt h) (ih hr)
  | dots h _ ih => exact .dots (hx.isDirectoryAt h) (ih hr)
  | link h hl hc hf _ ih => exact .link (hx.looksUp h) hl (hx.link hc) (fun _ => rfl) (ih hr)
  | enter h hl hc hn' _ ih =>
    obtain ⟨c', hc', hn''⟩ := hx.enter hc hn'
    exact .enter (hx.looksUp h) hl hc' hn'' (ih hr)
  | _ => cases hr

end FileSystem

end MethodExtraction.Files
