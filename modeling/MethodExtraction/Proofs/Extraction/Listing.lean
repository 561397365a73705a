import MethodExtraction.Proofs.Extraction.Counts
import MethodExtraction.Proofs.Extraction.Endings
import MethodExtraction.Proofs.Files.Reordering
import MethodExtraction.Proofs.Java.Completeness

namespace MethodExtraction.Extraction

open Files Java Output Text

section

variable {fs fs' : FileSystem} {p : Path} {limit : Option Nat}

theorem extractFile_of_reordered (h : fs.Reordered fs') :
    extractFile fs' limit p = extractFile fs limit p := by
  simp only [extractFile, checkSize, readSource, FileSystem.size, FileSystem.read, h.contentOf]

structure NeverFails {σ : Type} (sink : RecordSink σ) (s₀ : σ) : Prop where
  start : ∀ s, Reaches sink s₀ s → ∃ s', sink.start s = .ok () s'
  write : ∀ s r, Reaches sink s₀ s → ∃ s', sink.write r s = .ok () s'
  finish : ∀ s, Reaches sink s₀ s → ∃ s', sink.finish s = .ok () s'

def fullReport (fs : FileSystem) (limit : Option Nat) (p : Path) : FileReport :=
  match extractFile fs limit p with
  | .error e => ⟨p, .failed (.ofError e), []⟩
  | .ok records => ⟨p, .parsed records.length 0, []⟩

theorem exists_of_bind_eq_ok {ε α β : Type} {x : Except ε α} {f : α → Except ε β} {b : β}
    (h : x >>= f = .ok b) : ∃ a, x = .ok a ∧ f a = .ok b := by
  cases x with
  | error e => cases h
  | ok a => exact ⟨a, rfl, h⟩

theorem exists_of_map_eq_ok {ε α β : Type} {x : Except ε α} {f : α → β} {b : β}
    (h : x.map f = .ok b) : ∃ a, x = .ok a ∧ f a = b := by
  cases x with
  | error e => cases h
  | ok a => exact ⟨a, rfl, Except.ok.inj h⟩

theorem eq_ok_of_mapError {ε ε' α : Type} {x : Except ε α} {f : ε → ε'} {a : α}
    (h : x.mapError f = .ok a) : x = .ok a := by
  cases x with
  | error e => cases h
  | ok b => exact congrArg _ (Except.ok.inj h)

theorem offered_cases (fs : FileSystem) (limit : Option Nat) (p : Path) :
    offered fs limit p = [] ∨ ∃ text root, readSource fs p = .ok text ∧ parse text = .ok root ∧
      offered fs limit p = (root.preorder.filter Node.isMethod).filterMap (Node.record? text) := by
  rw [offered, ← toOption_extractFile]
  cases hx : extractFile fs limit p with
  | error e => exact .inl rfl
  | ok records =>
    right
    obtain ⟨u, -, hread⟩ := exists_of_bind_eq_ok hx
    obtain ⟨text, ht, hsource⟩ := exists_of_bind_eq_ok hread
    have hm : methods text = .ok records := eq_ok_of_mapError (eq_ok_of_mapError hsource)
    obtain ⟨root, hp, rfl⟩ := exists_of_map_eq_ok hm
    exact ⟨text, root, ht, hp, root.methods_eq_filterMap_filter text⟩

end

instance : RightCommutative fun (stats : Statistics) (file : FileReport) =>
    stats.record file.outcome where
  right_comm stats a b := by
    cases a.outcome <;> cases b.outcome <;> simp [Statistics.record, Nat.add_right_comm]

theorem Statistics.recordAll_of_perm (stats : Statistics) {reports reports' : List FileReport}
    (h : reports'.Perm reports) : stats.recordAll reports' = stats.recordAll reports :=
  h.foldl_eq stats

namespace Engine

variable {σ : Type} {sink : RecordSink σ} {files files' : σ → FileSystem} {engine : Engine}
  {s₀ s : σ}

theorem processAll_congr (hx : ∀ s, Reaches sink s₀ s → ∀ p,
      extractFile (files' s) engine.config.maxFileSize p =
        extractFile (files s) engine.config.maxFileSize p)
    (visits : List Visit) (stats : Statistics) (hs : Reaches sink s₀ s) :
    engine.processAll sink files' stats visits s = engine.processAll sink files stats visits s := by
  induction visits generalizing stats s with
  | nil => rfl
  | cons v visits ih =>
    cases v with
    | error e => rfl
    | ok p =>
      have hp : engine.processFile sink files' p s = engine.processFile sink files p s :=
        processFile_congr (hx s hs p)
      rw [processAll, processAll, hp]
      simp only [ih _ (reaches_processFile sink files engine hs p)]

/-- A run sees of the file systems only what is found and what the files give. -/
theorem run_congr
    (hw : ∀ s, Reaches sink s₀ s → engine.found (files' s) = engine.found (files s))
    (hx : ∀ s, Reaches sink s₀ s → ∀ p, extractFile (files' s) engine.config.maxFileSize p =
      extractFile (files s) engine.config.maxFileSize p) :
    engine.run sink files' s₀ = engine.run sink files s₀ := by
  rw [run, run]
  cases h : sink.start s₀ with
  | error e s => rfl
  | ok u s =>
    have hs : Reaches sink s₀ s := Reaches.refl.start_ok h
    simp only [hw s hs]
    exact processAll_congr hx _ _ hs

theorem offer_of_neverFails (hn : NeverFails sink s₀) (records : List MethodRecord)
    (hs : Reaches sink s₀ s) : (offer sink records s).1 = (records.length, []) := by
  induction records generalizing s with
  | nil => rfl
  | cons r records ih =>
    obtain ⟨s', hw⟩ := hn.write s r hs
    have hs' : Reaches sink s₀ s' := after_of_ok hw ▸ hs.write r
    have hi := ih hs'
    simp only [offer, hw, hi, List.length_cons]

theorem processEach_of_neverFails {fs : FileSystem} {paths : List Path} (hn : NeverFails sink s₀)
    (hx : engine.Steady sink files s₀ fs paths) (hs : Reaches sink s₀ s) :
    (engine.processEach sink files paths s).1 =
      paths.map (fullReport fs engine.config.maxFileSize) := by
  induction paths generalizing s with
  | nil => rfl
  | cons p paths ih =>
    have hp : (engine.processFile sink files p s).1 =
        fullReport fs engine.config.maxFileSize p := by
      rw [processFile, fullReport, hx s hs p (List.mem_cons_self ..)]
      cases extractFile fs engine.config.maxFileSize p with
      | error e => rfl
      | ok records =>
        have ho := offer_of_neverFails hn records hs
        simp only [ho, List.length_nil]
    rw [processEach_cons, List.map_cons, hp,
      ih hx.tail (reaches_processFile sink files engine hs p)]

end Engine

theorem fst_after_noting {σ : Type} (call : Call) (action : EStateM IoError σ Unit)
    (s : σ × List Call) : (after (noting call action) s).1 = after action s.1 := by
  simp only [after, noting]
  cases action s.1 <;> rfl

theorem reaches_of_logged {σ : Type} {sink : RecordSink σ} {s₀ : σ} {calls : List Call}
    {s : σ × List Call} (h : Reaches (logged sink) (s₀, calls) s) : Reaches sink s₀ s.1 := by
  induction h with
  | refl => exact .refl
  | @start s _ ih => exact (fst_after_noting .start sink.start s).symm ▸ ih.start
  | @write s _ r ih => exact (fst_after_noting (.write r) (sink.write r) s).symm ▸ ih.write r
  | @finish s _ ih => exact (fst_after_noting .finish sink.finish s).symm ▸ ih.finish

structure Rearranged {σ : Type} (sink : RecordSink σ) (files files' : σ → FileSystem)
    (engine : Engine) (s₀ : σ) (paths paths' : List Path) (stats : Statistics) : Prop where
  perm : paths'.Perm paths
  result : (engine.run sink files s₀).1.result = .ok stats
  result' : (engine.run sink files' s₀).1.result = .ok stats
  observed : (engine.run sink files s₀).1.files =
    paths.map (fullReport (files s₀) engine.config.maxFileSize)
  observed' : (engine.run sink files' s₀).1.files =
    paths'.map (fullReport (files s₀) engine.config.maxFileSize)
  /-- The records of each file are offered one after the other. -/
  calls : engine.calls sink files s₀ = .start :: engine.callsFor (files s₀) paths ++ [.finish]
  calls' : engine.calls sink files' s₀ = .start :: engine.callsFor (files s₀) paths' ++ [.finish]
  documentOrder : ∀ p ∈ paths, offered (files s₀) engine.config.maxFileSize p = [] ∨
    ∃ text root, readSource (files s₀) p = .ok text ∧ parse text = .ok root ∧
      offered (files s₀) engine.config.maxFileSize p =
        (root.preorder.filter Node.isMethod).filterMap (Node.record? text)

structure ListingFree {σ : Type} (sink : RecordSink σ) (files files' : σ → FileSystem)
    (engine : Engine) (s₀ : σ) : Prop where
  found : ∀ s, Reaches sink s₀ s → ∀ (o : SourceOptions) (root : Path), o.sorted = true →
    (files' s).sourceFiles o root = (files s).sourceFiles o root
  sorted : engine.config.sorted = true →
    engine.run sink files' s₀ = engine.run sink files s₀ ∧
      engine.calls sink files' s₀ = engine.calls sink files s₀
  unsorted : LeavesAlone sink files engine.config s₀ → NeverFails sink s₀ →
    (∀ e, .error e ∉ engine.found (files s₀)) →
    ∃ paths paths' stats, Rearranged sink files files' engine s₀ paths paths' stats

section

variable {σ : Type} {sink : RecordSink σ} {files files' : σ → FileSystem} {engine : Engine} {s₀ : σ}

theorem exists_paths_of_perm {visits : List Visit} {paths : List Path}
    (h : visits.Perm (paths.map .ok)) :
    ∃ paths' : List Path, visits = paths'.map .ok ∧ paths'.Perm paths := by
  obtain ⟨paths', rfl⟩ | ⟨paths', e, rest, rfl⟩ := visits_cases visits
  · refine ⟨paths', rfl, ?_⟩
    apply (List.map_perm_map_iff _).1 h
    intro p q he
    exact Except.ok.inj he
  · have he : .error e ∈ paths.map (.ok : Path → Visit) := h.subset (by simp)
    simp at he

theorem run_of_neverFails {s₁ : σ} {fs : FileSystem} {paths : List Path} (hn : NeverFails sink s₀)
    (hs : sink.start s₀ = .ok () s₁) (hx : engine.Steady sink files s₀ fs paths)
    (hw : engine.found (files s₁) = paths.map .ok) :
    (engine.run sink files s₀).1 =
      ⟨paths.map (fullReport fs engine.config.maxFileSize),
        .ok (Statistics.recordAll {} (paths.map (fullReport fs engine.config.maxFileSize)))⟩ := by
  have hr₁ : Reaches sink s₀ s₁ := Reaches.refl.start_ok hs
  obtain ⟨s', hf⟩ := hn.finish _ (Engine.reaches_processEach sink files engine hr₁ paths)
  rw [Engine.run_of_walked hs hw, hf, Engine.processEach_of_neverFails hn hx hr₁]

theorem exists_rearranged
    (h : ∀ s, Reaches sink s₀ s → (files s).Reordered (files' s))
    (hk : LeavesAlone sink files engine.config s₀) (hn : NeverFails sink s₀)
    (he : ∀ e, .error e ∉ engine.found (files s₀)) :
    ∃ paths paths' stats, Rearranged sink files files' engine s₀ paths paths' stats := by
  obtain ⟨s₁, hs⟩ := hn.start s₀ .refl
  have hr₁ : Reaches sink s₀ s₁ := Reaches.refl.start_ok hs
  obtain ⟨paths, hw⟩ | ⟨paths, e, rest, hw⟩ := visits_cases (engine.found (files s₀))
  · have hw₁ := (Engine.found_of_start hk hs).trans hw
    have hperm : (engine.found (files' s₁)).Perm (engine.found (files s₁)) :=
      ((h s₁ hr₁).agree_sourceFiles engine.config.toSourceOptions engine.config.root).perm
    rw [hw₁] at hperm
    obtain ⟨paths', hw', hp⟩ := exists_paths_of_perm hperm
    have hx := Engine.steady_of_found hk (hw.trans (List.append_nil _).symm)
    -- the other files have the same content, so they give what the first ones give
    have hx' : engine.Steady sink files' s₀ (files s₀) paths' := by
      intro s hr p hmem
      rw [extractFile_of_reordered (h s hr)]
      exact hx s hr p (hp.subset hmem)
    have hrun := run_of_neverFails hn hs hx hw₁
    have hrun' := run_of_neverFails hn hs hx' hw'
    have hstats := Statistics.recordAll_of_perm {}
      (hp.map (fullReport (files s₀) engine.config.maxFileSize))
    refine ⟨paths, paths', _, hp, congrArg RunReport.result hrun, ?_,
      congrArg RunReport.files hrun, congrArg RunReport.files hrun',
      Engine.calls_of_walked hs hx hw₁, Engine.calls_of_walked hs hx' hw',
      fun p _ => offered_cases (files s₀) engine.config.maxFileSize p⟩
    rw [hrun', hstats]
  · refine absurd ?_ (he e)
    rw [hw]
    simp

/-- The order in which directories list their entries makes no difference to a run that visits them
by name, whatever its sink does. To any other run it makes none but the order of the files, as long
as the sink leaves them alone and does not fail. -/
theorem listingFree_of_reordered (sink : RecordSink σ) (files files' : σ → FileSystem)
    (engine : Engine) (s₀ : σ) (h : ∀ s, Reaches sink s₀ s → (files s).Reordered (files' s)) :
    ListingFree sink files files' engine s₀ := by
  have hfound (s : σ) (hs : Reaches sink s₀ s) (o : SourceOptions) (root : Path)
      (ho : o.sorted = true) : (files' s).sourceFiles o root = (files s).sourceFiles o root :=
    ((h s hs).agree_sourceFiles o root).eq ho
  refine ⟨hfound, ?_, exists_rearranged h⟩
  intro hsorted
  have hrun : engine.run sink files' s₀ = engine.run sink files s₀ := by
    apply Engine.run_congr
    · intro s hs
      exact hfound s hs _ _ hsorted
    · intro s hs p
      exact extractFile_of_reordered (h s hs)
  have hlogged : engine.run (logged sink) (files' ·.1) (s₀, []) =
      engine.run (logged sink) (files ·.1) (s₀, []) := by
    apply Engine.run_congr
    · intro s hs
      exact hfound s.1 (reaches_of_logged hs) _ _ hsorted
    · intro s hs p
      exact extractFile_of_reordered (h s.1 (reaches_of_logged hs))
  refine ⟨hrun, ?_⟩
  rw [Engine.calls, Engine.calls, hlogged]

end

def collecting : RecordSink (List MethodRecord) where
  start := fun s => .ok () s
  write r := fun s => .ok () (s ++ [r])
  finish := fun s => .ok () s

def threeFilesBackwards : FileSystem where
  entries := threeFiles.entries.reverse
  home := []

theorem listingFree_backwards :
    threeFiles.Reordered threeFilesBackwards ∧
      LeavesAlone collecting (fun _ => threeFiles) plainEngine.config [] ∧
      NeverFails collecting [] ∧
      plainEngine.found threeFiles =
        ["./A.java", "./B.java", "./C.java"].map (.ok ∘ Path.ofText) ∧
      plainEngine.found threeFilesBackwards =
        ["./C.java", "./B.java", "./A.java"].map (.ok ∘ Path.ofText) ∧
      ∃ paths paths' stats, Rearranged collecting (fun _ => threeFiles)
        (fun _ => threeFilesBackwards) plainEngine [] paths paths' stats := by
  have hr : threeFiles.Reordered threeFilesBackwards :=
    FileSystem.reordered_of_perm rfl (List.reverse_perm _)
      (FileSystem.distinct_of_nodup (by decide))
  have hk : LeavesAlone collecting (fun _ => threeFiles) plainEngine.config [] :=
    fun _ _ => ⟨rfl, fun _ _ => rfl, fun _ _ => rfl⟩
  have hn : NeverFails collecting [] :=
    ⟨fun s _ => ⟨s, rfl⟩, fun s r _ => ⟨s ++ [r], rfl⟩, fun s _ => ⟨s, rfl⟩⟩
  have hw : plainEngine.found threeFiles =
      ["./A.java", "./B.java", "./C.java"].map (.ok ∘ Path.ofText) := by cbv
  have hw' : plainEngine.found threeFilesBackwards =
      ["./C.java", "./B.java", "./A.java"].map (.ok ∘ Path.ofText) := by cbv
  refine ⟨hr, hk, hn, hw, hw', ?_⟩
  apply (listingFree_of_reordered collecting (fun _ => threeFiles) (fun _ => threeFilesBackwards)
    plainEngine [] fun _ _ => hr).unsorted hk hn
  intro e
  rw [hw]
  simp

end MethodExtraction.Extraction
