import MethodExtraction.Proofs.Extraction.Listing

namespace MethodExtraction.Extraction

open Files Java Output Text

/-- The outcome of a file, by the first thing that is wrong with it: its size, which is asked for
only if there is a limit, its content, or its text. -/
structure Classifies (fs : FileSystem) (limit : Option Nat) (p : Path) (outcome : FileOutcome) :
    Prop where
  tooLarge : ∀ n size, limit = some n → fs.size p = .ok size → n < size →
    outcome = .failed (.unreadable (.fileTooLarge p size n))
  unmeasured : ∀ n e, limit = some n → fs.size p = .error e →
    outcome = .failed (.unreadable (.fileRead p e))
  unread : ∀ e, withinLimit fs limit p = true → fs.read p = .error e →
    outcome = .failed (.unreadable (.fileRead p e))
  unparseable : ∀ bytes e, withinLimit fs limit p = true → fs.read p = .ok bytes →
    parse (Utf8.decode bytes.data.toList) = .error e →
    outcome = .failed (.unparseable (.ofSyntaxError e))
  parsed : ∀ bytes root, withinLimit fs limit p = true → fs.read p = .ok bytes →
    parse (Utf8.decode bytes.data.toList) = .ok root →
    ∃ written unwritten, outcome = .parsed written unwritten

def Call.record? : Call → Option MethodRecord
  | .write r => some r
  | .start | .finish => none

theorem ok_bind {ε α β : Type} (a : α) (f : α → Except ε β) : (Except.ok a >>= f) = f a := rfl

section

variable {fs : FileSystem} {limit : Option Nat} {p : Path}

theorem checkSize_of_withinLimit (h : withinLimit fs limit p = true) :
    checkSize fs limit p = .ok () := by
  cases limit with
  | none => rfl
  | some n =>
    cases hs : fs.size p with
    | error e => simp [withinLimit, hs] at h
    | ok size =>
      have hle : size ≤ n := by simpa [withinLimit, hs] using h
      simp [checkSize, hs, Nat.not_lt.2 hle]

theorem extractFile_of_withinLimit (h : withinLimit fs limit p = true) :
    extractFile fs limit p = extractFile fs none p := by
  have hn : checkSize fs none p = .ok () := rfl
  rw [extractFile, extractFile, checkSize_of_withinLimit h, hn]

theorem extractFile_of_read {bytes : ByteArray} (h : withinLimit fs limit p = true)
    (hr : fs.read p = .ok bytes) :
    extractFile fs limit p =
      (extractSource (Utf8.decode bytes.data.toList)).mapError .parse := by
  have hs : readSource fs p = .ok (Utf8.decode bytes.data.toList) := by rw [readSource, hr]
  rw [extractFile, checkSize_of_withinLimit h, hs, ok_bind, ok_bind]

theorem withinLimit_of_le {limit' : Option Nat}
    (hle : ∀ n', limit' = some n' → ∃ n ≤ n', limit = some n)
    (h : withinLimit fs limit p = true) : withinLimit fs limit' p = true := by
  cases limit' with
  | none => rfl
  | some n' =>
    obtain ⟨n, hn, rfl⟩ := hle n' rfl
    cases hs : fs.size p with
    | error e => simp [withinLimit, hs] at h
    | ok size =>
      have hle : size ≤ n := by simpa [withinLimit, hs] using h
      simpa [withinLimit, hs] using Nat.le_trans hle hn

theorem extractFile_of_not_withinLimit (h : withinLimit fs limit p = false) :
    ∃ e, extractFile fs limit p = .error e := by
  cases hx : extractFile fs limit p with
  | error e => exact ⟨e, rfl⟩
  | ok records =>
    have ha := accepted?_of_extractFile_eq_ok hx
    rw [accepted?, h] at ha
    cases hr : (fs.read p).toOption with
    | none => simp [hr] at ha
    | some bytes => simp [hr] at ha

theorem offered_sublist_of_le {limit' : Option Nat}
    (hle : ∀ n', limit' = some n' → ∃ n ≤ n', limit = some n) :
    (offered fs limit p).Sublist (offered fs limit' p) := by
  cases h : withinLimit fs limit p with
  | true =>
    have he : extractFile fs limit' p = extractFile fs limit p := by
      rw [extractFile_of_withinLimit h, extractFile_of_withinLimit (withinLimit_of_le hle h)]
    rw [offered, offered, ← toOption_extractFile, ← toOption_extractFile, he]
  | false =>
    obtain ⟨e, he⟩ := extractFile_of_not_withinLimit h
    rw [offered, accepted?_of_extractFile_eq_error he]
    exact List.nil_sublist _

theorem size_of_read {bytes : ByteArray} (h : fs.read p = .ok bytes) :
    fs.size p = .ok bytes.size := by
  obtain ⟨content, hc, hr⟩ := exists_of_bind_eq_ok h
  cases content with
  | directory => cases hr
  | link target => cases hr
  | file content =>
    cases hr
    rw [FileSystem.size, hc]
    rfl
  | device device =>
    cases device with
    | full => cases hr
    | null =>
      cases hr
      rw [FileSystem.size, hc]
      rfl

theorem withinLimit_of_read {bytes : ByteArray} (h : fs.read p = .ok bytes)
    (hle : ∀ n, limit = some n → bytes.size ≤ n) : withinLimit fs limit p = true := by
  cases limit with
  | none => rfl
  | some n => simpa [withinLimit, size_of_read h] using hle n rfl

end

namespace Engine

section

variable {σ : Type} {sink : RecordSink σ} {files : σ → FileSystem} {engine : Engine} {p : Path}
  {s : σ}

theorem processFile_of_error {e : ExtractionError}
    (h : extractFile (files s) engine.config.maxFileSize p = .error e) :
    engine.processFile sink files p s = (⟨p, .failed (.ofError e), []⟩, s) := by
  rw [processFile, h]

theorem outcome_of_error (e : ExtractionError)
    (h : extractFile (files s) engine.config.maxFileSize p = .error e) :
    (engine.processFile sink files p s).1.outcome = .failed (.ofError e) := by
  rw [processFile_of_error h]

theorem classifies_processFile : Classifies (files s) engine.config.maxFileSize p
    (engine.processFile sink files p s).1.outcome := by
  constructor
  · intro n size hl hs hn
    refine outcome_of_error (.fileTooLarge p size n) ?_
    simp only [extractFile, checkSize, hl, hs, if_pos hn]
    rfl
  · intro n e hl hs
    refine outcome_of_error (.fileRead p e) ?_
    simp only [extractFile, checkSize, hl, hs]
    rfl
  · intro e hw hr
    refine outcome_of_error (.fileRead p e) ?_
    rw [extractFile_of_withinLimit hw, extractFile, readSource, hr]
    rfl
  · intro bytes e hw hr hp
    refine outcome_of_error (.parse (.ofSyntaxError e)) ?_
    rw [extractFile_of_read hw hr, extractSource, methods, hp]
    rfl
  · intro bytes root hw hr hp
    have hx : extractFile (files s) engine.config.maxFileSize p =
        .ok (root.methods (Utf8.decode bytes.data.toList)) := by
      rw [extractFile_of_read hw hr, extractSource, methods, hp]
      rfl
    rw [processFile, hx]
    exact ⟨_, _, rfl⟩

/-- A file that fails is not heard of by the sink. -/
theorem processFile_logged_of_failed {failure : FileFailure}
    (h : (engine.processFile sink files p s).1.outcome = .failed failure) (calls : List Call) :
    engine.processFile (logged sink) (files ·.1) p (s, calls) =
      ((engine.processFile sink files p s).1, s, calls) := by
  cases hx : extractFile (files s) engine.config.maxFileSize p with
  | error e =>
    rw [processFile_of_error hx]
    exact processFile_of_error hx
  | ok records =>
    rw [processFile, hx] at h
    cases h

theorem processFile_of_limits {engine' : Engine}
    (h : extractFile (files s) engine.config.maxFileSize p =
      extractFile (files s) engine'.config.maxFileSize p) :
    engine.processFile sink files p s = engine'.processFile sink files p s := by
  rw [processFile, processFile, h]

end

def recordsOffered {σ : Type} (sink : RecordSink σ) (files : σ → FileSystem) (engine : Engine)
    (s : σ) : List MethodRecord :=
  (engine.calls sink files s).filterMap Call.record?

theorem recordsOffered_of_walked {σ : Type} {sink : RecordSink σ} {files : σ → FileSystem}
    {engine : Engine} {s₀ s₁ : σ} {paths : List Path} {fs : FileSystem}
    (h : sink.start s₀ = .ok () s₁) (hx : engine.Steady sink files s₀ fs paths)
    (hw : engine.found (files s₁) = paths.map .ok) :
    engine.recordsOffered sink files s₀ =
      paths.flatMap fun p => offered fs engine.config.maxFileSize p := by
  have hr : ∀ records : List MethodRecord,
      (records.map Call.write).filterMap Call.record? = records := by
    intro records
    rw [List.filterMap_map]
    exact List.filterMap_some
  rw [recordsOffered, calls_of_walked h hx hw, List.cons_append, callsFor]
  rw [List.filterMap_cons_none rfl, List.filterMap_append, List.filterMap_flatMap]
  simp only [hr]
  exact List.append_nil _

end Engine

theorem path_fullReport (fs : FileSystem) (limit : Option Nat) (p : Path) :
    (fullReport fs limit p).path = p := by
  rw [fullReport]
  cases extractFile fs limit p <;> rfl

theorem totalFiles_recordAll (reports : List FileReport) :
    (Statistics.recordAll {} reports).totalFiles = reports.length :=
  (Statistics.recordAll_counts {} reports).1.trans (Nat.zero_add _)

structure Raised {σ : Type} (sink : RecordSink σ) (files : σ → FileSystem)
    (engine engine' : Engine) (s₀ : σ) (paths : List Path) (stats stats' : Statistics) : Prop where
  result : (engine.run sink files s₀).1.result = .ok stats
  result' : (engine'.run sink files s₀).1.result = .ok stats'
  observed : (engine.run sink files s₀).1.files.map (·.path) = paths
  observed' : (engine'.run sink files s₀).1.files.map (·.path) = paths
  totalFiles : stats.totalFiles = stats'.totalFiles
  offered : (engine.recordsOffered sink files s₀).Sublist (engine'.recordsOffered sink files s₀)

theorem exists_raised {σ : Type} {sink : RecordSink σ} {files : σ → FileSystem}
    {engine engine' : Engine} {s₀ : σ} {paths : List Path}
    (hc : engine'.config = { engine.config with maxFileSize := engine'.config.maxFileSize })
    (hle : ∀ n', engine'.config.maxFileSize = some n' →
      ∃ n ≤ n', engine.config.maxFileSize = some n)
    (hk : LeavesAlone sink files engine.config s₀) (hn : NeverFails sink s₀)
    (hw : engine.found (files s₀) = paths.map .ok) :
    ∃ paths stats stats', Raised sink files engine engine' s₀ paths stats stats' := by
  -- the limit is not asked for on the walk
  have hfound : ∀ fs, engine'.found fs = engine.found fs := by
    intro fs
    rw [Engine.found, hc]
  have hk' : LeavesAlone sink files engine'.config s₀ := by
    rw [hc]
    exact fun s hs => ⟨(hk s hs).walk, (hk s hs).size, (hk s hs).read⟩
  obtain ⟨s₁, hs⟩ := hn.start s₀ .refl
  have hw₁ := (Engine.found_of_start hk hs).trans hw
  have hx := Engine.steady_of_found hk (hw.trans (List.append_nil _).symm)
  have hx' := Engine.steady_of_found hk' ((hfound _).trans (hw.trans (List.append_nil _).symm))
  have hrun := run_of_neverFails hn hs hx hw₁
  have hrun' := run_of_neverFails hn hs hx' ((hfound _).trans hw₁)
  have hpaths : ∀ limit, (paths.map (fullReport (files s₀) limit)).map (·.path) = paths := by
    intro limit
    rw [List.map_map]
    exact (List.map_congr_left fun p _ => path_fullReport (files s₀) limit p).trans (List.map_id _)
  refine ⟨paths, _, _, congrArg RunReport.result hrun, congrArg RunReport.result hrun', ?_, ?_, ?_,
    ?_⟩
  · rw [hrun, hpaths]
  · rw [hrun', hpaths]
  · rw [totalFiles_recordAll, totalFiles_recordAll, List.length_map, List.length_map]
  · rw [Engine.recordsOffered_of_walked hs hx hw₁,
      Engine.recordsOffered_of_walked hs hx' ((hfound _).trans hw₁)]
    exact List.Sublist.flatMap_right paths fun p _ => offered_sublist_of_le hle

structure Limits {σ : Type} (sink : RecordSink σ) (files : σ → FileSystem) (engine : Engine) :
    Prop where
  classifies : ∀ p s, Classifies (files s) engine.config.maxFileSize p
    (engine.processFile sink files p s).1.outcome
  failed : ∀ p s calls failure, (engine.processFile sink files p s).1.outcome = .failed failure →
    engine.processFile (logged sink) (files ·.1) p (s, calls) =
      ((engine.processFile sink files p s).1, s, calls)
  within : ∀ (unlimited : Engine) limit p s calls bytes, engine.config.maxFileSize = some limit →
    unlimited.config.maxFileSize = none → (files s).read p = .ok bytes → bytes.size ≤ limit →
    engine.processFile (logged sink) (files ·.1) p (s, calls) =
      unlimited.processFile (logged sink) (files ·.1) p (s, calls)
  higher : ∀ (engine' : Engine) s₀,
    engine'.config = { engine.config with maxFileSize := engine'.config.maxFileSize } →
    (∀ n', engine'.config.maxFileSize = some n' →
      ∃ n ≤ n', engine.config.maxFileSize = some n) →
    LeavesAlone sink files engine.config s₀ → NeverFails sink s₀ →
    (∀ e, .error e ∉ engine.found (files s₀)) →
    ∃ paths stats stats', Raised sink files engine engine' s₀ paths stats stats'

/-- What is wrong with a file is decided by its size, its content and its text, in this order; so a
limit makes no difference to smaller files, and a higher one only adds to the records. -/
theorem limits_of_engine {σ : Type} (sink : RecordSink σ) (files : σ → FileSystem)
    (engine : Engine) : Limits sink files engine := by
  refine ⟨fun p s => Engine.classifies_processFile, fun p s calls failure h =>
    Engine.processFile_logged_of_failed h calls, ?_, ?_⟩
  · intro unlimited limit p s calls bytes hl hn hr hle
    apply Engine.processFile_of_limits
    rw [hl, hn]
    apply extractFile_of_withinLimit
    apply withinLimit_of_read hr
    rintro n ⟨⟩
    exact hle
  · intro engine' s₀ hc hle hk hn he
    obtain ⟨paths, hw⟩ | ⟨paths, e, rest, hw⟩ := visits_cases (engine.found (files s₀))
    · exact exists_raised hc hle hk hn hw
    · refine absurd ?_ (he e)
      rw [hw]
      simp

def tightEngine : Engine := ⟨{ maxFileSize := some 7 }, rfl⟩

theorem limits_threeFiles :
    (LeavesAlone collecting (fun _ => threeFiles) tightEngine.config [] ∧ NeverFails collecting [] ∧
      tightEngine.found threeFiles =
        ["./A.java", "./B.java", "./C.java"].map (.ok ∘ Path.ofText)) ∧
      ∃ paths stats stats', Raised collecting (fun _ => threeFiles) tightEngine plainEngine []
        paths stats stats' := by
  have hk : LeavesAlone collecting (fun _ => threeFiles) tightEngine.config [] :=
    fun _ _ => ⟨rfl, fun _ _ => rfl, fun _ _ => rfl⟩
  have hn : NeverFails collecting [] :=
    ⟨fun s _ => ⟨s, rfl⟩, fun s r _ => ⟨s ++ [r], rfl⟩, fun s _ => ⟨s, rfl⟩⟩
  have hw : tightEngine.found threeFiles =
      ["./A.java", "./B.java", "./C.java"].map (.ok ∘ Path.ofText) := by cbv
  refine ⟨⟨hk, hn, hw⟩, ?_⟩
  refine (limits_of_engine collecting (fun _ => threeFiles) tightEngine).higher plainEngine [] rfl
    ?_ hk hn ?_
  · intro n' h
    cases h
  · intro e
    rw [hw]
    simp

end MethodExtraction.Extraction
