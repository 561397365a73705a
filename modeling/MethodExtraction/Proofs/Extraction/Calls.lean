import Mathlib
import MethodExtraction.Proofs.Extraction.Runs
import MethodExtraction.Proofs.Output.Attempts

namespace MethodExtraction.Extraction

open Files Java Output Text

inductive Call where
  | start
  | write (r : MethodRecord)
  | finish
  deriving DecidableEq, Repr

def noting {σ : Type} (call : Call) (action : EStateM IoError σ Unit) :
    EStateM IoError (σ × List Call) Unit := fun (s, calls) =>
  match action s with
  | .ok () s => .ok () (s, calls ++ [call])
  | .error e s => .error e (s, calls ++ [call])

/-- A sink beside which all calls are noted. -/
def logged {σ : Type} (sink : RecordSink σ) : RecordSink (σ × List Call) where
  start := noting .start sink.start
  write r := noting (.write r) (sink.write r)
  finish := noting .finish sink.finish

inductive Reaches {σ : Type} (sink : RecordSink σ) (s₀ : σ) : σ → Prop where
  | refl : Reaches sink s₀ s₀
  | start {s : σ} (h : Reaches sink s₀ s) : Reaches sink s₀ (after sink.start s)
  | write {s : σ} (h : Reaches sink s₀ s) (r : MethodRecord) :
      Reaches sink s₀ (after (sink.write r) s)
  | finish {s : σ} (h : Reaches sink s₀ s) : Reaches sink s₀ (after sink.finish s)

/-- What a configuration finds in one file system it finds in another, with the same content. -/
structure Alike (c : Config) (fs fs' : FileSystem) : Prop where
  walk : fs'.sourceFiles c.toSourceOptions c.root = fs.sourceFiles c.toSourceOptions c.root
  size : ∀ p, .ok p ∈ fs.sourceFiles c.toSourceOptions c.root → fs'.size p = fs.size p
  read : ∀ p, .ok p ∈ fs.sourceFiles c.toSourceOptions c.root → fs'.read p = fs.read p

/-- A sink, from some state on, does not change the files that are walked. -/
def LeavesAlone {σ : Type} (sink : RecordSink σ) (files : σ → FileSystem) (c : Config) (s₀ : σ) :
    Prop :=
  ∀ s, Reaches sink s₀ s → Alike c (files s₀) (files s)

def withinLimit (fs : FileSystem) (limit : Option Nat) (p : Path) : Bool :=
  match limit, fs.size p with
  | none, _ => true
  | some limit, .ok size => size ≤ limit
  | some _, .error _ => false

def accepted? (fs : FileSystem) (limit : Option Nat) (p : Path) : Option (List MethodRecord) := do
  let bytes ← (fs.read p).toOption
  if withinLimit fs limit p then (extractSource (Utf8.decode bytes.data.toList)).toOption
  else none

def offered (fs : FileSystem) (limit : Option Nat) (p : Path) : List MethodRecord :=
  (accepted? fs limit p).getD []

/-- The outcome of a file is what its content calls for: it has failed if it is not accepted, and
otherwise each of its records is counted once. -/
def Answers (fs : FileSystem) (limit : Option Nat) (file : FileReport) : Prop :=
  match accepted? fs limit file.path with
  | none => ∃ failure, file.outcome = .failed failure
  | some records =>
    ∃ written failed, file.outcome = .parsed written failed ∧ written + failed = records.length

theorem toOption_bind {ε α β : Type} (x : Except ε α) (f : α → Except ε β) :
    (x >>= f).toOption = x.toOption.bind fun a => (f a).toOption := by
  cases x <;> rfl

theorem toOption_mapError {ε ε' α : Type} (x : Except ε α) (f : ε → ε') :
    (x.mapError f).toOption = x.toOption := by
  cases x <;> rfl

theorem toOption_checkSize (fs : FileSystem) (limit : Option Nat) (p : Path) :
    (checkSize fs limit p).toOption = if withinLimit fs limit p then some () else none := by
  cases limit with
  | none => rfl
  | some limit =>
    cases h : fs.size p with
    | error e => simp [checkSize, withinLimit, h, Except.toOption]
    | ok size =>
      by_cases hl : limit < size
      · simp [checkSize, withinLimit, h, hl, Nat.not_le.2 hl, Except.toOption]
      · simp [checkSize, withinLimit, h, hl, Nat.not_lt.1 hl, Except.toOption]

theorem toOption_readSource (fs : FileSystem) (p : Path) :
    (readSource fs p).toOption = (fs.read p).toOption.map fun b => Utf8.decode b.data.toList := by
  cases h : fs.read p <;> simp [readSource, h, Except.toOption]

theorem toOption_extractFile (fs : FileSystem) (limit : Option Nat) (p : Path) :
    (extractFile fs limit p).toOption = accepted? fs limit p := by
  rw [extractFile, toOption_bind, toOption_checkSize, accepted?]
  by_cases h : withinLimit fs limit p = true
  · simp only [if_pos h, Option.bind_some, toOption_bind, toOption_readSource, toOption_mapError,
      Option.bind_map, Option.bind_eq_bind]
    rfl
  · cases (fs.read p).toOption <;> simp [h]

theorem accepted?_of_extractFile_eq_ok {fs : FileSystem} {limit : Option Nat} {p : Path}
    {records : List MethodRecord} (h : extractFile fs limit p = .ok records) :
    accepted? fs limit p = some records := by
  rw [← toOption_extractFile, h]
  rfl

theorem accepted?_of_extractFile_eq_error {fs : FileSystem} {limit : Option Nat} {p : Path}
    {e : ExtractionError} (h : extractFile fs limit p = .error e) :
    accepted? fs limit p = none := by
  rw [← toOption_extractFile, h]
  rfl

theorem Alike.extractFile_eq {c : Config} {fs fs' : FileSystem} (h : Alike c fs fs') {p : Path}
    (hp : .ok p ∈ fs.sourceFiles c.toSourceOptions c.root) (limit : Option Nat) :
    extractFile fs' limit p = extractFile fs limit p := by
  simp only [extractFile, checkSize, readSource, h.size p hp, h.read p hp]

namespace Reaches

variable {σ : Type} {sink : RecordSink σ} {s₀ s : σ}

theorem start_ok {s' : σ} (h : Reaches sink s₀ s) (hs : sink.start s = .ok () s') :
    Reaches sink s₀ s' := by
  have ha := h.start
  rwa [after, hs] at ha

end Reaches

namespace Engine

variable {σ : Type} (sink : RecordSink σ) (files : σ → FileSystem) (engine : Engine)

theorem offer_cons (r : MethodRecord) (records : List MethodRecord) (s : σ) :
    (offer sink (r :: records) s).2 = (offer sink records (after (sink.write r) s)).2 := by
  rw [offer, after]
  cases sink.write r s <;> rfl

theorem reaches_offer {s₀ s : σ} (h : Reaches sink s₀ s) (records : List MethodRecord) :
    Reaches sink s₀ (offer sink records s).2 := by
  induction records generalizing s with
  | nil => exact h
  | cons r records ih =>
    rw [offer_cons]
    exact ih (h.write r)

theorem reaches_processFile {s₀ s : σ} (h : Reaches sink s₀ s) (p : Path) :
    Reaches sink s₀ (engine.processFile sink files p s).2 := by
  rw [processFile]
  cases extractFile (files s) engine.config.maxFileSize p with
  | error e => exact h
  | ok records => exact reaches_offer sink h records

theorem offer_logged (records : List MethodRecord) (s : σ) (calls : List Call) :
    offer (logged sink) records (s, calls) =
      ((offer sink records s).1, (offer sink records s).2, calls ++ records.map .write) := by
  induction records generalizing s calls with
  | nil => simp [offer]
  | cons r records ih =>
    rw [offer, offer]
    cases h : sink.write r s with
    | ok u s' =>
      have hl : (logged sink).write r (s, calls) = .ok () (s', calls ++ [.write r]) := by
        simp [logged, noting, h]
      simp [hl, ih]
    | error e s' =>
      have hl : (logged sink).write r (s, calls) = .error e (s', calls ++ [.write r]) := by
        simp [logged, noting, h]
      simp [hl, ih]

theorem processFile_logged (p : Path) (s : σ) (calls : List Call) :
    engine.processFile (logged sink) (files ·.1) p (s, calls) =
      ((engine.processFile sink files p s).1, (engine.processFile sink files p s).2,
        calls ++ (offered (files s) engine.config.maxFileSize p).map .write) := by
  rw [processFile, processFile]
  cases h : extractFile (files s) engine.config.maxFileSize p with
  | error e => simp [offered, accepted?_of_extractFile_eq_error h]
  | ok records => simp [offered, accepted?_of_extractFile_eq_ok h, offer_logged]

theorem processAll_logged (stats : Statistics) (visits : List Visit) (s : σ) (calls : List Call) :
    (engine.processAll (logged sink) (files ·.1) stats visits (s, calls)).1 =
        (engine.processAll sink files stats visits s).1 ∧
      (engine.processAll (logged sink) (files ·.1) stats visits (s, calls)).2.1 =
        (engine.processAll sink files stats visits s).2 := by
  induction visits generalizing stats s calls with
  | nil =>
    rw [processAll, processAll]
    cases h : sink.finish s with
    | ok u s' =>
      have hl : (logged sink).finish (s, calls) = .ok () (s', calls ++ [.finish]) := by
        simp [logged, noting, h]
      simp [hl]
    | error e s' =>
      have hl : (logged sink).finish (s, calls) = .error e (s', calls ++ [.finish]) := by
        simp [logged, noting, h]
      simp [hl]
  | cons v visits ih =>
    cases v with
    | error e => exact ⟨rfl, rfl⟩
    | ok p =>
      rw [processAll, processAll, processFile_logged]
      have h := ih (stats.record (engine.processFile sink files p s).1.outcome)
        (engine.processFile sink files p s).2
        (calls ++ (offered (files s) engine.config.maxFileSize p).map .write)
      exact ⟨by simp [h.1], h.2⟩

theorem run_logged (s : σ) :
    (engine.run (logged sink) (files ·.1) (s, [])).1 = (engine.run sink files s).1 ∧
      (engine.run (logged sink) (files ·.1) (s, [])).2.1 = (engine.run sink files s).2 := by
  rw [run, run]
  cases h : sink.start s with
  | ok u s' =>
    have hl : (logged sink).start (s, []) = .ok () (s', [.start]) := by
      simp [logged, noting, h]
    simp only [hl]
    exact processAll_logged sink files engine _ _ s' [.start]
  | error e s' =>
    have hl : (logged sink).start (s, []) = .error e (s', [.start]) := by
      simp [logged, noting, h]
    simp [hl]

/-- From a state on, some paths give the same records as in a file system. -/
def Steady (s₀ : σ) (fs : FileSystem) (paths : List Path) : Prop :=
  ∀ s, Reaches sink s₀ s → ∀ p ∈ paths,
    extractFile (files s) engine.config.maxFileSize p = extractFile fs engine.config.maxFileSize p

def callsFor (fs : FileSystem) (paths : List Path) : List Call :=
  paths.flatMap fun p => (offered fs engine.config.maxFileSize p).map .write

variable {sink files engine} in
theorem steady_of_leavesAlone {s₀ : σ} (hk : LeavesAlone sink files engine.config s₀)
    {paths : List Path} (hp : ∀ p ∈ paths, .ok p ∈ engine.found (files s₀)) :
    engine.Steady sink files s₀ (files s₀) paths :=
  fun s hs p h => (hk s hs).extractFile_eq (hp p h) engine.config.maxFileSize

variable {sink files engine} in
theorem Steady.tail {s₀ : σ} {fs : FileSystem} {p : Path} {paths : List Path}
    (h : engine.Steady sink files s₀ fs (p :: paths)) : engine.Steady sink files s₀ fs paths :=
  fun s hs q hq => h s hs q (List.mem_cons_of_mem _ hq)

theorem reaches_processEach {s₀ s : σ} (h : Reaches sink s₀ s) (paths : List Path) :
    Reaches sink s₀ (engine.processEach sink files paths s).2 := by
  induction paths generalizing s with
  | nil => exact h
  | cons p paths ih => exact ih (reaches_processFile sink files engine h p)

theorem processEach_logged {s₀ s : σ} {fs : FileSystem} {paths : List Path}
    (h : engine.Steady sink files s₀ fs paths) (hs : Reaches sink s₀ s) (calls : List Call) :
    engine.processEach (logged sink) (files ·.1) paths (s, calls) =
      ((engine.processEach sink files paths s).1, (engine.processEach sink files paths s).2,
        calls ++ engine.callsFor fs paths) := by
  induction paths generalizing s calls with
  | nil => simp [processEach, callsFor]
  | cons p paths ih =>
    have ho : offered (files s) engine.config.maxFileSize p =
        offered fs engine.config.maxFileSize p := by
      rw [offered, offered, ← toOption_extractFile, h s hs p (List.mem_cons_self ..),
        toOption_extractFile]
    have hr := ih h.tail (reaches_processFile sink files engine hs p)
      (calls ++ (offered fs engine.config.maxFileSize p).map .write)
    rw [processEach_cons, processEach_cons, processFile_logged, ho, hr, callsFor, callsFor,
      List.flatMap_cons, List.append_assoc]

theorem processAll_calls {s₀ : σ} (hk : LeavesAlone sink files engine.config s₀)
    (paths : List Path)
    (hp : ∀ p ∈ paths, .ok p ∈ (files s₀).sourceFiles engine.config.toSourceOptions engine.config.root)
    (stats : Statistics) (s : σ) (hs : Reaches sink s₀ s) (calls : List Call) :
    (engine.processAll (logged sink) (files ·.1) stats (paths.map .ok) (s, calls)).2.2 =
      calls ++ (paths.flatMap fun p =>
        (offered (files s₀) engine.config.maxFileSize p).map .write) ++ [.finish] := by
  have he := engine.processEach_logged sink files (steady_of_leavesAlone hk hp) hs calls
  have ha := engine.processAll_append (logged sink) (files ·.1) stats paths [] (s, calls)
  rw [List.append_nil, he] at ha
  rw [ha]
  cases h : sink.finish (engine.processEach sink files paths s).2 <;>
    simp [processAll, logged, noting, h, callsFor]

theorem length_offer (records : List MethodRecord) (s : σ) :
    (offer sink records s).1.1 + (offer sink records s).1.2.length = records.length := by
  induction records generalizing s with
  | nil => rfl
  | cons r records ih =>
    rw [offer]
    cases sink.write r s with
    | ok u s' => exact (Nat.add_right_comm ..).trans (congrArg (· + 1) (ih s'))
    | error e s' => exact congrArg (· + 1) (ih s')

theorem answers_processFile (p : Path) (s : σ) :
    Answers (files s) engine.config.maxFileSize (engine.processFile sink files p s).1 := by
  rw [processFile]
  cases h : extractFile (files s) engine.config.maxFileSize p with
  | error e => simp [Answers, accepted?_of_extractFile_eq_error h]
  | ok records =>
    have hl := length_offer sink records s
    simp only [Answers, accepted?_of_extractFile_eq_ok h]
    exact ⟨_, _, rfl, hl⟩

theorem path_processFile (p : Path) (s : σ) : (engine.processFile sink files p s).1.path = p := by
  rw [processFile]
  cases extractFile (files s) engine.config.maxFileSize p <;> rfl

theorem map_path_processEach (paths : List Path) (s : σ) :
    (engine.processEach sink files paths s).1.map (·.path) = paths := by
  induction paths generalizing s with
  | nil => rfl
  | cons p paths ih => rw [processEach_cons, List.map_cons, path_processFile, ih]

theorem answers_processEach {s₀ s : σ} {fs : FileSystem} {paths : List Path}
    (h : engine.Steady sink files s₀ fs paths) (hs : Reaches sink s₀ s) :
    ∀ file ∈ (engine.processEach sink files paths s).1,
      Answers fs engine.config.maxFileSize file := by
  induction paths generalizing s with
  | nil => exact List.forall_mem_nil _
  | cons p paths ih =>
    rw [processEach_cons]
    refine List.forall_mem_cons.2 ⟨?_, ih h.tail (reaches_processFile sink files engine hs p)⟩
    have ha := answers_processFile sink files engine p s
    have hc : accepted? (files s) engine.config.maxFileSize p =
        accepted? fs engine.config.maxFileSize p := by
      rw [← toOption_extractFile, h s hs p (List.mem_cons_self ..), toOption_extractFile]
    simpa only [Answers, path_processFile, hc] using ha

theorem processAll_files {s₀ : σ} (hk : LeavesAlone sink files engine.config s₀)
    (paths : List Path)
    (hp : ∀ p ∈ paths, .ok p ∈ (files s₀).sourceFiles engine.config.toSourceOptions engine.config.root)
    (stats : Statistics) (s : σ) (hs : Reaches sink s₀ s) :
    (engine.processAll sink files stats (paths.map .ok) s).1.files.map (·.path) = paths ∧
      ∀ file ∈ (engine.processAll sink files stats (paths.map .ok) s).1.files,
        Answers (files s₀) engine.config.maxFileSize file := by
  have hf : (engine.processAll sink files stats (paths.map .ok) s).1.files =
      (engine.processEach sink files paths s).1 := by
    have ha := engine.processAll_append sink files stats paths [] s
    rw [List.append_nil] at ha
    simp only [ha, processAll]
    cases sink.finish (engine.processEach sink files paths s).2 <;> exact List.append_nil _
  rw [hf]
  exact ⟨engine.map_path_processEach sink files paths s,
    engine.answers_processEach sink files (steady_of_leavesAlone hk hp) hs⟩

end Engine

structure RunsOver {σ : Type} (sink : RecordSink σ) (files : σ → FileSystem) (engine : Engine)
    (s₀ : σ) (paths : List Path) : Prop where
  report : (engine.run (logged sink) (files ·.1) (s₀, [])).1 = (engine.run sink files s₀).1
  state : (engine.run (logged sink) (files ·.1) (s₀, [])).2.1 = (engine.run sink files s₀).2
  calls : (engine.run (logged sink) (files ·.1) (s₀, [])).2.2 =
    [.start] ++ (paths.flatMap fun p =>
      (offered (files s₀) engine.config.maxFileSize p).map .write) ++ [.finish]
  observed : (engine.run sink files s₀).1.files.map (·.path) = paths
  outcomes : ∀ file ∈ (engine.run sink files s₀).1.files,
    Answers (files s₀) engine.config.maxFileSize file

/-- The calls of a run that begins well and meets no error on its walk. They follow from the files
that are walked and from nothing else: neither a record that cannot be written nor a file that fails
makes a difference to what is offered next. Every path is observed in its turn. -/
theorem runsOver_of_walk {σ : Type} (sink : RecordSink σ) (files : σ → FileSystem) (engine : Engine)
    (s₀ s₁ : σ) (paths : List Path) (hk : LeavesAlone sink files engine.config s₀)
    (hs : sink.start s₀ = .ok () s₁)
    (hw : (files s₀).sourceFiles engine.config.toSourceOptions engine.config.root =
      paths.map .ok) :
    RunsOver sink files engine s₀ paths := by
  have hr : Reaches sink s₀ s₁ := Reaches.refl.start_ok hs
  have hp : ∀ p ∈ paths, .ok p ∈
      (files s₀).sourceFiles engine.config.toSourceOptions engine.config.root := by
    intro p hp
    rw [hw]
    exact List.mem_map_of_mem hp
  have hl : (logged sink).start (s₀, []) = .ok () (s₁, [.start]) := by
    simp [logged, noting, hs]
  have hw' : (files s₁).sourceFiles engine.config.toSourceOptions engine.config.root =
      paths.map .ok := (hk s₁ hr).walk.trans hw
  have hc := engine.processAll_calls sink files hk paths hp {} s₁ hr [.start]
  have hf := engine.processAll_files sink files hk paths hp {} s₁ hr
  obtain ⟨h₁, h₂⟩ := engine.run_logged sink files s₀
  refine ⟨h₁, h₂, ?_, ?_, ?_⟩
  · simp only [Engine.run, hl, hw']
    exact hc
  · simp only [Engine.run, hs, hw']
    exact hf.1
  · simp only [Engine.run, hs, hw']
    exact hf.2

def flaky : RecordSink (Nat × List MethodRecord) where
  start := fun s => .ok () s
  write r := fun (n, written) =>
    if n % 2 = 1 then .error .noSpace (n + 1, written) else .ok () (n + 1, written ++ [r])
  finish := fun s => .ok () s

def threeFiles : FileSystem where
  entries :=
    [([Utf8.encode "A.java"], .file "class A \x7b void a() \x7b\x7d void b() \x7b\x7d \x7d".toUTF8),
      ([Utf8.encode "B.java"], .file "class \x7b".toUTF8),
      ([Utf8.encode "C.java"], .file "interface C \x7b int c(); \x7d".toUTF8)]
  home := []

def plainEngine : Engine := ⟨{}, rfl⟩

theorem runsOver_flaky :
    (LeavesAlone flaky (fun _ => threeFiles) plainEngine.config (0, []) ∧
      flaky.start (0, []) = .ok () (0, []) ∧
      threeFiles.sourceFiles plainEngine.config.toSourceOptions plainEngine.config.root =
        ["./A.java", "./B.java", "./C.java"].map (.ok ∘ Path.ofText)) ∧
      RunsOver flaky (fun _ => threeFiles) plainEngine (0, [])
        (["./A.java", "./B.java", "./C.java"].map Path.ofText) := by
  have hk : LeavesAlone flaky (fun _ => threeFiles) plainEngine.config (0, []) :=
    fun _ _ => ⟨rfl, fun _ _ => rfl, fun _ _ => rfl⟩
  have hw : threeFiles.sourceFiles plainEngine.config.toSourceOptions plainEngine.config.root =
      (["./A.java", "./B.java", "./C.java"].map Path.ofText).map .ok := by cbv
  exact ⟨⟨hk, rfl, hw⟩, runsOver_of_walk flaky _ plainEngine (0, []) (0, []) _ hk rfl hw⟩

end MethodExtraction.Extraction
