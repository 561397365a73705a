import MethodExtraction.Proofs.Extraction.SizeLimit
import MethodExtraction.Proofs.Extraction.Through

namespace MethodExtraction.Extraction

open Files Java Output Text

theorem Config.validate_eq_ok_iff (c : Config) : c.validate = .ok () ↔
    c.suffix ≠ "" ∧ c.maxDepth ≠ some 0 ∧ c.maxFileSize ≠ some 0 ∧ c.output ≠ .empty := by
  rw [validate]
  split_ifs with hs hd hl ho
  · simp [hs]
  · simp [hd]
  · simp [hl]
  · simp [ho]
  · simp [hs, hd, hl, ho]

inductive Prints (fs : FileSystem) (limit : Option Nat) (p : Path) : List String → Prop where
  | parsed {bytes root} (hw : withinLimit fs limit p = true) (hr : fs.read p = .ok bytes)
      (hp : parse (Utf8.decode bytes.data.toList) = .ok root) : Prints fs limit p []
  | syntaxError {bytes e} (hw : withinLimit fs limit p = true) (hr : fs.read p = .ok bytes)
      (hp : parse (Utf8.decode bytes.data.toList) = .error e) :
      Prints fs limit p ["Error in " ++ p.display]
  | unreadable (h : withinLimit fs limit p = false ∨ ∃ e, fs.read p = .error e) :
      Prints fs limit p ["Failed to parse " ++ p.display]

namespace Engine

inductive PrintsEach {σ : Type} (sink : RecordSink σ) (files : σ → FileSystem) (engine : Engine) :
    List Path → σ → List (List String) → Prop where
  | nil {s} : PrintsEach sink files engine [] s []
  | cons {p paths s lines printed} (h : Prints (files s) engine.config.maxFileSize p lines)
      (hr : PrintsEach sink files engine paths (engine.processFile sink files p s).2 printed) :
      PrintsEach sink files engine (p :: paths) s (lines :: printed)

variable (engine : Engine) (fs : FileSystem)

abbrev PrintsAt (location : Location) :
    List Path → ArrayWriter FileSystem → List (List String) → Prop :=
  engine.PrintsEach (ArrayWriter.sink (fileSink location)) (·.target)

abbrev writerAfter (location : Location) (paths : List Path) (w : ArrayWriter FileSystem) :
    ArrayWriter FileSystem :=
  (engine.processEach (ArrayWriter.sink (fileSink location)) (·.target) paths w).2

/-- How far an extraction into a file gets: the files that are processed, what is printed of each,
and how it ends. -/
inductive Goes : List Path → List (List String) → Except ExtractionError Statistics → Prop where
  | unopened {e fs₁} (ho : openOutput engine.config.output fs = .error e fs₁) :
      Goes [] [] (.error (.write e))
  | refused {location fs₁ e w} (ho : openOutput engine.config.output fs = .ok location fs₁)
      (hs : ArrayWriter.start (fileSink location) (.new engine.config.format fs₁) = .error e w) :
      Goes [] [] (.error (.write e))
  | lost {location fs₁ w paths printed e rest}
      (ho : openOutput engine.config.output fs = .ok location fs₁)
      (hs : ArrayWriter.start (fileSink location) (.new engine.config.format fs₁) = .ok () w)
      (hw : engine.found w.target = paths.map .ok ++ .error e :: rest)
      (hp : engine.PrintsAt location paths w printed) :
      Goes paths printed (.error (.traversal e))
  | unfinished {location fs₁ w paths printed e w'}
      (ho : openOutput engine.config.output fs = .ok location fs₁)
      (hs : ArrayWriter.start (fileSink location) (.new engine.config.format fs₁) = .ok () w)
      (hw : engine.found w.target = paths.map .ok)
      (hp : engine.PrintsAt location paths w printed)
      (hf : ArrayWriter.finish (fileSink location) (engine.writerAfter location paths w) =
        .error e w') :
      Goes paths printed (.error (.write e))
  | finished {location fs₁ w paths printed stats w'}
      (ho : openOutput engine.config.output fs = .ok location fs₁)
      (hs : ArrayWriter.start (fileSink location) (.new engine.config.format fs₁) = .ok () w)
      (hw : engine.found w.target = paths.map .ok)
      (hp : engine.PrintsAt location paths w printed)
      (hf : ArrayWriter.finish (fileSink location) (engine.writerAfter location paths w) =
        .ok () w')
      (hfailed : stats.filesFailed = printed.flatten.length)
      (hall : stats.filesParsed + stats.filesFailed = paths.length) :
      Goes paths printed (.ok stats)

end Engine

def FileReport.lines (file : FileReport) : List String :=
  match file.outcome with
  | .failed failure => [failure.diagnostic file.path]
  | .parsed .. => []

theorem FileReport.lines_of_unreadable {file : FileReport} {cause : ExtractionError}
    (h : file.outcome = .failed (.unreadable cause)) :
    file.lines = ["Failed to parse " ++ file.path.display] := by
  rw [lines, h]
  rfl

theorem prints_of_classifies {fs : FileSystem} {limit : Option Nat} {file : FileReport}
    (h : Classifies fs limit file.path file.outcome) : Prints fs limit file.path file.lines := by
  cases hw : withinLimit fs limit file.path with
  | false =>
    have hl : file.lines = ["Failed to parse " ++ file.path.display] := by
      cases limit with
      | none => cases hw
      | some n =>
        cases hs : fs.size file.path with
        | error e => exact FileReport.lines_of_unreadable (h.unmeasured n e rfl hs)
        | ok size =>
          have hn : n < size := by simpa [withinLimit, hs] using hw
          exact FileReport.lines_of_unreadable (h.tooLarge n size rfl hs hn)
    rw [hl]
    exact .unreadable (.inl hw)
  | true =>
    cases hr : fs.read file.path with
    | error e =>
      rw [FileReport.lines_of_unreadable (h.unread e hw hr)]
      exact .unreadable (.inr ⟨e, hr⟩)
    | ok bytes =>
      cases hp : parse (Utf8.decode bytes.data.toList) with
      | error e =>
        have hl : file.lines = ["Error in " ++ file.path.display] := by
          rw [FileReport.lines, h.unparseable bytes e hw hr hp]
          rfl
        rw [hl]
        exact .syntaxError hw hr hp
      | ok root =>
        obtain ⟨written, unwritten, ho⟩ := h.parsed bytes root hw hr hp
        have hl : file.lines = [] := by rw [FileReport.lines, ho]
        rw [hl]
        exact .parsed hw hr hp

theorem Statistics.filesFailed_recordAll (stats : Statistics) (reports : List FileReport) :
    (stats.recordAll reports).filesFailed =
      stats.filesFailed + (reports.flatMap FileReport.lines).length := by
  induction reports generalizing stats with
  | nil => rfl
  | cons file reports ih =>
    have hr : stats.recordAll (file :: reports) = (stats.record file.outcome).recordAll reports :=
      rfl
    rw [hr, ih, List.flatMap_cons, List.length_append, ← Nat.add_assoc, FileReport.lines]
    cases file.outcome <;> rfl

namespace Engine

section

variable {σ : Type} {sink : RecordSink σ} {files : σ → FileSystem} {engine : Engine}

theorem prints_processFile (p : Path) (s : σ) :
    Prints (files s) engine.config.maxFileSize p (engine.processFile sink files p s).1.lines := by
  have hp := engine.path_processFile sink files p s
  have h : Classifies (files s) engine.config.maxFileSize (engine.processFile sink files p s).1.path
      (engine.processFile sink files p s).1.outcome := by
    rw [hp]
    exact classifies_processFile
  have hprints := prints_of_classifies h
  rwa [hp] at hprints

theorem printsEach_processEach (paths : List Path) (s : σ) :
    engine.PrintsEach sink files paths s
      ((engine.processEach sink files paths s).1.map FileReport.lines) := by
  induction paths generalizing s with
  | nil => exact .nil
  | cons p paths ih =>
    rw [processEach_cons, List.map_cons]
    exact .cons (prints_processFile p s) (ih _)

end

/-- An extraction with a valid configuration goes on in one of these ways, and the lines of its
report are what is printed of the files. -/
theorem goes_extractToFile {c : Config} (hv : c.validate = .ok ()) (fs : FileSystem) :
    ∃ paths printed, Goes ⟨c, hv⟩ fs paths printed (extractToFile c fs).1.result ∧
      (extractToFile c fs).1.files.map FileReport.lines = printed := by
  cases ho : openOutput c.output fs with
  | error e fs₁ =>
    rw [extractToFile_of_unopened hv ho]
    exact ⟨[], [], .unopened ho, rfl⟩
  | ok location fs₁ =>
    rw [extractToFile_of_opened hv ho]
    have hr := runs_run (ArrayWriter.sink (fileSink location)) (·.target) ⟨c, hv⟩
      (.new c.format fs₁)
    generalize Engine.run (ArrayWriter.sink (fileSink location)) (·.target) ⟨c, hv⟩
      (.new c.format fs₁) = result at hr
    cases hr with
    | refused hs => exact ⟨[], [], .refused ho hs, rfl⟩
    | lost hs hw => exact ⟨_, _, .lost ho hs hw (printsEach_processEach _ _), rfl⟩
    | unfinished hs hw hf => exact ⟨_, _, .unfinished ho hs hw (printsEach_processEach _ _) hf, rfl⟩
    | @finished w paths w' hs hw hf =>
      refine ⟨_, _, .finished ho hs hw (printsEach_processEach _ _) hf ?_ ?_, rfl⟩
      · rw [Statistics.filesFailed_recordAll, Nat.zero_add, List.flatMap_def]
      · have hn := map_path_processEach (ArrayWriter.sink (fileSink location)) (·.target) ⟨c, hv⟩
          paths w
        rw [(Statistics.recordAll_counts {} _).1, ← congrArg List.length hn, List.length_map]
        exact Nat.zero_add _

end Engine

end MethodExtraction.Extraction