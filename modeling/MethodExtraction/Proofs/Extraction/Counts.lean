import MethodExtraction.Proofs.Extraction.Calls
import MethodExtraction.Proofs.Output.Delivery

namespace MethodExtraction.Output

open Files Java

theorem after_of_ok {σ : Type} {action : EStateM IoError σ Unit} {s s' : σ}
    (h : action s = .ok () s') : after action s = s' := by
  rw [after, h]

theorem after_of_error {σ : Type} {action : EStateM IoError σ Unit} {s s' : σ} {e : IoError}
    (h : action s = .error e s') : after action s = s' := by
  rw [after, h]

namespace ArrayWriter

variable {δ : Type} (target : ByteSink δ) (w : ArrayWriter δ)

theorem onTarget_cases (action : EStateM IoError δ Unit) :
    (∃ d, onTarget action w = .ok () { w with target := d }) ∨
      ∃ e d, onTarget action w = .error e { w with target := d } := by
  cases h : action w.target with
  | ok u d => exact .inl ⟨d, by simp only [onTarget, h]⟩
  | error e d => exact .inr ⟨e, d, by simp only [onTarget, h]⟩

theorem recordsWritten_onTarget (action : EStateM IoError δ Unit) :
    (after (onTarget action) w).recordsWritten = w.recordsWritten := by
  obtain ⟨d, h⟩ | ⟨e, d, h⟩ := onTarget_cases w action
  · rw [after_of_ok h]
  · rw [after_of_error h]

theorem recordsWritten_start : (after (start target) w).recordsWritten = w.recordsWritten :=
  recordsWritten_onTarget w _

theorem recordsWritten_finish : (after (finish target) w).recordsWritten = w.recordsWritten := by
  obtain ⟨d, h⟩ | ⟨e, d, h⟩ := onTarget_cases w (target.writeAll w.closing.toUTF8)
  · have hf : after (finish target) w = after (onTarget target.flush) { w with target := d } := by
      rw [after, finish_eq, put, h]
      rfl
    rw [hf, recordsWritten_onTarget]
  · have hf : finish target w = .error e { w with target := d } := by rw [finish_eq, put, h]
    rw [after_of_error hf]

theorem write_cases (r : MethodRecord) :
    (∃ w', write target r w = .ok () w' ∧ w'.recordsWritten = w.recordsWritten + 1) ∨
      ∃ e w', write target r w = .error e w' ∧ w'.recordsWritten = w.recordsWritten := by
  rw [write_eq, put]
  obtain ⟨d, h⟩ | ⟨e, d, h⟩ :=
    onTarget_cases { w with emitted := true } (target.writeAll (w.piece r).toUTF8)
  · exact .inl ⟨⟨w.format, w.recordsWritten + 1, true, d⟩, by simp only [h], rfl⟩
  · exact .inr ⟨e, ⟨w.format, w.recordsWritten, true, d⟩, by simp only [h], rfl⟩

end ArrayWriter

end MethodExtraction.Output

namespace MethodExtraction.Extraction

open Files Java Output

namespace FileOutcome

def written : FileOutcome → Nat
  | parsed records _ => records
  | failed _ => 0

def unwritten : FileOutcome → Nat
  | parsed _ writeFailures => writeFailures
  | failed _ => 0

end FileOutcome

def total (count : FileOutcome → Nat) (reports : List FileReport) : Nat :=
  (reports.map fun file => count file.outcome).sum

theorem total_cons (count : FileOutcome → Nat) (file : FileReport) (reports : List FileReport) :
    total count (file :: reports) = count file.outcome + total count reports :=
  List.sum_cons

theorem total_append (count : FileOutcome → Nat) (a b : List FileReport) :
    total count (a ++ b) = total count a + total count b := by
  rw [total, List.map_append, List.sum_append, total, total]

theorem Statistics.recordAll_counts (stats : Statistics) (reports : List FileReport) :
    (stats.recordAll reports).filesParsed + (stats.recordAll reports).filesFailed =
        stats.filesParsed + stats.filesFailed + reports.length ∧
      (stats.recordAll reports).recordsWritten = stats.recordsWritten + total (·.written) reports ∧
      (stats.recordAll reports).writeFailures =
        stats.writeFailures + total (·.unwritten) reports := by
  induction reports generalizing stats with
  | nil => exact ⟨rfl, rfl, rfl⟩
  | cons file reports ih =>
    obtain ⟨hf, hw, hu⟩ := ih (stats.record file.outcome)
    have hr : stats.recordAll (file :: reports) = (stats.record file.outcome).recordAll reports :=
      rfl
    rw [hr, hf, hw, hu, total_cons, total_cons, List.length_cons]
    cases file.outcome with
    | parsed records failures =>
      simp only [record, FileOutcome.written, FileOutcome.unwritten]
      omega
    | failed failure =>
      simp only [record, FileOutcome.written, FileOutcome.unwritten]
      omega

def CountsAll (fs : FileSystem) (limit : Option Nat) (file : FileReport) : Prop :=
  ∀ written unwritten, file.outcome = .parsed written unwritten →
    ∃ methods, extractFile fs limit file.path = .ok methods ∧
      written + unwritten = methods.length

namespace Engine

section

variable {σ : Type} (sink : RecordSink σ) (files : σ → FileSystem) (engine : Engine)

theorem countsAll_processFile (p : Path) (s : σ) :
    CountsAll (files s) engine.config.maxFileSize (engine.processFile sink files p s).1 := by
  intro written unwritten h
  rw [path_processFile]
  rw [processFile] at h
  cases hx : extractFile (files s) engine.config.maxFileSize p with
  | error e =>
    rw [hx] at h
    cases h
  | ok methods =>
    rw [hx] at h
    obtain ⟨rfl, rfl⟩ := FileOutcome.parsed.inj h
    exact ⟨methods, rfl, length_offer sink methods s⟩

theorem mem_processEach {s₀ s : σ} (hs : Reaches sink s₀ s) {paths : List Path} {file : FileReport}
    (h : file ∈ (engine.processEach sink files paths s).1) :
    ∃ s', Reaches sink s₀ s' ∧ file = (engine.processFile sink files file.path s').1 := by
  induction paths generalizing s with
  | nil => cases h
  | cons p paths ih =>
    rw [processEach_cons] at h
    obtain rfl | h := List.mem_cons.1 h
    · exact ⟨s, hs, by rw [path_processFile]⟩
    · exact ih (reaches_processFile sink files engine hs p) h

end

section

variable {δ : Type} (target : ByteSink δ) (files : ArrayWriter δ → FileSystem) (engine : Engine)
  (w : ArrayWriter δ)

theorem recordsWritten_offer (records : List MethodRecord) :
    (offer (ArrayWriter.sink target) records w).2.recordsWritten =
      w.recordsWritten + (offer (ArrayWriter.sink target) records w).1.1 := by
  induction records generalizing w with
  | nil => rfl
  | cons r records ih =>
    obtain ⟨w', hw, hn⟩ | ⟨e, w', hw, hn⟩ := ArrayWriter.write_cases target w r
    · have ho : (ArrayWriter.sink target).write r w = .ok () w' := hw
      have hi := ih w'
      simp only [offer, ho, hi, hn, Nat.add_assoc, Nat.add_comm 1]
    · have ho : (ArrayWriter.sink target).write r w = .error e w' := hw
      simp only [offer, ho, ih, hn]

theorem recordsWritten_processFile (p : Path) :
    (engine.processFile (ArrayWriter.sink target) files p w).2.recordsWritten =
      w.recordsWritten +
        (engine.processFile (ArrayWriter.sink target) files p w).1.outcome.written := by
  rw [processFile]
  cases extractFile (files w) engine.config.maxFileSize p with
  | error e => rfl
  | ok records => exact recordsWritten_offer target w records

theorem recordsWritten_processEach (paths : List Path) :
    (engine.processEach (ArrayWriter.sink target) files paths w).2.recordsWritten =
      w.recordsWritten +
        total (·.written) (engine.processEach (ArrayWriter.sink target) files paths w).1 := by
  induction paths generalizing w with
  | nil => rfl
  | cons p paths ih =>
    rw [processEach_cons, ih, recordsWritten_processFile, total_cons, Nat.add_assoc]

theorem recordsWritten_run :
    (engine.run (ArrayWriter.sink target) files w).2.recordsWritten =
      w.recordsWritten +
        total (·.written) (engine.run (ArrayWriter.sink target) files w).1.files := by
  have hstart {w₁ : ArrayWriter δ} (h : after (ArrayWriter.start target) w = w₁) :
      w₁.recordsWritten = w.recordsWritten := h ▸ ArrayWriter.recordsWritten_start target w
  have hfinish {w₁ w₂ : ArrayWriter δ} (h : after (ArrayWriter.finish target) w₁ = w₂) :
      w₂.recordsWritten = w₁.recordsWritten := h ▸ ArrayWriter.recordsWritten_finish target w₁
  have hr := engine.runs_run (ArrayWriter.sink target) files w
  generalize engine.run (ArrayWriter.sink target) files w = result at hr ⊢
  cases hr with
  | refused h => exact hstart (after_of_error h)
  | lost h hw => rw [recordsWritten_processEach, hstart (after_of_ok h)]
  | unfinished h hw hf =>
    rw [hfinish (after_of_error hf), recordsWritten_processEach, hstart (after_of_ok h)]
  | finished h hw hf =>
    rw [hfinish (after_of_ok hf), recordsWritten_processEach, hstart (after_of_ok h)]

end

end Engine

/-- A call of an engine, or a change of what its writer writes to and of the files there are. -/
inductive Step (δ : Type) where
  | change (f : δ → δ)
  | process (p : Path)
  | run

inductive Event (σ : Type) where
  | processed (before : σ) (file : FileReport)
  | ran (before : σ) (report : RunReport)

def Event.files {σ : Type} : Event σ → List FileReport
  | processed _ file => [file]
  | ran _ report => report.files

section

variable {δ : Type} (target : ByteSink δ) (tree : δ → FileSystem) (engine : Engine)

/-- The counts of a call agree with each other, with the methods in the files as they were when each
was processed, and with what the walk has found. -/
def Event.Balanced : Event (ArrayWriter δ) → Prop
  | processed w file => CountsAll (tree w.target) engine.config.maxFileSize file
  | ran w report =>
    (∀ file ∈ report.files, ∃ w', Reaches (ArrayWriter.sink target) w w' ∧
      file = (engine.processFile (ArrayWriter.sink target) (tree ·.target) file.path w').1 ∧
      CountsAll (tree w'.target) engine.config.maxFileSize file) ∧
    ∀ stats, report.result = .ok stats →
      ∃ (w₁ : ArrayWriter δ) (paths : List Path), ArrayWriter.start target w = .ok () w₁ ∧
        engine.found (tree w₁.target) = paths.map .ok ∧
        report.files.map (·.path) = paths ∧
        stats.filesParsed + stats.filesFailed = paths.length ∧
        stats.recordsWritten = total (·.written) report.files ∧
        stats.writeFailures = total (·.unwritten) report.files

namespace Engine

def take (step : Step δ) (w : ArrayWriter δ) :
    List (Event (ArrayWriter δ)) × ArrayWriter δ :=
  match step with
  | .change f => ([], { w with target := f w.target })
  | .process p =>
    let (file, w') := engine.processFile (ArrayWriter.sink target) (tree ·.target) p w
    ([.processed w file], w')
  | .run =>
    let (report, w') := engine.run (ArrayWriter.sink target) (tree ·.target) w
    ([.ran w report], w')

def history : List (Step δ) → ArrayWriter δ → List (Event (ArrayWriter δ)) × ArrayWriter δ
  | [], w => ([], w)
  | step :: steps, w =>
    let (events, w) := engine.take target tree step w
    let (later, w) := history steps w
    (events ++ later, w)

theorem recordsWritten_take (step : Step δ) (w : ArrayWriter δ) :
    (engine.take target tree step w).2.recordsWritten = w.recordsWritten +
      total (·.written) ((engine.take target tree step w).1.flatMap Event.files) := by
  cases step with
  | change f => rfl
  | process p => exact recordsWritten_processFile target (tree ·.target) engine w p
  | run =>
    have h := recordsWritten_run target (tree ·.target) engine w
    rwa [← List.append_nil (engine.run _ _ w).1.files] at h

theorem balanced_run (w : ArrayWriter δ) :
    (Event.ran w (engine.run (ArrayWriter.sink target) (tree ·.target) w).1).Balanced target tree
      engine := by
  have hr := engine.runs_run (ArrayWriter.sink target) (tree ·.target) w
  have hmem {w₁ : ArrayWriter δ} (h : ArrayWriter.start target w = .ok () w₁) (paths : List Path) :
      ∀ file ∈ (engine.processEach (ArrayWriter.sink target) (tree ·.target) paths w₁).1,
        ∃ w', Reaches (ArrayWriter.sink target) w w' ∧
          file = (engine.processFile (ArrayWriter.sink target) (tree ·.target) file.path w').1 ∧
          CountsAll (tree w'.target) engine.config.maxFileSize file := by
    intro file hf
    obtain ⟨w', hw', he⟩ := mem_processEach _ _ engine (Reaches.refl.start_ok h) hf
    have hc := countsAll_processFile (ArrayWriter.sink target) (tree ·.target) engine file.path w'
    rw [← he] at hc
    exact ⟨w', hw', he, hc⟩
  generalize engine.run (ArrayWriter.sink target) (tree ·.target) w = result at hr ⊢
  cases hr with
  | refused h => exact ⟨List.forall_mem_nil _, nofun⟩
  | lost h hw => exact ⟨hmem h _, nofun⟩
  | unfinished h hw hf => exact ⟨hmem h _, nofun⟩
  | @finished w₁ paths w₂ h hw hf =>
    refine ⟨hmem h _, ?_⟩
    rintro stats ⟨⟩
    obtain ⟨hn, hw', hu⟩ := Statistics.recordAll_counts {}
      (engine.processEach (ArrayWriter.sink target) (tree ·.target) paths w₁).1
    have hp := engine.map_path_processEach (ArrayWriter.sink target) (tree ·.target) paths w₁
    have hl := congrArg List.length hp
    rw [List.length_map] at hl
    refine ⟨w₁, paths, h, hw, hp, ?_, ?_, ?_⟩
    · simp only [hn, hl, Nat.zero_add]
    · rw [hw', Nat.zero_add]
    · rw [hu, Nat.zero_add]

theorem balanced_take (step : Step δ) (w : ArrayWriter δ) :
    ∀ event ∈ (engine.take target tree step w).1, event.Balanced target tree engine := by
  cases step with
  | change f => exact List.forall_mem_nil _
  | process p =>
    exact List.forall_mem_singleton.2
      (countsAll_processFile (ArrayWriter.sink target) (tree ·.target) engine p w)
  | run => exact List.forall_mem_singleton.2 (balanced_run target tree engine w)

theorem history_balanced (steps : List (Step δ)) (w : ArrayWriter δ) :
    (engine.history target tree steps w).2.recordsWritten = w.recordsWritten +
        total (·.written) ((engine.history target tree steps w).1.flatMap Event.files) ∧
      ∀ event ∈ (engine.history target tree steps w).1, event.Balanced target tree engine := by
  induction steps generalizing w with
  | nil => exact ⟨rfl, List.forall_mem_nil _⟩
  | cons step steps ih =>
    obtain ⟨hn, hb⟩ := ih (engine.take target tree step w).2
    have ht := engine.recordsWritten_take target tree step w
    refine ⟨?_, List.forall_mem_append.2 ⟨engine.balanced_take target tree step w, hb⟩⟩
    simp only [history, List.flatMap_append, total_append, hn, ht, Nat.add_assoc]

/-- Whatever is asked of an engine, and whatever happens to the files and to what its writer writes
to: the writer has counted as many records as the files processed so far, in runs that failed too;
the count of each file that was parsed is that of its methods; and the totals of a run are those of
the files on its walk. -/
theorem counts_agree (format : OutputFormat) (d : δ) (steps : List (Step δ)) :
    (engine.history target tree steps (.new format d)).2.recordsWritten =
        total (·.written)
          ((engine.history target tree steps (.new format d)).1.flatMap Event.files) ∧
      ∀ event ∈ (engine.history target tree steps (.new format d)).1,
        event.Balanced target tree engine := by
  obtain ⟨hn, hb⟩ := engine.history_balanced target tree steps (.new format d)
  exact ⟨hn.trans (Nat.zero_add _), hb⟩

end Engine

end

end MethodExtraction.Extraction
