import MethodExtraction.Extraction.ToFile
import MethodExtraction.Proofs.Extraction.Counts

namespace MethodExtraction

namespace Output.ArrayWriter

open Files Java

variable {δ : Type} {target : ByteSink δ} {w w' : ArrayWriter δ}

theorem target_after_onTarget (w : ArrayWriter δ) (action : EStateM IoError δ Unit) :
    (after (onTarget action) w).target = after action w.target := by
  cases h : action w.target with
  | ok u d => simp only [after, onTarget, h]
  | error e d => simp only [after, onTarget, h]

theorem target_after_write (w : ArrayWriter δ) (r : MethodRecord) :
    (after (write target r) w).target = after (target.writeAll (w.piece r).toUTF8) w.target := by
  rw [← target_after_onTarget { w with emitted := true }, after, after, write_eq, put]
  cases onTarget (target.writeAll (w.piece r).toUTF8) { w with emitted := true } <;> rfl

theorem target_after_finish (target : ByteSink δ) (w : ArrayWriter δ) :
    (after (finish target) w).target = after (target.writeAll w.closing.toUTF8) w.target ∨
      (after (finish target) w).target =
        after target.flush (after (target.writeAll w.closing.toUTF8) w.target) := by
  rw [← target_after_onTarget w]
  cases h : onTarget (target.writeAll w.closing.toUTF8) w with
  | ok u w' =>
    right
    rw [← target_after_onTarget]
    simp only [after, finish_eq, put, h]
  | error e w' =>
    left
    simp only [after, finish_eq, put, h]

theorem target_of_onTarget {action : EStateM IoError δ Unit} (h : onTarget action w = .ok () w') :
    action w.target = .ok () w'.target := by
  cases ha : action w.target with
  | ok u d =>
    simp only [onTarget, ha, EStateM.Result.ok.injEq, true_and] at h
    rw [← h]
  | error e d =>
    simp only [onTarget, ha] at h
    cases h

theorem target_of_finish (h : finish target w = .ok () w') :
    ∃ d, target.writeAll w.closing.toUTF8 w.target = .ok () d ∧
      target.flush d = .ok () w'.target := by
  rw [finish_eq] at h
  cases hp : put target w.closing w with
  | ok u w₁ =>
    rw [hp] at h
    exact ⟨w₁.target, target_of_onTarget hp, target_of_onTarget h⟩
  | error e w₁ =>
    rw [hp] at h
    cases h

end Output.ArrayWriter

namespace Extraction

open Files Java Output Text

/-- What writing and flushing keep true of a target holds in every state that calls lead to. -/
theorem Reaches.target {δ : Type} {target : ByteSink δ} {w₀ w : ArrayWriter δ}
    (h : Reaches (ArrayWriter.sink target) w₀ w) (holds : δ → Prop) (h₀ : holds w₀.target)
    (hwrite : ∀ d bytes, holds d → holds (after (target.writeAll bytes) d))
    (hflush : ∀ d, holds d → holds (after target.flush d)) : holds w.target := by
  induction h with
  | refl => exact h₀
  | @start w _ ih =>
    have ht := ArrayWriter.target_after_onTarget w (target.writeAll ArrayWriter.opening.toUTF8)
    exact ht.symm ▸ hwrite _ _ ih
  | @write w _ r ih => exact (ArrayWriter.target_after_write w r).symm ▸ hwrite _ _ ih
  | @finish w _ ih =>
    obtain ht | ht := ArrayWriter.target_after_finish target w
    · exact ht.symm ▸ hwrite _ _ ih
    · exact ht.symm ▸ hflush _ (hwrite _ _ ih)

theorem Reaches.trans {σ : Type} {sink : RecordSink σ} {s₀ s₁ s : σ} (h : Reaches sink s₀ s₁)
    (h' : Reaches sink s₁ s) : Reaches sink s₀ s := by
  induction h' with
  | refl => exact h
  | start _ ih => exact ih.start
  | write _ r ih => exact ih.write r
  | finish _ ih => exact ih.finish

/-- A run goes on from where its sink has been started. -/
theorem Engine.reaches_run_of_started {σ : Type} {sink : RecordSink σ} {s s₁ : σ}
    (h : sink.start s = .ok () s₁) (files : σ → FileSystem) (engine : Engine) :
    Reaches sink s₁ (engine.run sink files s).2 := by
  have hr := engine.runs_run sink files s
  generalize engine.run sink files s = result at hr ⊢
  cases hr with
  | refused h' => cases h'.symm.trans h
  | lost h' hw =>
    cases h'.symm.trans h
    exact reaches_processEach sink files engine .refl _
  | unfinished h' hw hf =>
    cases h'.symm.trans h
    exact after_of_error hf ▸ (reaches_processEach sink files engine .refl _).finish
  | finished h' hw hf =>
    cases h'.symm.trans h
    exact after_of_ok hf ▸ (reaches_processEach sink files engine .refl _).finish

theorem Engine.reaches_run {σ : Type} (sink : RecordSink σ) (files : σ → FileSystem)
    (engine : Engine) (s : σ) : Reaches sink s (engine.run sink files s).2 := by
  cases h : sink.start s with
  | error e s' =>
    rw [run_of_refused h]
    exact after_of_error h ▸ Reaches.refl.start
  | ok u s₁ => exact (Reaches.refl.start_ok h).trans (reaches_run_of_started h files engine)

theorem Engine.exists_finish_of_statistics {σ : Type} {sink : RecordSink σ}
    {files : σ → FileSystem} {engine : Engine} {s : σ} {stats : Statistics}
    (h : (engine.run sink files s).1.result = .ok stats) :
    ∃ s', Reaches sink s s' ∧ sink.finish s' = .ok () (engine.run sink files s).2 := by
  have hr := engine.runs_run sink files s
  generalize engine.run sink files s = result at hr h ⊢
  cases hr with
  | refused h' => cases h
  | lost h' hw => cases h
  | unfinished h' hw hf => cases h
  | finished h' hw hf =>
    exact ⟨_, reaches_processEach sink files engine (Reaches.refl.start_ok h') _, hf⟩

section

variable {sinkAt : Location → ByteSink FileSystem} {config : Config} {fs fs₁ : FileSystem}
  {location : Location}

theorem after_append_device {d : Device} (h : fs.content? location = some (.device d))
    (more : ByteArray) : after (Change.append location more) fs = fs := by
  rw [after, Change.append, h]
  cases d with
  | null => rfl
  | full =>
    by_cases he : more.isEmpty = true
    · simp only [he, if_true]
    · simp only [he, if_false, Bool.false_eq_true]

theorem Engine.new_of_valid (h : config.validate = .ok ()) :
    Engine.new config = .ok ⟨config, h⟩ := by
  unfold Engine.new
  split
  next => rfl
  next e he => cases h.symm.trans he

theorem Engine.new_of_invalid {message : String} (hv : config.validate = .error message) :
    Engine.new config = .error (.configuration message) := by
  unfold Engine.new
  split
  next h => cases hv.symm.trans h
  next e h =>
    cases hv.symm.trans h
    rfl

theorem openOutput_eq (p : Path) (fs : FileSystem) :
    openOutput p fs =
      match Change.makeParents p fs with
      | .ok () fs => Change.create p fs
      | .error e fs => .error e fs := by
  simp only [openOutput, bind, EStateM.bind]
  cases Change.makeParents p fs <;> rfl

theorem create_error {p : Path} {e : IoError} (h : Change.create p fs = .error e fs₁) : fs₁ = fs := by
  rw [Change.create] at h
  cases hw : Change.writable p fs with
  | error e' =>
    rw [hw] at h
    cases h
    rfl
  | ok t =>
    rw [hw] at h
    cases t with
    | vacant l => cases h
    | existing l =>
      simp only at h
      split at h <;> cases h <;> rfl

theorem create_of_openOutput {p : Path} (ho : openOutput p fs = .ok location fs₁) :
    ∃ fs₀, Change.makeParents p fs = .ok () fs₀ ∧ Change.create p fs₀ = .ok location fs₁ := by
  rw [openOutput_eq] at ho
  cases hp : Change.makeParents p fs with
  | ok u fs₀ =>
    rw [hp] at ho
    exact ⟨fs₀, rfl, ho⟩
  | error e fs₀ =>
    rw [hp] at ho
    cases ho

def extractThrough (sinkAt : Location → ByteSink FileSystem) (config : Config) (fs : FileSystem) :
    RunReport × FileSystem :=
  match Engine.new config with
  | .error e => (⟨[], .error e⟩, fs)
  | .ok engine =>
    match openOutput config.output fs with
    | .error e fs => (⟨[], .error (.write e)⟩, fs)
    | .ok location fs =>
      let sink := ArrayWriter.sink (sinkAt location)
      let (report, writer) := engine.run sink ArrayWriter.target (.new config.format fs)
      (report, writer.target)

theorem extractToFile_eq : extractToFile = extractThrough fileSink := rfl

theorem extractThrough_of_opened (hv : config.validate = .ok ())
    (ho : openOutput config.output fs = .ok location fs₁) :
    extractThrough sinkAt config fs =
      ((Engine.run (ArrayWriter.sink (sinkAt location)) (·.target) ⟨config, hv⟩
          (.new config.format fs₁)).1,
        (Engine.run (ArrayWriter.sink (sinkAt location)) (·.target) ⟨config, hv⟩
          (.new config.format fs₁)).2.target) := by
  simp only [extractThrough, Engine.new_of_valid hv, ho]

theorem extractThrough_of_unopened {e : IoError} (hv : config.validate = .ok ())
    (ho : openOutput config.output fs = .error e fs₁) :
    extractThrough sinkAt config fs = (⟨[], .error (.write e)⟩, fs₁) := by
  simp only [extractThrough, Engine.new_of_valid hv, ho]

theorem extractThrough_of_invalid {message : String} (hv : config.validate = .error message) :
    extractThrough sinkAt config fs = (⟨[], .error (.configuration message)⟩, fs) := by
  simp only [extractThrough, Engine.new_of_invalid hv]

theorem extractToFile_of_opened (hv : config.validate = .ok ())
    (ho : openOutput config.output fs = .ok location fs₁) :
    extractToFile config fs =
      ((Engine.run (ArrayWriter.sink (fileSink location)) (·.target) ⟨config, hv⟩
          (.new config.format fs₁)).1,
        (Engine.run (ArrayWriter.sink (fileSink location)) (·.target) ⟨config, hv⟩
          (.new config.format fs₁)).2.target) :=
  extractThrough_of_opened hv ho

theorem extractToFile_of_unopened {e : IoError} (hv : config.validate = .ok ())
    (ho : openOutput config.output fs = .error e fs₁) :
    extractToFile config fs = (⟨[], .error (.write e)⟩, fs₁) :=
  extractThrough_of_unopened hv ho

theorem extractToFile_of_invalid {message : String} (hv : config.validate = .error message) :
    extractToFile config fs = (⟨[], .error (.configuration message)⟩, fs) :=
  extractThrough_of_invalid hv

end

end Extraction

end MethodExtraction
