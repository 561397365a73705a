import MethodExtraction.Extraction.Engine

namespace MethodExtraction.Extraction

open Files Java Output

namespace Engine

variable {σ : Type} (sink : RecordSink σ) (files : σ → FileSystem) (engine : Engine)

abbrev found (fs : FileSystem) : List Visit :=
  fs.sourceFiles engine.config.toSourceOptions engine.config.root

def processEach : List Path → σ → List FileReport × σ
  | [], s => ([], s)
  | p :: paths, s =>
    let (file, s) := engine.processFile sink files p s
    let (reports, s) := processEach paths s
    (file :: reports, s)

end Engine

def Statistics.recordAll (stats : Statistics) (reports : List FileReport) : Statistics :=
  reports.foldl (fun stats file => stats.record file.outcome) stats

theorem visits_cases (visits : List Visit) :
    (∃ paths : List Path, visits = paths.map .ok) ∨
      ∃ (paths : List Path) (e : WalkError) (rest : List Visit),
        visits = paths.map .ok ++ .error e :: rest := by
  induction visits with
  | nil => exact .inl ⟨[], rfl⟩
  | cons v visits ih =>
    cases v with
    | error e => exact .inr ⟨[], e, visits, rfl⟩
    | ok p =>
      obtain ⟨paths, rfl⟩ | ⟨paths, e, rest, rfl⟩ := ih
      · exact .inl ⟨p :: paths, rfl⟩
      · exact .inr ⟨p :: paths, e, rest, rfl⟩

namespace Engine

variable {σ : Type} (sink : RecordSink σ) (files : σ → FileSystem) (engine : Engine)

theorem processEach_cons (p : Path) (paths : List Path) (s : σ) :
    engine.processEach sink files (p :: paths) s =
      ((engine.processFile sink files p s).1 ::
          (engine.processEach sink files paths (engine.processFile sink files p s).2).1,
        (engine.processEach sink files paths (engine.processFile sink files p s).2).2) := rfl

theorem processAll_append (stats : Statistics) (paths : List Path) (rest : List Visit) (s : σ) :
    engine.processAll sink files stats (paths.map .ok ++ rest) s =
      let (reports, s) := engine.processEach sink files paths s
      let (report, s) := engine.processAll sink files (stats.recordAll reports) rest s
      ({ report with files := reports ++ report.files }, s) := by
  induction paths generalizing stats s with
  | nil => rfl
  | cons p paths ih =>
    have h := ih (stats.record (engine.processFile sink files p s).1.outcome)
      (engine.processFile sink files p s).2
    rw [List.map_cons, List.cons_append, processAll]
    simp only [h]
    rfl

variable {sink files engine} in
theorem run_of_refused {s s' : σ} {e : IoError} (h : sink.start s = .error e s') :
    engine.run sink files s = (⟨[], .error (.write e)⟩, s') := by
  simp only [run, h]

variable {sink files engine} in
theorem run_of_lost {s s₁ : σ} {paths : List Path} {e : WalkError} {rest : List Visit}
    (h : sink.start s = .ok () s₁)
    (hw : engine.found (files s₁) = paths.map .ok ++ .error e :: rest) :
    engine.run sink files s =
      (⟨(engine.processEach sink files paths s₁).1, .error (.traversal e)⟩,
        (engine.processEach sink files paths s₁).2) := by
  have hp := engine.processAll_append sink files {} paths (.error e :: rest) s₁
  rw [← hw] at hp
  simp only [run, h, hp, processAll, List.append_nil]

variable {sink files engine} in
theorem run_of_walked {s s₁ : σ} {paths : List Path} (h : sink.start s = .ok () s₁)
    (hw : engine.found (files s₁) = paths.map .ok) :
    engine.run sink files s =
      match sink.finish (engine.processEach sink files paths s₁).2 with
      | .ok _ s' =>
        (⟨(engine.processEach sink files paths s₁).1,
          .ok (Statistics.recordAll {} (engine.processEach sink files paths s₁).1)⟩, s')
      | .error e s' => (⟨(engine.processEach sink files paths s₁).1, .error (.write e)⟩, s') := by
  have hp := engine.processAll_append sink files {} paths [] s₁
  rw [List.append_nil, ← hw] at hp
  simp only [run, h, hp, processAll]
  cases sink.finish (engine.processEach sink files paths s₁).2 <;> simp only [List.append_nil]

/-- The ways in which a run goes. -/
inductive Runs (s : σ) : RunReport × σ → Prop where
  | refused {e s'} (h : sink.start s = .error e s') : Runs s (⟨[], .error (.write e)⟩, s')
  | lost {s₁} {paths : List Path} {e rest} (h : sink.start s = .ok () s₁)
      (hw : engine.found (files s₁) = paths.map .ok ++ .error e :: rest) :
      Runs s (⟨(engine.processEach sink files paths s₁).1, .error (.traversal e)⟩,
        (engine.processEach sink files paths s₁).2)
  | unfinished {s₁} {paths : List Path} {e s'} (h : sink.start s = .ok () s₁)
      (hw : engine.found (files s₁) = paths.map .ok)
      (hf : sink.finish (engine.processEach sink files paths s₁).2 = .error e s') :
      Runs s (⟨(engine.processEach sink files paths s₁).1, .error (.write e)⟩, s')
  | finished {s₁} {paths : List Path} {s'} (h : sink.start s = .ok () s₁)
      (hw : engine.found (files s₁) = paths.map .ok)
      (hf : sink.finish (engine.processEach sink files paths s₁).2 = .ok () s') :
      Runs s (⟨(engine.processEach sink files paths s₁).1,
        .ok (Statistics.recordAll {} (engine.processEach sink files paths s₁).1)⟩, s')

theorem runs_run (s : σ) : engine.Runs sink files s (engine.run sink files s) := by
  cases h : sink.start s with
  | error e s' =>
    rw [run_of_refused h]
    exact .refused h
  | ok u s₁ =>
    obtain ⟨paths, hw⟩ | ⟨paths, e, rest, hw⟩ := visits_cases (engine.found (files s₁))
    · rw [run_of_walked h hw]
      cases hf : sink.finish (engine.processEach sink files paths s₁).2 with
      | error e s' => exact .unfinished h hw hf
      | ok u s' => exact .finished h hw hf
    · rw [run_of_lost h hw]
      exact .lost h hw

end Engine

end MethodExtraction.Extraction
