import MethodExtraction.Proofs.Extraction.Calls

namespace MethodExtraction.Extraction

open Files Java Output Text

def Engine.calls {σ : Type} (sink : RecordSink σ) (files : σ → FileSystem) (engine : Engine)
    (s : σ) : List Call :=
  (engine.run (logged sink) (files ·.1) (s, [])).2.2

def SameContent (paths : List Path) (fs fs' : FileSystem) : Prop :=
  ∀ p ∈ paths, fs'.size p = fs.size p ∧ fs'.read p = fs.read p

theorem SameContent.extractFile_eq {paths : List Path} {fs fs' : FileSystem}
    (h : SameContent paths fs fs') {p : Path} (hp : p ∈ paths) (limit : Option Nat) :
    extractFile fs' limit p = extractFile fs limit p := by
  obtain ⟨hs, hr⟩ := h p hp
  simp only [extractFile, checkSize, readSource, hs, hr]

namespace Engine

variable {σ : Type} {sink : RecordSink σ} {files tree : σ → FileSystem} {engine : Engine}
  {s₀ s s₁ : σ} {paths : List Path}

theorem processFile_congr {p : Path}
    (h : extractFile (tree s) engine.config.maxFileSize p =
      extractFile (files s) engine.config.maxFileSize p) :
    engine.processFile sink tree p s = engine.processFile sink files p s := by
  rw [processFile, processFile, h]

theorem processEach_congr {fs : FileSystem} (h : engine.Steady sink files s₀ fs paths)
    (h' : engine.Steady sink tree s₀ fs paths) (hs : Reaches sink s₀ s) :
    engine.processEach sink tree paths s = engine.processEach sink files paths s := by
  induction paths generalizing s with
  | nil => rfl
  | cons p paths ih =>
    have hp : p ∈ p :: paths := List.mem_cons_self ..
    have hf : engine.processFile sink tree p s = engine.processFile sink files p s :=
      processFile_congr ((h' s hs p hp).trans (h s hs p hp).symm)
    have hr := ih h.tail h'.tail (reaches_processFile sink files engine hs p)
    rw [processEach_cons, processEach_cons, hf, hr]

theorem logged_start_ok (h : sink.start s = .ok () s₁) :
    (logged sink).start (s, []) = .ok () (s₁, [.start]) := by
  simp only [logged, noting, h]
  rfl

theorem calls_of_refused {e : IoError} (h : sink.start s = .error e s₁) :
    engine.calls sink files s = [.start] := by
  have hl : (logged sink).start (s, []) = .error e (s₁, [.start]) := by
    simp only [logged, noting, h]
    rfl
  rw [calls, run_of_refused hl]

theorem calls_of_lost {fs : FileSystem} {e : WalkError} {rest : List Visit}
    (h : sink.start s₀ = .ok () s₁) (hx : engine.Steady sink files s₀ fs paths)
    (hw : engine.found (files s₁) = paths.map .ok ++ .error e :: rest) :
    engine.calls sink files s₀ = .start :: engine.callsFor fs paths := by
  have hr := @run_of_lost _ (logged sink) (files ·.1) engine (s₀, []) (s₁, [.start]) paths e rest
    (logged_start_ok h) hw
  have hp := engine.processEach_logged sink files hx (Reaches.refl.start_ok h) [.start]
  rw [calls, hr, hp]
  rfl

theorem calls_of_walked {fs : FileSystem} (h : sink.start s₀ = .ok () s₁)
    (hx : engine.Steady sink files s₀ fs paths)
    (hw : engine.found (files s₁) = paths.map .ok) :
    engine.calls sink files s₀ = .start :: engine.callsFor fs paths ++ [.finish] := by
  have hr := @run_of_walked _ (logged sink) (files ·.1) engine (s₀, []) (s₁, [.start]) paths
    (logged_start_ok h) hw
  have hp := engine.processEach_logged sink files hx (Reaches.refl.start_ok h) [.start]
  rw [calls, hr, hp]
  cases hf : sink.finish (engine.processEach sink files paths s₁).2 <;>
    simp only [logged, noting, hf] <;> rfl

theorem run_eq_after_finish (h : sink.start s = .ok () s₁)
    (hw : engine.found (files s₁) = paths.map .ok) :
    (engine.run sink files s).1.files = (engine.processEach sink files paths s₁).1 ∧
      (engine.run sink files s).2 =
        after sink.finish (engine.processEach sink files paths s₁).2 := by
  rw [run_of_walked h hw, after]
  cases sink.finish (engine.processEach sink files paths s₁).2 <;> exact ⟨rfl, rfl⟩

theorem found_of_start (hk : LeavesAlone sink files engine.config s₀)
    (h : sink.start s₀ = .ok () s₁) : engine.found (files s₁) = engine.found (files s₀) :=
  (hk s₁ (Reaches.refl.start_ok h)).walk

theorem steady_of_found {rest : List Visit} (hk : LeavesAlone sink files engine.config s₀)
    (hw : engine.found (files s₀) = paths.map .ok ++ rest) :
    engine.Steady sink files s₀ (files s₀) paths := by
  refine steady_of_leavesAlone hk fun p hp => ?_
  rw [hw]
  exact List.mem_append_left _ (List.mem_map_of_mem hp)

/-- A run over a walk of some paths and nothing else does for them what is done in any file system
where they lead to the same, and then finishes its sink. -/
theorem run_of_sameContent (h : sink.start s₀ = .ok () s₁)
    (hx : engine.Steady sink files s₀ (files s₀) paths)
    (ht : LeavesAlone sink tree engine.config s₀)
    (hw : engine.found (tree s₀) = paths.map .ok)
    (hsame : SameContent paths (files s₀) (tree s₀)) :
    (engine.run sink tree s₀).1.files = (engine.processEach sink files paths s₁).1 ∧
      (engine.run sink tree s₀).2 =
        after sink.finish (engine.processEach sink files paths s₁).2 ∧
      engine.calls sink tree s₀ = .start :: engine.callsFor (files s₀) paths ++ [.finish] := by
  have hxt : engine.Steady sink tree s₀ (files s₀) paths := fun s hs p hp =>
    (steady_of_found ht (hw.trans (List.append_nil _).symm) s hs p hp).trans
      (hsame.extractFile_eq hp engine.config.maxFileSize)
  have hw₁ := (found_of_start ht h).trans hw
  obtain ⟨hf, hs⟩ := run_eq_after_finish h hw₁
  rw [processEach_congr hx hxt (Reaches.refl.start_ok h)] at hf hs
  exact ⟨hf, hs, calls_of_walked h hxt hw₁⟩

end Engine

def Observed (engine : Engine) (fs : FileSystem) (paths : List Path) (reports : List FileReport) :
    Prop :=
  reports.map (·.path) = paths ∧ ∀ file ∈ reports, Answers fs engine.config.maxFileSize file

structure Endings {σ : Type} (sink : RecordSink σ) (files : σ → FileSystem) (engine : Engine)
    (s₀ : σ) : Prop where
  refused : ∀ e s, sink.start s₀ = .error e s →
    (∀ tree : σ → FileSystem, engine.run sink tree s₀ = (⟨[], .error (.write e)⟩, s)) ∧
      engine.calls sink files s₀ = [.start]
  /-- An error of the walk ends the run behind the paths before it. Over a walk that ends there
  without an error, the run does the same and then finishes its sink. -/
  lost : ∀ (s₁ : σ) (paths : List Path) (e : WalkError) (rest : List Visit),
    sink.start s₀ = .ok () s₁ →
    engine.found (files s₀) = paths.map .ok ++ .error e :: rest →
    ∃ reports s, engine.run sink files s₀ = (⟨reports, .error (.traversal e)⟩, s) ∧
      Observed engine (files s₀) paths reports ∧
      engine.calls sink files s₀ = .start :: engine.callsFor (files s₀) paths ∧
      ∀ tree : σ → FileSystem, LeavesAlone sink tree engine.config s₀ →
        engine.found (tree s₀) = paths.map .ok → SameContent paths (files s₀) (tree s₀) →
        (engine.run sink tree s₀).1.files = reports ∧
          (engine.run sink tree s₀).2 = after sink.finish s ∧
          engine.calls sink tree s₀ = engine.calls sink files s₀ ++ [.finish]
  walked : ∀ (s₁ : σ) (paths : List Path), sink.start s₀ = .ok () s₁ →
    engine.found (files s₀) = paths.map .ok →
    ∃ reports s, Observed engine (files s₀) paths reports ∧
      engine.calls sink files s₀ = .start :: engine.callsFor (files s₀) paths ++ [.finish] ∧
      (∀ e s', sink.finish s = .error e s' →
        engine.run sink files s₀ = (⟨reports, .error (.write e)⟩, s')) ∧
      ∀ s', sink.finish s = .ok () s' →
        ∃ stats, engine.run sink files s₀ = (⟨reports, .ok stats⟩, s')
  only : ∀ cause, (engine.run sink files s₀).1.result = .error cause →
    (∃ e s, sink.start s₀ = .error e s ∧ cause = .write e) ∨
      (∃ e, .error e ∈ engine.found (files s₀) ∧ cause = .traversal e) ∨
      ∃ e s s', Reaches sink s₀ s ∧ sink.finish s = .error e s' ∧ cause = .write e

/-- How every run ends whose sink leaves alone the files that are walked, whichever records cannot
be written and whichever files fail. -/
theorem endings_of_leavesAlone {σ : Type} (sink : RecordSink σ) (files : σ → FileSystem)
    (engine : Engine) (s₀ : σ) (hk : LeavesAlone sink files engine.config s₀) :
    Endings sink files engine s₀ := by
  have hobserved {s₁ : σ} {paths : List Path} (h : sink.start s₀ = .ok () s₁)
      (hx : engine.Steady sink files s₀ (files s₀) paths) :
      Observed engine (files s₀) paths (engine.processEach sink files paths s₁).1 :=
    ⟨engine.map_path_processEach sink files paths s₁,
      engine.answers_processEach sink files hx (Reaches.refl.start_ok h)⟩
  constructor
  · intro e s h
    exact ⟨fun tree => Engine.run_of_refused h, Engine.calls_of_refused h⟩
  · intro s₁ paths e rest h hw
    have hx := Engine.steady_of_found hk hw
    have hw₁ := (Engine.found_of_start hk h).trans hw
    have hc := Engine.calls_of_lost h hx hw₁
    refine ⟨_, _, Engine.run_of_lost h hw₁, hobserved h hx, hc, fun tree ht htw hsame => ?_⟩
    obtain ⟨hf, hs, hct⟩ := Engine.run_of_sameContent h hx ht htw hsame
    exact ⟨hf, hs, by rw [hct, hc]⟩
  · intro s₁ paths h hw
    have hx := Engine.steady_of_found hk (hw.trans (List.append_nil _).symm)
    have hw₁ := (Engine.found_of_start hk h).trans hw
    have hr := Engine.run_of_walked h hw₁
    refine ⟨_, (engine.processEach sink files paths s₁).2, hobserved h hx,
      Engine.calls_of_walked h hx hw₁, ?_, ?_⟩
    · intro e s' hf
      rw [hr, hf]
    · intro s' hf
      exact ⟨_, by rw [hr, hf]⟩
  -- of the four ways in which a run goes, three end with a cause
  · intro cause hc
    have hr := engine.runs_run sink files s₀
    generalize engine.run sink files s₀ = result at hr hc
    cases hr with
    | refused h =>
      cases hc
      exact .inl ⟨_, _, h, rfl⟩
    | @lost s₁ paths e rest h hw =>
      cases hc
      rw [Engine.found_of_start hk h] at hw
      refine .inr (.inl ⟨e, ?_, rfl⟩)
      rw [hw]
      exact List.mem_append_right _ (List.mem_cons_self ..)
    | @unfinished s₁ paths e s' h hw hf =>
      cases hc
      exact .inr (.inr ⟨_, _, _,
        engine.reaches_processEach sink files (Reaches.refl.start_ok h) paths, hf, rfl⟩)
    | finished h hw hf => cases hc

def brokenLink : FileSystem where
  entries :=
    [([Utf8.encode "A.java"], .file "class A \x7b void a() \x7b\x7d \x7d".toUTF8),
      ([Utf8.encode "B.java"], .link (Path.ofText "gone")),
      ([Utf8.encode "C.java"], .file "interface C \x7b int c(); \x7d".toUTF8)]
  home := []

def followingEngine : Engine := ⟨{ followLinks := true }, rfl⟩

theorem endings_brokenLink :
    (LeavesAlone flaky (fun _ => brokenLink) followingEngine.config (0, []) ∧
      flaky.start (0, []) = .ok () (0, []) ∧
      followingEngine.found brokenLink =
        [Path.ofText "./A.java"].map .ok ++
          .error (.unreachable (Path.ofText "./B.java") .notFound) ::
            [.ok (Path.ofText "./C.java")]) ∧
      ∃ reports s,
        followingEngine.run flaky (fun _ => brokenLink) (0, []) =
            (⟨reports,
              .error (.traversal (.unreachable (Path.ofText "./B.java") .notFound))⟩, s) ∧
          Observed followingEngine brokenLink [Path.ofText "./A.java"] reports ∧
          followingEngine.calls flaky (fun _ => brokenLink) (0, []) =
            .start :: followingEngine.callsFor brokenLink [Path.ofText "./A.java"] := by
  have hk : LeavesAlone flaky (fun _ => brokenLink) followingEngine.config (0, []) :=
    fun _ _ => ⟨rfl, fun _ _ => rfl, fun _ _ => rfl⟩
  have hw : followingEngine.found brokenLink =
      [Path.ofText "./A.java"].map .ok ++
        .error (.unreachable (Path.ofText "./B.java") .notFound) ::
          [.ok (Path.ofText "./C.java")] := by cbv
  obtain ⟨reports, s, hr, ho, hc, -⟩ :=
    (endings_of_leavesAlone flaky _ followingEngine (0, []) hk).lost (0, []) _ _ _ rfl hw
  exact ⟨⟨hk, rfl, hw⟩, reports, s, hr, ho, hc⟩

end MethodExtraction.Extraction
