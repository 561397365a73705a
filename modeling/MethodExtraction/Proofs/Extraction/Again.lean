import MethodExtraction.Proofs.Extraction.OwnOutput
import MethodExtraction.Proofs.Files.Directories

namespace MethodExtraction.Extraction

open Files Java Output Text

section

variable {config : Config} {fs fs₁ : FileSystem} {p : Path} {location : Location}

theorem after_append_put (hl : location ≠ []) (bytes more : ByteArray) :
    after (Change.append location more) (fs.put location (.file bytes)) =
      fs.put location (.file (bytes ++ more)) := by
  rw [after, append_put hl]

theorem makeParents_of_ok {fs' : FileSystem} (h : Change.makeParents p fs = .ok () fs')
    {fs'' : FileSystem} (hx : fs'.Extends fs'') : Change.makeParents p fs'' = .ok () fs'' := by
  rw [Change.makeParents] at h ⊢
  cases hq : p.parent? with
  | none => rfl
  | some q =>
    simp only [hq] at h ⊢
    by_cases hn : q.bytes = []
    · rw [Change.makeDirectories, if_pos hn]
    · obtain ⟨l, hf, hd⟩ :=
        FileSystem.isDirectory_iff.1 (Change.isDirectory_of_makeDirectories hn h)
      refine Change.makeDirectories_of_isDirectory (FileSystem.isDirectory_iff.2 ⟨l, ?_, ?_⟩)
      · exact FileSystem.follow_extends hx hf
      · exact hx.isDirectoryAt hd

/-- After a run the output is opened as it was before: what has been written to it is erased. -/
theorem openOutput_again {format : OutputFormat} {w : ArrayWriter FileSystem}
    (ho : openOutput p fs = .ok location fs₁)
    (hw : Reaches (ArrayWriter.sink (fileSink location)) (.new format fs₁) w) :
    openOutput p w.target = .ok location fs₁ := by
  obtain ⟨fs₀, hparents, hcreate⟩ := create_of_openOutput ho
  rw [openOutput_eq]
  cases FileSystem.opens_of_create hcreate with
  | file hl hc hwritable =>
    obtain ⟨bytes, ht⟩ := hw.target (fun d => ∃ bytes, d = fs₀.put location (.file bytes))
      ⟨_, rfl⟩ (by
        rintro _ more ⟨bytes, rfl⟩
        exact ⟨_, after_append_put hl bytes more⟩) fun _ h => h
    have hx : fs₀.Extends (fs₀.put location (.file bytes)) :=
      FileSystem.extends_put hl fun c h => (hc c h).symm
    have hagain : Change.create p (fs₀.put location (.file bytes)) =
        .ok location (fs₀.put location (.file .empty)) := by
      rw [Change.create, hwritable bytes]
      simp only [FileSystem.content?_put_self hl, FileSystem.put_put]
    rw [ht, makeParents_of_ok hparents hx]
    exact hagain
  | device hwritable hc =>
    have ht : w.target = fs₁ := hw.target (· = fs₁) rfl (by
      rintro _ more rfl
      exact after_append_device hc more) fun _ h => h
    rw [ht, makeParents_of_ok hparents ⟨rfl, fun l c h => ⟨c, h, rfl⟩⟩]
    exact hcreate

theorem openOutput_fails_again {e : IoError} (ho : openOutput p fs = .error e fs₁) :
    ∃ e', openOutput p fs₁ = .error e' fs₁ ∧
      (e' = e ∨ (e = .alreadyExists ∧ ∃ parent, p.parent? = some parent ∧
        fs₁.follow false parent parent.segments = .error e')) := by
  rw [openOutput_eq] at ho ⊢
  cases hp : Change.makeParents p fs with
  | ok u fs₀ =>
    rw [hp] at ho
    obtain rfl := create_error ho
    rw [makeParents_of_ok hp ⟨rfl, fun l c h => ⟨c, h, rfl⟩⟩]
    exact ⟨e, ho, .inl rfl⟩
  | error e₁ fs₂ =>
    rw [hp] at ho
    cases ho
    rw [Change.makeParents] at hp ⊢
    cases hq : p.parent? with
    | none =>
      rw [hq] at hp
      cases hp
    | some q =>
      simp only [hq] at hp ⊢
      obtain ⟨e', hm, hrelated⟩ := Change.makeDirectories_fails_again hp
      rw [hm]
      exact ⟨e', rfl, hrelated.imp_right fun ⟨he, hf⟩ => ⟨he, q, rfl, hf⟩⟩

/-- The first run has ended because a name above the output is taken, with some directories made
before; the second one ends at the same path, with what is wrong with it now. -/
structure StopsAbove (config : Config) (fs : FileSystem) (first second : RunReport × FileSystem) :
    Prop where
  changed : first.2 ≠ fs
  taken : first.1 = ⟨[], .error (.write .alreadyExists)⟩
  ends : ∃ parent e, config.output.parent? = some parent ∧
    first.2.follow false parent parent.segments = .error e ∧
    second.1 = ⟨[], .error (.write e)⟩

/-- Extraction into a file done twice leaves everything as the first time has left it, and comes to
the same result; unless the first time it fails for a name that is taken above the output. Then it
fails the second time too, if perhaps with another error. -/
theorem extractToFile_again (config : Config) (fs : FileSystem) :
    (extractToFile config (extractToFile config fs).2).2 = (extractToFile config fs).2 ∧
      ((extractToFile config (extractToFile config fs).2).1 = (extractToFile config fs).1 ∨
        StopsAbove config fs (extractToFile config fs)
          (extractToFile config (extractToFile config fs).2)) := by
  cases hv : config.validate with
  | error message =>
    rw [extractToFile_of_invalid hv, extractToFile_of_invalid hv]
    exact ⟨rfl, .inl rfl⟩
  | ok u =>
    cases ho : openOutput config.output fs with
    | ok location fs₁ =>
      have hr := Engine.reaches_run (ArrayWriter.sink (fileSink location)) (·.target)
        ⟨config, hv⟩ (.new config.format fs₁)
      rw [extractToFile_of_opened hv ho, extractToFile_of_opened hv (openOutput_again ho hr)]
      exact ⟨rfl, .inl rfl⟩
    | error e fs₁ =>
      obtain ⟨e', ho', hrelated⟩ := openOutput_fails_again ho
      rw [extractToFile_of_unopened hv ho, extractToFile_of_unopened hv ho']
      refine ⟨rfl, ?_⟩
      by_cases hsame : e' = e
      · exact .inl (by rw [hsame])
      · obtain ⟨rfl, parent, hq, hf⟩ := hrelated.resolve_left hsame
        refine .inr ⟨?_, rfl, parent, e', hq, hf, rfl⟩
        rintro rfl
        cases ho'.symm.trans ho
        exact hsame rfl

end

def oneFile : FileSystem where
  entries := [([Utf8.encode "file"], .file "x".toUTF8)]
  home := []

def roundaboutConfig : Config := { output := .ofText "a/../file/x/out.json", sorted := true }

/-- The first run makes a directory before it comes to the file, which the second run finds. -/
theorem extractToFile_differs_roundabout :
    roundaboutConfig.sorted = true ∧
      (extractToFile roundaboutConfig oneFile).1 = ⟨[], .error (.write .alreadyExists)⟩ ∧
      (extractToFile roundaboutConfig (extractToFile roundaboutConfig oneFile).2).1 =
        ⟨[], .error (.write .notADirectory)⟩ ∧
      extractToFile roundaboutConfig (extractToFile roundaboutConfig oneFile).2 ≠
        extractToFile roundaboutConfig oneFile := by
  have hv : roundaboutConfig.validate = .ok () := rfl
  have ho : openOutput roundaboutConfig.output oneFile =
      .error .alreadyExists (oneFile.put [Utf8.encode "a"] .directory) := by cbv
  have ho' : openOutput roundaboutConfig.output (oneFile.put [Utf8.encode "a"] .directory) =
      .error .notADirectory (oneFile.put [Utf8.encode "a"] .directory) := by cbv
  rw [extractToFile_of_unopened hv ho, extractToFile_of_unopened hv ho']
  exact ⟨rfl, rfl, rfl, by simp⟩

end MethodExtraction.Extraction
