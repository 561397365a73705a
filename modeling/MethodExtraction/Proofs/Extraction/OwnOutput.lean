import MethodExtraction.Proofs.Extraction.Through
import MethodExtraction.Proofs.Files.Opening
import MethodExtraction.Proofs.Java.Rejection
import MethodExtraction.Proofs.Output.Document
import MethodExtraction.Proofs.Text.Encoding

namespace MethodExtraction

namespace Files.FileSystem

variable {fs : FileSystem} {p : Path} {l location : Location} {bytes : ByteArray}

def bytesAt (fs : FileSystem) (location : Location) : List UInt8 :=
  match fs.content? location with
  | some (.file bytes) => bytes.data.toList
  | _ => []

theorem bytesAt_put (h : location ≠ []) (fs : FileSystem) (bytes : ByteArray) :
    (fs.put location (.file bytes)).bytesAt location = bytes.data.toList := by
  rw [bytesAt, content?_put_self h]

structure Emptied (fs : FileSystem) (location : Location) : Prop where
  ne_nil : location ≠ []
  self : fs.put location (.file .empty) = fs

namespace Emptied

variable (h : fs.Emptied location) (bytes)

include h

theorem outline_put : (fs.put location (.file bytes)).outline = fs.outline := by
  conv_rhs => rw [← h.self]
  exact outline_put_file fs location bytes .empty

theorem resolve_put (p : Path) : (fs.put location (.file bytes)).resolve p = fs.resolve p := by
  rw [← resolve_outline, h.outline_put, resolve_outline]

theorem sourceFiles_put (o : SourceOptions) (root : Path) :
    (fs.put location (.file bytes)).sourceFiles o root = fs.sourceFiles o root := by
  rw [← sourceFiles_outline, h.outline_put, sourceFiles_outline]

theorem contentOf_put (hp : fs.resolve p = .ok location) :
    (fs.put location (.file bytes)).contentOf p = .ok (.file bytes) := by
  rw [contentOf, h.resolve_put, hp]
  simp only [bind, Except.bind, content?_put_self h.ne_nil]

theorem contentOf_put_of_ne (hp : fs.resolve p ≠ .ok location) :
    (fs.put location (.file bytes)).contentOf p = fs.contentOf p := by
  rw [contentOf, contentOf, h.resolve_put]
  cases hr : fs.resolve p with
  | error e => rfl
  | ok l =>
    have hl : l ≠ location := fun he => hp (by rw [hr, he])
    simp only [bind, Except.bind, content?_put h.ne_nil, if_neg hl]

end Emptied

end Files.FileSystem

namespace Output

open Files Java Text

variable {fs : FileSystem} {location : Location}

theorem append_put (h : location ≠ []) (fs : FileSystem) (bytes more : ByteArray) :
    Change.append location more (fs.put location (.file bytes)) =
      .ok () (fs.put location (.file (bytes ++ more))) := by
  rw [Change.append, FileSystem.content?_put_self h]
  simp only [FileSystem.put_put]

theorem fileSink_reliable (h : location ≠ []) (fs : FileSystem) :
    (fileSink location).Reliable (fun d => ∃ bytes, d = fs.put location (.file bytes))
      (·.bytesAt location) where
  writeAll := by
    rintro _ ⟨bytes, rfl⟩ more
    refine ⟨_, append_put h fs bytes more, ⟨_, rfl⟩, ?_⟩
    rw [FileSystem.bytesAt_put h, FileSystem.bytesAt_put h, ByteArray.data_append,
      Array.toList_append]
  flush := fun hd => ⟨_, rfl, hd, rfl⟩

namespace ArrayWriter

/-- A writer whose file has grown from its first bracket on, while all else stays as it is. -/
structure Growing (fs : FileSystem) (location : Location) (w : ArrayWriter FileSystem) : Prop where
  file : ∃ bytes, w.target = fs.put location (.file bytes)
  bracket : (w.target.bytesAt location).head? = some 0x5B

variable {w : ArrayWriter FileSystem}

theorem Growing.of_append {w' : ArrayWriter FileSystem} {more : List UInt8}
    (h : Growing fs location w) (hf : ∃ bytes, w'.target = fs.put location (.file bytes))
    (hb : w'.target.bytesAt location = w.target.bytesAt location ++ more) :
    Growing fs location w' := by
  obtain ⟨rest, hrest⟩ := List.head?_eq_some_iff.1 h.bracket
  refine ⟨hf, ?_⟩
  rw [hb, hrest]
  rfl

theorem growing_start (h : fs.Emptied location) (format : OutputFormat) :
    ∃ w, start (fileSink location) (new format fs) = .ok () w ∧ Growing fs location w := by
  obtain ⟨d, hp, hs, hh⟩ := put_reliable (fileSink_reliable h.ne_nil fs) (w := new format fs)
    ⟨_, h.self.symm⟩ opening
  refine ⟨_, hp, hs, ?_⟩
  rw [hh, new, ← h.self, FileSystem.bytesAt_put h.ne_nil]
  rfl

theorem growing_forM (hl : location ≠ []) (records : List MethodRecord)
    (h : Growing fs location w) :
    ∃ w', (forM records (write (fileSink location)) : EStateM _ _ _) w = .ok () w' ∧
      Growing fs location w' := by
  induction records generalizing w with
  | nil => exact ⟨w, rfl, h⟩
  | cons r records ih =>
    obtain ⟨w₁, hw, -, -, hs, hh⟩ := write_reliable (fileSink_reliable hl fs) h.file r
    obtain ⟨w', hr, h'⟩ := ih (h.of_append hs hh)
    refine ⟨w', ?_, h'⟩
    rw [List.forM_cons, bind_of_ok hw]
    exact hr

theorem growing_finish (hl : location ≠ []) (h : Growing fs location w) :
    ∃ w' rest, finish (fileSink location) w = .ok () w' ∧ Growing fs location w' ∧
      w'.target.bytesAt location = w.target.bytesAt location ++ rest := by
  obtain ⟨d, hp, hs, hh⟩ := put_reliable (fileSink_reliable hl fs) h.file w.closing
  refine ⟨{ w with target := d }, _, ?_, h.of_append hs hh, hh⟩
  rw [finish_eq, hp]
  rfl

end ArrayWriter

end Output

namespace Extraction

open Files Java Output Text

theorem extractFile_bracket {fs : FileSystem} {p : Path} {bytes : ByteArray}
    (h : fs.read p = .ok bytes) (hb : bytes.data.toList.head? = some 0x5B) (limit : Option Nat) :
    ∃ e, extractFile fs limit p = .error e := by
  cases hx : extractFile fs limit p with
  | error e => exact ⟨e, rfl⟩
  | ok records =>
    obtain ⟨rest, hrest⟩ := List.head?_eq_some_iff.1 hb
    have hhead : (Utf8.decode bytes.data.toList).toList.head? = some '[' := by
      rw [hrest]
      exact Utf8.head?_decode (by decide) rest
    obtain ⟨e, he⟩ := parseBy_bracket search hhead
    have hmethods : methods (Utf8.decode bytes.data.toList) = .error e := by
      rw [methods, parse, he]
      rfl
    have hnone : accepted? fs limit p = none := by
      have hsource : (extractSource (Utf8.decode bytes.data.toList)).toOption = none := by
        rw [extractSource, toOption_mapError, hmethods]
        rfl
      have hread : (fs.read p).toOption = some bytes := by
        rw [h]
        rfl
      rw [accepted?, hread, Option.bind_eq_bind, Option.bind_some, hsource, ite_self]
    cases hnone.symm.trans (accepted?_of_extractFile_eq_ok hx)

namespace Engine

theorem offer_of_forM {σ : Type} {sink : RecordSink σ} {records : List MethodRecord} {s s' : σ}
    (h : (forM records sink.write : EStateM _ _ _) s = .ok () s') :
    (offer sink records s).2 = s' := by
  induction records generalizing s with
  | nil =>
    cases h
    rfl
  | cons r records ih =>
    rw [List.forM_cons] at h
    simp only [bind, EStateM.bind] at h
    cases hw : sink.write r s with
    | ok u s₁ =>
      rw [hw] at h
      rw [offer, hw]
      exact ih h
    | error e s₁ =>
      rw [hw] at h
      cases h

end Engine

def recordsElsewhere (fs : FileSystem) (limit : Option Nat) (location : Location)
    (paths : List Path) : List MethodRecord :=
  (paths.filter fun p => fs.resolve p ≠ .ok location).flatMap (offered fs limit)

/-- A file that failed, and of which nothing was offered. -/
def FileReport.Refused (file : FileReport) : Prop :=
  (∃ failure, file.outcome = .failed failure) ∧ file.unwritten = []

section

variable {fs : FileSystem} {location : Location} {w : ArrayWriter FileSystem}

theorem extractFile_elsewhere (h : fs.Emptied location) {p : Path}
    (hp : fs.resolve p ≠ .ok location) (bytes : ByteArray) (limit : Option Nat) :
    extractFile (fs.put location (.file bytes)) limit p = extractFile fs limit p := by
  have hc := h.contentOf_put_of_ne bytes hp
  simp only [extractFile, checkSize, readSource, FileSystem.size, FileSystem.read, hc]

theorem extractFile_own (h : fs.Emptied location) (hw : w.Growing fs location) {p : Path}
    (hp : fs.resolve p = .ok location) (limit : Option Nat) :
    ∃ e, extractFile w.target limit p = .error e := by
  obtain ⟨bytes, hf⟩ := hw.file
  have hb := hw.bracket
  rw [hf, FileSystem.bytesAt_put h.ne_nil] at hb
  have hread : w.target.read p = .ok bytes := by
    rw [FileSystem.read, hf, h.contentOf_put bytes hp]
    rfl
  exact extractFile_bracket hread hb limit

namespace Engine

variable (engine : Engine)

theorem processFile_growing (h : fs.Emptied location) (hw : w.Growing fs location) (p : Path) :
    ∃ file w', engine.processFile (ArrayWriter.sink (fileSink location)) (·.target) p w =
        (file, w') ∧ w'.Growing fs location ∧
      (forM (recordsElsewhere fs engine.config.maxFileSize location [p])
        (ArrayWriter.write (fileSink location)) : EStateM _ _ _) w = .ok () w' ∧
      (fs.resolve p = .ok location → file.Refused) := by
  rw [processFile]
  by_cases hp : fs.resolve p = .ok location
  · obtain ⟨e, he⟩ := extractFile_own h hw hp engine.config.maxFileSize
    refine ⟨_, w, by rw [he], hw, ?_, fun _ => ⟨⟨_, rfl⟩, rfl⟩⟩
    rw [recordsElsewhere, List.filter_cons_of_neg (by simpa using hp)]
    rfl
  · obtain ⟨bytes, hf⟩ := hw.file
    have hx := extractFile_elsewhere h hp bytes engine.config.maxFileSize
    rw [← hf] at hx
    have hrecords : recordsElsewhere fs engine.config.maxFileSize location [p] =
        offered fs engine.config.maxFileSize p := by
      rw [recordsElsewhere, List.filter_cons_of_pos (by simpa using hp), List.filter_nil,
        List.flatMap_cons, List.flatMap_nil, List.append_nil]
    rw [hrecords, hx, offered]
    cases hr : extractFile fs engine.config.maxFileSize p with
    | error e =>
      rw [accepted?_of_extractFile_eq_error hr]
      exact ⟨_, w, rfl, hw, rfl, fun h => absurd h hp⟩
    | ok records =>
      obtain ⟨w', hforM, hw'⟩ := ArrayWriter.growing_forM h.ne_nil records hw
      have ho : (offer (ArrayWriter.sink (fileSink location)) records w).2 = w' :=
        offer_of_forM hforM
      rw [accepted?_of_extractFile_eq_ok hr]
      exact ⟨_, w', by rw [← ho], hw', hforM, fun h => absurd h hp⟩

theorem processEach_growing (h : fs.Emptied location) (hw : w.Growing fs location)
    (paths : List Path) :
    ∃ reports w', engine.processEach (ArrayWriter.sink (fileSink location)) (·.target) paths w =
        (reports, w') ∧ w'.Growing fs location ∧
      (forM (recordsElsewhere fs engine.config.maxFileSize location paths)
        (ArrayWriter.write (fileSink location)) : EStateM _ _ _) w = .ok () w' ∧
      ∀ file ∈ reports, fs.resolve file.path = .ok location → file.Refused := by
  induction paths generalizing w with
  | nil => exact ⟨[], w, rfl, hw, rfl, List.forall_mem_nil _⟩
  | cons p paths ih =>
    obtain ⟨file, w₁, hfile, hw₁, hforM, hrefused⟩ := engine.processFile_growing h hw p
    obtain ⟨reports, w', hreports, hw', hforM', hall⟩ := ih hw₁
    have hpath : file.path = p := by
      rw [← engine.path_processFile (ArrayWriter.sink (fileSink location)) (·.target) p w, hfile]
    have hrecords : recordsElsewhere fs engine.config.maxFileSize location (p :: paths) =
        recordsElsewhere fs engine.config.maxFileSize location [p] ++
          recordsElsewhere fs engine.config.maxFileSize location paths := by
      rw [recordsElsewhere, ← List.singleton_append, List.filter_append, List.flatMap_append]
      rfl
    refine ⟨file :: reports, w', ?_, hw', ?_, List.forall_mem_cons.2 ⟨?_, hall⟩⟩
    · rw [processEach_cons, hfile, hreports]
    · rw [hrecords, List.forM_append, bind_of_ok hforM]
      exact hforM'
    · rw [hpath]
      exact hrefused

end Engine

end

/-- A run whose output is a file: that file is refused whenever it comes up on the walk, and the
output tells the records of the other files and nothing else. -/
structure KeepsOut (config : Config) (fs : FileSystem) (location : Location) (report : RunReport)
    (fs' : FileSystem) : Prop where
  output : fs.resolve config.output = .ok location
  resolve : ∀ p, fs'.resolve p = fs.resolve p
  visited : ∃ rest, fs.sourceFiles config.toSourceOptions config.root =
    report.files.map (.ok ·.path) ++ rest ∧ ∀ v ∈ rest.head?, ∃ e, v = .error e
  refused : ∀ file ∈ report.files, fs.resolve file.path = .ok location → file.Refused
  /-- Nothing but the output has changed. Of it only what comes after the last record may be
  missing, and only if the run has failed. -/
  told : ∃ bytes missing, fs' = fs.put location (.file bytes) ∧
    ArrayWriter.Document config.format (bytes.data.toList ++ missing)
      (recordsElsewhere fs config.maxFileSize location (report.files.map (·.path))) ∧
    ((∃ stats, report.result = .ok stats) → missing = [])

section

variable {config : Config} {fs fs₁ : FileSystem} {location : Location}

theorem bytes_of_growing (h : fs.Emptied location) {w : ArrayWriter FileSystem}
    (hw : w.Growing fs location) : ∃ bytes, w.target = fs.put location (.file bytes) ∧
      bytes.data.toList = w.target.bytesAt location := by
  obtain ⟨bytes, hf⟩ := hw.file
  exact ⟨bytes, hf, by rw [hf, FileSystem.bytesAt_put h.ne_nil]⟩

theorem document_of_finish (h : fs.Emptied location) {format : OutputFormat}
    {w₁ w₂ w₃ : ArrayWriter FileSystem} {records : List MethodRecord}
    (hstart : ArrayWriter.start (fileSink location) (.new format fs) = .ok () w₁)
    (hforM : (forM records (ArrayWriter.write (fileSink location)) : EStateM _ _ _) w₁ = .ok () w₂)
    (hfinish : ArrayWriter.finish (fileSink location) w₂ = .ok () w₃) :
    ArrayWriter.Document format (w₃.target.bytesAt location) records := by
  have hempty : fs.bytesAt location = [] := by
    rw [← h.self, FileSystem.bytesAt_put h.ne_nil]
    rfl
  obtain ⟨w, hw, hd⟩ := ArrayWriter.document_writeDocument (fileSink_reliable h.ne_nil fs)
    ⟨_, h.self.symm⟩ hempty format records
  have hdocument : ArrayWriter.writeDocument (fileSink location) records (.new format fs) =
      .ok () w₃ := by
    rw [ArrayWriter.writeDocument, bind_of_ok hstart, bind_of_ok hforM, hfinish]
  cases hdocument.symm.trans hw
  exact hd

/-- When some paths have been visited, the output tells what they give; to be a document it lacks at
most what the writer puts at the end. -/
theorem keepsOut_of_visited (h : fs.Emptied location)
    (hout : fs.resolve config.output = .ok location) {hv : config.validate = .ok ()}
    {w₁ w₂ w₃ w : ArrayWriter FileSystem} {paths : List Path} {reports : List FileReport}
    {result : Except ExtractionError Statistics} {rest : List Visit}
    (hstart : ArrayWriter.start (fileSink location) (.new config.format fs) = .ok () w₁)
    (hvisited : Engine.processEach (ArrayWriter.sink (fileSink location)) (·.target) ⟨config, hv⟩
      paths w₁ = (reports, w₂))
    (hfinish : ArrayWriter.finish (fileSink location) w₂ = .ok () w₃)
    (hfound : Engine.found ⟨config, hv⟩ w₁.target = paths.map .ok ++ rest)
    (hrest : ∀ v ∈ rest.head?, ∃ e, v = .error e)
    (hw : w = w₃ ∨ w = w₂ ∧ ¬ ∃ stats, result = .ok stats) :
    KeepsOut config fs location ⟨reports, result⟩ w.target := by
  obtain ⟨_, hs, hw₁⟩ := ArrayWriter.growing_start h config.format
  cases hs.symm.trans hstart
  obtain ⟨_, _, hp, hw₂, hforM, hrefused⟩ := Engine.processEach_growing ⟨config, hv⟩ h hw₁ paths
  cases hp.symm.trans hvisited
  obtain ⟨_, closing, hf, hw₃, hclosing⟩ := ArrayWriter.growing_finish h.ne_nil hw₂
  cases hf.symm.trans hfinish
  have hpaths : reports.map (·.path) = paths := by
    have hp := Engine.map_path_processEach (ArrayWriter.sink (fileSink location)) (·.target)
      ⟨config, hv⟩ paths w₁
    rwa [hvisited] at hp
  have hdocument := document_of_finish h hstart hforM hfinish
  -- a run that fails has not finished its writer, so what that puts at the end is missing
  obtain ⟨hw, missing, hbytes, hmissing⟩ : w.Growing fs location ∧
      ∃ missing, w₃.target.bytesAt location = w.target.bytesAt location ++ missing ∧
        ((∃ stats, result = .ok stats) → missing = []) := by
    obtain rfl | ⟨rfl, hfailed⟩ := hw
    · exact ⟨hw₃, [], (List.append_nil _).symm, fun _ => rfl⟩
    · exact ⟨hw₂, closing, hclosing, fun hok => absurd hok hfailed⟩
  obtain ⟨bytes, htarget, hb⟩ := bytes_of_growing h hw
  refine ⟨hout, fun p => ?_, ⟨rest, ?_, hrest⟩, hrefused, bytes, missing, htarget, ?_, hmissing⟩
  · rw [htarget, h.resolve_put]
  · obtain ⟨bytes₁, htarget₁⟩ := hw₁.file
    rw [htarget₁, ← hpaths, List.map_map] at hfound
    rw [← h.sourceFiles_put bytes₁]
    exact hfound
  · rw [hb, ← hbytes, hpaths]
    exact hdocument

theorem keepsOut_run (h : fs.Emptied location) (hout : fs.resolve config.output = .ok location)
    (hv : config.validate = .ok ()) :
    KeepsOut config fs location
      (Engine.run (ArrayWriter.sink (fileSink location)) (·.target) ⟨config, hv⟩
        (.new config.format fs)).1
      (Engine.run (ArrayWriter.sink (fileSink location)) (·.target) ⟨config, hv⟩
        (.new config.format fs)).2.target := by
  obtain ⟨w₁, hstart, hw₁⟩ := ArrayWriter.growing_start h config.format
  have hfinish (paths : List Path) : ∃ w₃, ArrayWriter.finish (fileSink location)
      (Engine.processEach (ArrayWriter.sink (fileSink location)) (·.target) ⟨config, hv⟩ paths
        w₁).2 = .ok () w₃ := by
    obtain ⟨reports, w₂, hp, hw₂, -, -⟩ := Engine.processEach_growing ⟨config, hv⟩ h hw₁ paths
    obtain ⟨w₃, closing, hf, -, -⟩ := ArrayWriter.growing_finish h.ne_nil hw₂
    exact ⟨w₃, by rw [hp]; exact hf⟩
  have hr := Engine.runs_run (ArrayWriter.sink (fileSink location)) (·.target) ⟨config, hv⟩
    (.new config.format fs)
  generalize Engine.run (ArrayWriter.sink (fileSink location)) (·.target) ⟨config, hv⟩
    (.new config.format fs) = result at hr ⊢
  cases hr with
  | refused hs => cases hs.symm.trans hstart
  | @lost s₁ paths e rest hs hw =>
    cases hs.symm.trans hstart
    obtain ⟨w₃, hf⟩ := hfinish paths
    refine keepsOut_of_visited h hout hstart rfl hf hw ?_ (.inr ⟨rfl, ?_⟩)
    · rintro v ⟨⟩
      exact ⟨e, rfl⟩
    · rintro ⟨stats, he⟩
      cases he
  | @unfinished s₁ paths e s' hs hw hf =>
    cases hs.symm.trans hstart
    obtain ⟨w₃, hf'⟩ := hfinish paths
    cases hf.symm.trans hf'
  | @finished s₁ paths s' hs hw hf =>
    cases hs.symm.trans hstart
    have hw := hw.trans (List.append_nil _).symm
    refine keepsOut_of_visited h hout hstart rfl hf hw ?_ (.inl rfl)
    rintro v ⟨⟩

/-- Extraction into a file takes nothing from that file, wherever on the walk it comes up and
whatever path leads to it: every visit of it fails, and its records are not in the output. -/
theorem extractToFile_keepsOut (hv : config.validate = .ok ())
    (ho : openOutput config.output fs = .ok location fs₁)
    (hfile : fs₁.isFile config.output = true) :
    KeepsOut config fs₁ location (extractToFile config fs).1 (extractToFile config fs).2 ∧
      ∀ text : String, text.toList.head? = some '[' → ∃ e, parse text = .error e := by
  refine ⟨?_, fun text h => parseBy_bracket search h⟩
  obtain ⟨fs₀, -, hcreate⟩ := create_of_openOutput ho
  rw [extractToFile_of_opened hv ho]
  cases FileSystem.opens_of_create hcreate with
  | file hl hc hw =>
    have hempty : (fs₀.put location (.file .empty)).Emptied location :=
      ⟨hl, FileSystem.put_put fs₀ location _ _⟩
    exact keepsOut_run hempty (FileSystem.resolve_of_writable (hw .empty)) hv
  | @device d hw hc =>
    have hcontent : fs₁.contentOf config.output = .ok (.device d) := by
      rw [FileSystem.contentOf, FileSystem.resolve_of_writable hw]
      simp only [bind, Except.bind, hc]
    rw [FileSystem.isFile, hcontent] at hfile
    cases hfile

end

def sourceOutput : FileSystem where
  entries :=
    [([Utf8.encode "A.java"], .file "class A \x7b void a() \x7b\x7d \x7d".toUTF8),
      ([Utf8.encode "L.java"], .link (Path.ofText "Out.java")),
      ([Utf8.encode "Out.java"], .file "interface Out \x7b int b(); \x7d".toUTF8)]
  home := []

def sourceOutputConfig : Config := { output := .ofText "Out.java", sorted := true }

theorem extractToFile_keepsOut_source :
    ∃ location fs₁, (sourceOutputConfig.validate = .ok () ∧
        openOutput sourceOutputConfig.output sourceOutput = .ok location fs₁ ∧
        fs₁.isFile sourceOutputConfig.output = true ∧
        fs₁.sourceFiles sourceOutputConfig.toSourceOptions sourceOutputConfig.root =
          ["./A.java", "./L.java", "./Out.java"].map (.ok ∘ Path.ofText) ∧
        fs₁.resolve (.ofText "./L.java") = .ok location ∧
        fs₁.resolve (.ofText "./Out.java") = .ok location) ∧
      KeepsOut sourceOutputConfig fs₁ location (extractToFile sourceOutputConfig sourceOutput).1
        (extractToFile sourceOutputConfig sourceOutput).2 := by
  have hv : sourceOutputConfig.validate = .ok () := rfl
  have ho : openOutput sourceOutputConfig.output sourceOutput =
      .ok [Utf8.encode "Out.java"]
        (sourceOutput.put [Utf8.encode "Out.java"] (.file .empty)) := by cbv
  have hfile : (sourceOutput.put [Utf8.encode "Out.java"] (.file .empty)).isFile
      sourceOutputConfig.output = true := by cbv
  refine ⟨_, _, ⟨hv, ho, hfile, ?_, ?_, ?_⟩, (extractToFile_keepsOut hv ho hfile).1⟩
  · cbv
  · cbv
  · cbv

end Extraction

end MethodExtraction
