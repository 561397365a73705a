import MethodExtraction.Proofs.Extraction.Through
import MethodExtraction.Proofs.Files.Additions

namespace MethodExtraction

namespace Output

open Files Text

/-- A sink for the file that is open at a location. What it takes comes behind the bytes of the file:
all it is given, unless it fails. A device keeps nothing. -/
structure ByteSink.AppendsAt (target : ByteSink FileSystem) (location : Location) : Prop where
  file : ∀ fs written bytes, fs.content? location = some (.file written) →
    ∃ taken, after (target.writeAll bytes) fs = fs.put location (.file (written ++ taken)) ∧
      ((∃ fs', target.writeAll bytes fs = .ok () fs') → taken = bytes)
  device : ∀ fs d bytes, fs.content? location = some (.device d) →
    after (target.writeAll bytes) fs = fs
  flush : ∀ fs, after target.flush fs = fs

theorem fileSink_appendsAt (location : Location) : (fileSink location).AppendsAt location where
  file := by
    intro fs written bytes hc
    refine ⟨bytes, ?_, fun _ => rfl⟩
    simp only [after, fileSink, Change.append, hc]
  device := fun _ _ bytes hc => Extraction.after_append_device hc bytes
  flush := fun _ => rfl

def PutBehind (front : List UInt8) (fs : FileSystem) (location : Location) (d : FileSystem) : Prop :=
  ∃ bytes, d = fs.put location (.file bytes) ∧ front <+: bytes.data.toList

section

variable {target : ByteSink FileSystem} {location : Location} {fs d d' : FileSystem}
  {front : List UInt8} (ht : target.AppendsAt location) (hl : location ≠ [])

include ht hl

theorem putBehind_after (h : PutBehind front fs location d) (bytes : ByteArray) :
    PutBehind front fs location (after (target.writeAll bytes) d) := by
  obtain ⟨written, rfl, hfront⟩ := h
  obtain ⟨taken, hafter, -⟩ := ht.file _ written bytes (FileSystem.content?_put_self hl _)
  refine ⟨written ++ taken, ?_, ?_⟩
  · rw [hafter, FileSystem.put_put]
  · rw [ByteArray.data_append, Array.toList_append]
    exact hfront.trans (List.prefix_append ..)

omit ht in
theorem put_file_injective {bytes bytes' : ByteArray}
    (h : fs.put location (.file bytes) = fs.put location (.file bytes')) : bytes = bytes' := by
  have hcontent := congrArg (·.content? location) h
  simp only [FileSystem.content?_put_self hl] at hcontent
  cases hcontent
  rfl

theorem eq_put_of_writeAll {written bytes : ByteArray}
    (h : target.writeAll bytes (fs.put location (.file written)) = .ok () d') :
    d' = fs.put location (.file (written ++ bytes)) := by
  obtain ⟨taken, hafter, hall⟩ := ht.file _ written bytes (FileSystem.content?_put_self hl _)
  rw [after_of_ok h, FileSystem.put_put, hall ⟨d', h⟩] at hafter
  exact hafter

end

namespace ArrayWriter

theorem bracket_suffix_closing {δ : Type} (w : ArrayWriter δ) :
    Utf8.encode "]" <:+ w.closing.toUTF8.data.toList := by
  rw [closing]
  cases w.format with
  | legacy => exact List.suffix_refl _
  | strict =>
    by_cases he : w.emitted = true
    · simp only [if_pos he]
      exact ⟨Utf8.encode "\n", rfl⟩
    · simp only [if_neg he]
      exact List.suffix_refl _

end ArrayWriter

end Output

namespace Extraction

open Files Java Output Text

/-- The place of the output: a file now, where nothing was before, or another file. -/
structure Replaced (output : Path) (fs fs' : FileSystem) (l : Location) : Prop where
  before : ∀ c, fs.content? l = some c → ∃ bytes, c = .file bytes
  file : ∃ bytes, fs'.content? l = some (.file bytes)
  output : fs'.resolve output = .ok l

structure Frame (sinkAt : Location → ByteSink FileSystem) (config : Config) (fs : FileSystem)
    (result : RunReport × FileSystem) : Prop where
  home : result.2.home = fs.home
  content : ∀ l, result.2.content? l = fs.content? l ∨
    fs.Added (·.IsAbove config.output) result.2 l ∨ Replaced config.output fs result.2 l
  invalid : ∀ message, config.validate = .error message →
    result = (⟨[], .error (.configuration message)⟩, fs)
  /-- An output that has been opened begins with the opening if that could be written, and it ends
  with a bracket if there are statistics. -/
  opened : ∀ location fs₁, config.validate = .ok () →
    openOutput config.output fs = .ok location fs₁ → fs₁.isFile config.output = true →
      ∃ bytes, result.2.content? location = some (.file bytes) ∧
        result.2.resolve config.output = .ok location ∧
        ((∃ w, ArrayWriter.start (sinkAt location) (.new config.format fs₁) = .ok () w) →
          Utf8.encode "[\n" <+: bytes.data.toList) ∧
        ((∃ stats, result.1.result = .ok stats) → Utf8.encode "]" <:+ bytes.data.toList)

section

variable {sinkAt : Location → ByteSink FileSystem} {config : Config} {fs fs₁ : FileSystem}
  {location : Location} {front : List UInt8}

/-- In every state that calls lead to, the file is there and begins as it did. -/
theorem Reaches.putBehind {w₀ w : ArrayWriter FileSystem}
    (h : Reaches (ArrayWriter.sink (sinkAt location)) w₀ w)
    (hs : (sinkAt location).AppendsAt location) (hl : location ≠ [])
    (h₀ : PutBehind front fs location w₀.target) : PutBehind front fs location w.target := by
  apply h.target (PutBehind front fs location) h₀
  · intro d bytes hd
    exact putBehind_after hs hl hd bytes
  · intro d hd
    rwa [hs.flush]

theorem adds_of_openOutput_error {p : Path} {e : IoError}
    (ho : openOutput p fs = .error e fs₁) : fs.Adds (·.IsAbove p) fs₁ := by
  have ha := Change.adds_makeParents p fs
  rw [openOutput_eq] at ho
  cases hp : Change.makeParents p fs with
  | ok u fs₀ =>
    rw [hp] at ho ha
    obtain rfl := create_error ho
    exact ha
  | error e' fs₀ =>
    rw [hp] at ho ha
    cases ho
    exact ha

theorem content?_put_of_adds {p : Path} {fs₀ : FileSystem} {bytes : ByteArray}
    (ha : fs.Adds (·.IsAbove p) fs₀) (hl : location ≠ [])
    (hc : ∀ c, fs₀.content? location = some c → c.outline = .file .empty)
    (hr : (fs₀.put location (.file bytes)).resolve p = .ok location) (l : Location) :
    (fs₀.put location (.file bytes)).content? l = fs.content? l ∨
      fs.Added (·.IsAbove p) (fs₀.put location (.file bytes)) l ∨
      Replaced p fs (fs₀.put location (.file bytes)) l := by
  by_cases he : l = location
  · subst he
    refine .inr (.inr ⟨?_, ⟨bytes, FileSystem.content?_put_self hl _⟩, hr⟩)
    intro c hfs
    obtain hsame | hadded := ha.content l
    · have ho := hc c (hsame.trans hfs)
      cases c with
      | file written => exact ⟨written, rfl⟩
      | _ => cases ho
    · cases hfs.symm.trans hadded.missing
  · rw [FileSystem.content?_put hl, if_neg he]
    obtain hsame | hadded := ha.content l
    · exact .inl hsame
    · exact .inr (.inl (hadded.kept (FileSystem.extends_put hl fun c h => (hc c h).symm)))

section Run

variable (hs : (sinkAt location).AppendsAt location) (hl : location ≠ []) (engine : Engine)
  {w₀ : ArrayWriter FileSystem} (h₀ : w₀.target = fs.put location (.file .empty))

include hs hl h₀

theorem putBehind_run : PutBehind [] fs location
    (engine.run (ArrayWriter.sink (sinkAt location)) (·.target) w₀).2.target := by
  have hreaches := engine.reaches_run (ArrayWriter.sink (sinkAt location)) (·.target) w₀
  exact hreaches.putBehind hs hl ⟨.empty, h₀, List.nil_prefix⟩

theorem putBehind_run_of_start {w : ArrayWriter FileSystem}
    (hstart : ArrayWriter.start (sinkAt location) w₀ = .ok () w) :
    PutBehind (Utf8.encode "[\n") fs location
      (engine.run (ArrayWriter.sink (sinkAt location)) (·.target) w₀).2.target := by
  have hwrite := ArrayWriter.target_of_onTarget hstart
  rw [h₀] at hwrite
  have hstarted : (ArrayWriter.sink (sinkAt location)).start w₀ = .ok () w := hstart
  have hreaches := Engine.reaches_run_of_started hstarted (·.target) engine
  exact hreaches.putBehind hs hl ⟨_, eq_put_of_writeAll hs hl hwrite, List.prefix_refl _⟩

theorem exists_bracket_of_statistics {stats : Statistics}
    (h : (engine.run (ArrayWriter.sink (sinkAt location)) (·.target) w₀).1.result = .ok stats) :
    ∃ bytes, (engine.run (ArrayWriter.sink (sinkAt location)) (·.target) w₀).2.target =
      fs.put location (.file bytes) ∧ Utf8.encode "]" <:+ bytes.data.toList := by
  obtain ⟨w, hw, hfinish⟩ := Engine.exists_finish_of_statistics h
  obtain ⟨written, hwritten, -⟩ := hw.putBehind hs hl ⟨.empty, h₀, List.nil_prefix⟩
  obtain ⟨d, hwrite, hflush⟩ := ArrayWriter.target_of_finish hfinish
  rw [hwritten] at hwrite
  have hd := eq_put_of_writeAll hs hl hwrite
  have hsame := hs.flush d
  rw [after_of_ok hflush] at hsame
  refine ⟨_, hsame.trans hd, ?_⟩
  rw [ByteArray.data_append, Array.toList_append]
  exact (ArrayWriter.bracket_suffix_closing w).trans (List.suffix_append ..)

theorem exists_bytes_run :
    ∃ bytes, (engine.run (ArrayWriter.sink (sinkAt location)) (·.target) w₀).2.target =
        fs.put location (.file bytes) ∧
      ((∃ w, ArrayWriter.start (sinkAt location) w₀ = .ok () w) →
        Utf8.encode "[\n" <+: bytes.data.toList) ∧
      ((∃ stats, (engine.run (ArrayWriter.sink (sinkAt location)) (·.target) w₀).1.result =
          .ok stats) →
        Utf8.encode "]" <:+ bytes.data.toList) := by
  obtain ⟨bytes, htarget, -⟩ := putBehind_run hs hl engine h₀
  refine ⟨bytes, htarget, ?_, ?_⟩
  · rintro ⟨w, hstart⟩
    obtain ⟨bytes', htarget', hprefix⟩ := putBehind_run_of_start hs hl engine h₀ hstart
    rwa [put_file_injective hl (htarget.symm.trans htarget')]
  · rintro ⟨stats, hresult⟩
    obtain ⟨bytes', htarget', hsuffix⟩ := exists_bracket_of_statistics hs hl engine h₀ hresult
    rwa [put_file_injective hl (htarget.symm.trans htarget')]

end Run

theorem frame_of_adds {result : RunReport × FileSystem} (hv : config.validate = .ok ())
    (ha : fs.Adds (·.IsAbove config.output) result.2)
    (hopened : ∀ location fs₁, openOutput config.output fs = .ok location fs₁ →
      ¬ fs₁.isFile config.output = true) : Frame sinkAt config fs result where
  home := ha.home
  content := fun l => (ha.content l).imp_right .inl
  invalid := by
    intro message hinvalid
    cases hv.symm.trans hinvalid
  opened := fun location fs₁ _ ho hfile => absurd hfile (hopened location fs₁ ho)

theorem not_isFile_of_device {p : Path} {d : Device}
    (hw : Change.writable p fs = .ok (.existing location))
    (hc : fs.content? location = some (.device d)) : ¬ fs.isFile p = true := by
  rw [FileSystem.isFile, FileSystem.contentOf, FileSystem.resolve_of_writable hw]
  simp only [bind, Except.bind, hc]
  exact Bool.false_ne_true

theorem frame_of_opened (hs : (sinkAt location).AppendsAt location)
    (hv : config.validate = .ok ()) (ho : openOutput config.output fs = .ok location fs₁) :
    Frame sinkAt config fs (extractThrough sinkAt config fs) := by
  obtain ⟨fs₀, hparents, hcreate⟩ := create_of_openOutput ho
  have ha := Change.adds_makeParents config.output fs
  rw [hparents] at ha
  rw [extractThrough_of_opened hv ho]
  cases FileSystem.opens_of_create hcreate with
  | @device d hw hc =>
    -- a device keeps nothing, so no call changes the files
    have hreaches := Engine.reaches_run (ArrayWriter.sink (sinkAt location)) (·.target)
      ⟨config, hv⟩ (.new config.format fs₁)
    have htarget := hreaches.target (· = fs₁) rfl
      (by rintro _ bytes rfl; exact hs.device _ d bytes hc) (by rintro _ rfl; exact hs.flush _)
    apply frame_of_adds hv
    · simp only [htarget]
      exact ha
    · intro location' fs₂ ho'
      cases ho.symm.trans ho'
      exact not_isFile_of_device hw hc
  | file hl hc hw =>
    have h₀ : (ArrayWriter.new config.format (fs₀.put location (.file .empty))).target =
      fs₀.put location (.file .empty) := rfl
    obtain ⟨bytes, htarget, hopening, hclosing⟩ := exists_bytes_run hs hl ⟨config, hv⟩ h₀
    have hresolve := FileSystem.resolve_of_writable (hw bytes)
    constructor
    · rw [htarget, FileSystem.home_put]
      exact ha.home
    · rw [htarget]
      exact content?_put_of_adds ha hl hc hresolve
    · intro message hinvalid
      cases hv.symm.trans hinvalid
    · intro location' fs₂ _ ho' _
      cases ho.symm.trans ho'
      refine ⟨bytes, ?_, ?_, hopening, hclosing⟩
      · rw [htarget, FileSystem.content?_put_self hl]
      · rw [htarget]
        exact hresolve

theorem frame_of_invalid {message : String} (hv : config.validate = .error message) :
    Frame sinkAt config fs (extractThrough sinkAt config fs) := by
  rw [extractThrough_of_invalid hv]
  constructor
  · rfl
  · exact fun l => .inl rfl
  · intro message' hv'
    rw [Except.error.inj (hv.symm.trans hv')]
  · intro location fs₁ hv'
    cases hv.symm.trans hv'

theorem frame_extractThrough (hs : ∀ location, (sinkAt location).AppendsAt location)
    (config : Config) (fs : FileSystem) :
    Frame sinkAt config fs (extractThrough sinkAt config fs) := by
  cases hv : config.validate with
  | error message => exact frame_of_invalid hv
  | ok u =>
    cases ho : openOutput config.output fs with
    | ok location fs₁ => exact frame_of_opened (hs location) hv ho
    | error e fs₁ =>
      rw [extractThrough_of_unopened hv ho]
      apply frame_of_adds hv (adds_of_openOutput_error ho)
      intro location fs₂ ho'
      cases ho.symm.trans ho'

/-- However an extraction into a file ends, all it has changed is the output and what was missing
above it; that would still be so if any write to the output could fail. -/
theorem frame_extractToFile (config : Config) (fs : FileSystem) :
    Frame fileSink config fs (extractToFile config fs) ∧
      ∀ sinkAt : Location → ByteSink FileSystem,
        (∀ location, (sinkAt location).AppendsAt location) →
          Frame sinkAt config fs (extractThrough sinkAt config fs) := by
  constructor
  · rw [extractToFile_eq]
    exact frame_extractThrough fileSink_appendsAt config fs
  · intro sinkAt hs
    exact frame_extractThrough hs config fs

end

def smallDisk (room : Nat) (location : Location) : ByteSink FileSystem where
  writeAll bytes := fun fs =>
    match fs.content? location with
    | some (.file written) =>
      if written.size + bytes.size ≤ room then .ok () (fs.put location (.file (written ++ bytes)))
      else
        let taken := bytes.extract 0 (room - written.size)
        .error .noSpace (fs.put location (.file (written ++ taken)))
    | _ => Change.append location bytes fs
  flush := pure ()

theorem smallDisk_appendsAt (room : Nat) (location : Location) :
    (smallDisk room location).AppendsAt location where
  file := by
    intro fs written bytes hc
    by_cases hroom : written.size + bytes.size ≤ room
    · refine ⟨bytes, ?_, fun _ => rfl⟩
      simp only [after, smallDisk, hc, if_pos hroom]
    · refine ⟨bytes.extract 0 (room - written.size), ?_, ?_⟩
      · simp only [after, smallDisk, hc, if_neg hroom]
      · rintro ⟨fs', h⟩
        simp only [smallDisk, hc, if_neg hroom] at h
        cases h
  device := by
    intro fs d bytes hc
    have hsame : (smallDisk room location).writeAll bytes fs = Change.append location bytes fs := by
      simp only [smallDisk, hc]
    rw [after, hsame]
    exact after_append_device hc bytes
  flush := fun _ => rfl

def newOutputConfig : Config := { output := .ofText "new/out.json" }

theorem frame_smallDisk :
    (∀ location, (smallDisk 2 location).AppendsAt location) ∧
      extractThrough (smallDisk 2) newOutputConfig ⟨[], []⟩ =
        (⟨[], .error (.write .noSpace)⟩,
          ⟨[([Utf8.encode "new"], .directory),
            ([Utf8.encode "new", Utf8.encode "out.json"], .file "[\n".toUTF8)], []⟩) ∧
      Frame (smallDisk 2) newOutputConfig ⟨[], []⟩
        (extractThrough (smallDisk 2) newOutputConfig ⟨[], []⟩) := by
  have hs := smallDisk_appendsAt 2
  refine ⟨hs, ?_, (frame_extractToFile newOutputConfig ⟨[], []⟩).2 _ hs⟩
  cbv

end Extraction

end MethodExtraction
