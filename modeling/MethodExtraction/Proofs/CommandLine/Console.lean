import MethodExtraction.CommandLine.Program
import MethodExtraction.Proofs.Extraction.Reporting
import MethodExtraction.Proofs.Text.Encoding

namespace MethodExtraction.CommandLine

open Extraction Files Numeric Output Text

namespace Arguments

def limit? (a : Arguments) : Option Nat := a.maxFileSize.bind fun text => (readSize text).toOption

def config (a : Arguments) : Config where
  root := .ofText a.root
  output := .ofText a.output
  suffix := a.suffix
  followLinks := a.followLinks
  maxDepth := a.maxDepth
  sorted := a.sorted
  maxFileSize := a.limit?
  format := if a.strictJson then .strict else .legacy

/-- The size cannot be read, or something that is asked for is empty or nothing at all. -/
inductive Invalid (a : Arguments) : Prop where
  | size {text} (h : a.maxFileSize = some text) (hr : (readSize text).toOption = none)
  | noSize {text} (h : a.maxFileSize = some text) (hr : readSize text = .ok 0)
  | suffix (h : a.suffix = "")
  | depth (h : a.maxDepth = some 0)
  | output (h : a.output = "")

/-- The same is asked for, but for what is printed and logged. -/
def Alike (a a' : Arguments) : Prop :=
  ∃ quiet stats verbose progress, a' = { a with quiet, stats, verbose, progress }

theorem ofText_eq_empty_iff {text : String} : Path.ofText text = .empty ↔ text = "" := by
  have he : Utf8.encode "" = [] := rfl
  rw [Files.Path.ofText, Files.Path.empty, Files.Path.mk.injEq, ← he]
  exact Utf8.encode_injective.eq_iff

variable {a : Arguments}

theorem sizeLimit_of_error {text size : String} (h : a.maxFileSize = some text)
    (hr : readSize text = .error size) : ∃ e, Settings.sizeLimit a = .error e := by
  simp only [Settings.sizeLimit, h, hr]
  exact ⟨_, rfl⟩

theorem sizeLimit_of_read (h : ∀ text, a.maxFileSize = some text → ∃ n, readSize text = .ok n) :
    Settings.sizeLimit a = .ok a.limit? := by
  rw [Settings.sizeLimit, limit?]
  cases hm : a.maxFileSize with
  | none => rfl
  | some text =>
    obtain ⟨n, hn⟩ := h text hm
    simp only [hn, Option.bind_some]
    rfl

theorem invalid_iff (h : ∀ text, a.maxFileSize = some text → ∃ n, readSize text = .ok n) :
    ¬ a.Invalid ↔ a.config.validate = .ok () := by
  rw [Config.validate_eq_ok_iff]
  constructor
  · intro hi
    refine ⟨fun hs => hi (.suffix hs), fun hd => hi (.depth hd), fun hl => ?_,
      fun ho => hi (.output (ofText_eq_empty_iff.1 ho))⟩
    obtain ⟨text, hm, hr⟩ := Option.bind_eq_some_iff.1 hl
    obtain ⟨n, hn⟩ := h text hm
    rw [hn] at hr
    cases hr
    exact hi (.noSize hm hn)
  · rintro ⟨hs, hd, hl, ho⟩ hi
    cases hi with
    | size hm hr =>
      obtain ⟨n, hn⟩ := h _ hm
      rw [hn] at hr
      cases hr
    | noSize hm hr =>
      apply hl
      rw [config, limit?, hm, Option.bind_some, hr]
      rfl
    | suffix h => exact hs h
    | depth h => exact hd h
    | output h => exact ho (ofText_eq_empty_iff.2 h)

theorem ofArguments_of_sizeLimit (h : Settings.sizeLimit a = .ok a.limit?) :
    Settings.ofArguments a =
      match a.config.validate with
      | .ok () => .ok ⟨a, a.config⟩
      | .error message => .error (.configuration message) := by
  rw [Settings.ofArguments, h]
  rfl

theorem ofArguments_cases (a : Arguments) :
    (a.Invalid ∧ ∃ e, Settings.ofArguments a = .error e) ∨
      (¬ a.Invalid ∧ a.config.validate = .ok () ∧ Settings.ofArguments a = .ok ⟨a, a.config⟩) := by
  by_cases h : ∀ text, a.maxFileSize = some text → ∃ n, readSize text = .ok n
  · have ho := ofArguments_of_sizeLimit (sizeLimit_of_read h)
    cases hv : a.config.validate with
    | ok u =>
      rw [hv] at ho
      exact .inr ⟨(invalid_iff h).2 hv, rfl, ho⟩
    | error message =>
      rw [hv] at ho
      refine .inl ⟨?_, _, ho⟩
      by_contra hi
      cases hv.symm.trans ((invalid_iff h).1 hi)
  · obtain ⟨text, h⟩ := not_forall.1 h
    obtain ⟨hm, hr⟩ := Classical.not_imp.1 h
    cases hn : readSize text with
    | ok n => exact absurd ⟨n, hn⟩ hr
    | error size =>
      obtain ⟨e, he⟩ := sizeLimit_of_error hm hn
      refine .inl ⟨.size hm (by rw [hn]; rfl), e, ?_⟩
      rw [Settings.ofArguments, he]
      rfl

theorem Alike.config_eq {a' : Arguments} (h : a.Alike a') : a'.config = a.config := by
  obtain ⟨_, _, _, _, rfl⟩ := h
  rfl

theorem Alike.symm {a' : Arguments} (h : a.Alike a') : a'.Alike a := by
  obtain ⟨_, _, _, _, rfl⟩ := h
  exact ⟨a.quiet, a.stats, a.verbose, a.progress, rfl⟩

theorem Alike.invalid {a' : Arguments} (h : a.Alike a') (hi : a.Invalid) : a'.Invalid := by
  obtain ⟨_, _, _, _, rfl⟩ := h
  cases hi with
  | size hm hr => exact .size hm hr
  | noSize hm hr => exact .noSize hm hr
  | suffix hs => exact .suffix hs
  | depth hd => exact .depth hd
  | output ho => exact .output ho

end Arguments

theorem diagnostics_eq (report : RunReport) :
    diagnostics report = (report.files.map FileReport.lines).flatten := by
  rw [diagnostics]
  induction report.files with
  | nil => rfl
  | cons file files ih =>
    rw [List.filterMap_cons, List.map_cons, List.flatten_cons, ← ih, FileReport.lines]
    cases file.outcome <;> rfl

/-- What a user is told on the standard output, by how a run ends: what is printed of the files, if
that is wanted, and the totals if it comes to its end. -/
def Tells (a : Arguments) (clock : Clock) (printed : List String) (x : Execution) :
    Except ExtractionError Statistics → Prop
  | .ok stats => x.status = 0 ∧ x.stdout clock = unlines ((if a.quiet then [] else printed) ++
      (["Success: " ++ toString stats.filesParsed, "Fail: " ++ toString stats.filesFailed] ++
        if a.stats then statisticsLines stats clock else []))
  | .error _ => x.status = 1 ∧ x.stdout clock = unlines (if a.quiet then [] else printed)

structure Console (a : Arguments) (clock : Clock) (fs : FileSystem)
    (x : Execution × FileSystem) : Prop where
  invalid : a.Invalid → x.1.status = 2 ∧ x.1.stdout clock = "" ∧ x.2 = fs
  valid : ¬ a.Invalid → ∃ (engine : Engine) (paths : List Path) (printed : List (List String))
    (result : Except ExtractionError Statistics), engine.config = a.config ∧
      engine.Goes fs paths printed result ∧ Tells a clock printed.flatten x.1 result
  /-- What is to be printed and logged makes no difference to anything else. -/
  options : ∀ words filter a', parseArguments words = .ok a' → a.Alike a' →
    (execute words filter fs).2 = x.2 ∧ (execute words filter fs).1.status = x.1.status

section

variable {words : List String} {a : Arguments} {filter : Option String} {fs : FileSystem}

theorem execute_of_error {e : ExtractionError} (h : parseArguments words = .ok a)
    (hs : Settings.ofArguments a = .error e) :
    execute words filter fs = (.misconfigured e, fs) := by
  rw [execute, h]
  simp only [hs]

theorem execute_of_ok {settings : Settings} (h : parseArguments words = .ok a)
    (hs : Settings.ofArguments a = .ok settings) :
    execute words filter fs =
      (.ran settings (.choose filter settings.logDirective) (extractToFile settings.config fs).1,
        (extractToFile settings.config fs).2) := by
  rw [execute, h]
  simp only [hs]

theorem tells_of_ran (log : LogFilter) (clock : Clock) (report : RunReport)
    {printed : List (List String)} (hp : report.files.map FileReport.lines = printed) :
    Tells a clock printed.flatten (.ran ⟨a, a.config⟩ log report) report.result := by
  subst hp
  obtain ⟨files, result⟩ := report
  cases result with
  | ok stats =>
    refine ⟨rfl, ?_⟩
    rw [Execution.stdout, diagnostics_eq]
  | error e =>
    refine ⟨rfl, ?_⟩
    rw [Execution.stdout, diagnostics_eq, List.append_nil]

end

/-- Arguments that are accepted are turned down as invalid, without a trace, or tell on the standard
output what has become of each file and, in the end, of all of them. -/
theorem console_of_accepted {words : List String} {a : Arguments}
    (h : parseArguments words = .ok a) (filter : Option String) (fs : FileSystem) (clock : Clock) :
    Console a clock fs (execute words filter fs) := by
  obtain ⟨hi, e, hs⟩ | ⟨hi, hv, hs⟩ := Arguments.ofArguments_cases a
  · rw [execute_of_error h hs]
    refine ⟨fun _ => ⟨rfl, rfl, rfl⟩, fun hn => absurd hi hn, ?_⟩
    intro words' filter' a' h' ha
    obtain ⟨_, e', hs'⟩ | ⟨hi', _⟩ := Arguments.ofArguments_cases a'
    · rw [execute_of_error h' hs']
      exact ⟨rfl, rfl⟩
    · exact absurd (ha.invalid hi) hi'
  · rw [execute_of_ok h hs]
    obtain ⟨paths, printed, hg, hp⟩ := Engine.goes_extractToFile hv fs
    refine ⟨fun hn => absurd hn hi,
      fun _ => ⟨⟨a.config, hv⟩, paths, printed, _, rfl, hg, tells_of_ran _ clock _ hp⟩, ?_⟩
    intro words' filter' a' h' ha
    obtain ⟨hi', _⟩ | ⟨_, _, hs'⟩ := Arguments.ofArguments_cases a'
    · exact absurd (ha.symm.invalid hi') hi
    · rw [execute_of_ok h' hs', ha.config_eq]
      exact ⟨rfl, rfl⟩

theorem console_threeFiles :
    parseArguments [".", "--sorted", "--stats"] =
        .ok { root := ".", sorted := true, stats := true } ∧
      ∃ (engine : Engine) (paths : List Path) (printed : List (List String))
        (result : Except ExtractionError Statistics),
        engine.config = { root := .ofText ".", sorted := true } ∧
          engine.Goes threeFiles paths printed result ∧
          Tells { root := ".", sorted := true, stats := true } ⟨"", ⟨0⟩⟩ printed.flatten
            (execute [".", "--sorted", "--stats"] none threeFiles).1 result := by
  have h : parseArguments [".", "--sorted", "--stats"] =
      .ok { root := ".", sorted := true, stats := true } := rfl
  refine ⟨h, (console_of_accepted h none threeFiles ⟨"", ⟨0⟩⟩).valid ?_⟩
  rintro (⟨hm, _⟩ | ⟨hm, _⟩ | hs | hd | ho)
  · cases hm
  · cases hm
  · exact absurd hs (by decide)
  · cases hd
  · exact absurd ho (by decide)

end MethodExtraction.CommandLine
