import MethodExtraction.Proofs.CommandLine.Console
import MethodExtraction.Proofs.Numeric.Spelling

namespace MethodExtraction.CommandLine

open Extraction Files Numeric Output

def Argument.word (a : Argument) : Option String → String
  | none => "--" ++ a.name
  | some value => "--" ++ a.name ++ "=" ++ value

namespace Arguments

def flag (isSet : Bool) : Option (Option String) := if isSet then some none else none

def given? (v : Arguments) : Argument → Option (Option String)
  | .output => some (some v.output)
  | .suffix => some (some v.suffix)
  | .followLinks => flag v.followLinks
  | .maxDepth => v.maxDepth.map fun depth => some (toString depth)
  | .sorted => flag v.sorted
  | .maxFileSize => v.maxFileSize.map some
  | .strictJson => flag v.strictJson
  | .stats => flag v.stats
  | .progress => flag v.progress
  | .verbose => flag v.verbose
  | .quiet => flag v.quiet
  | .root | .help | .version => none

def default? (a : Argument) : Option (Option String) := ({} : Arguments).given? a

def words (v : Arguments) (options : List Argument) : List String :=
  options.filterMap fun a => (v.given? a).map a.word

/-- The arguments are written with a word for each option, in any order, and with the root at the
end. An option that has its default value may be left out. -/
inductive Written (v : Arguments) : List String → Prop
  | intro {options} (nodup : options.Nodup) (all : ∀ a, v.given? a ≠ default? a → a ∈ options) :
    Written v (v.words options ++ ["--", v.root])

/-- The values can be given on a command line: paths are not empty, and a depth fits into a word. -/
structure Writable (v : Arguments) : Prop where
  root : v.root ≠ ""
  output : v.output ≠ ""
  depth : ∀ depth, v.maxDepth = some depth → depth < 2 ^ 64

section

variable {v v' : Arguments} {a b : Argument} {value : Option String}

theorem flag_eq_some_iff {isSet : Bool} : flag isSet = some value ↔ isSet = true ∧ value = none := by
  cases isSet
  · simp [flag]
  · simp [flag, eq_comm]

theorem flag_injective : Function.Injective flag := by decide

theorem default?_of_given?_eq_none (h : v.given? a = none) : default? a = none := by
  cases a with
  | output => cases h
  | suffix => cases h
  | _ => rfl

theorem eq_of_given? (h : ∀ a, v.given? a = v'.given? a) (hr : v.root = v'.root) : v = v' := by
  have hdepth : Function.Injective fun depth : ℕ => some (toString depth) := by
    intro n m hnm
    rw [← denoted_toString n, Option.some.inj hnm, denoted_toString]
  have ho := Option.some.inj (Option.some.inj (h .output))
  have hs := Option.some.inj (Option.some.inj (h .suffix))
  have hd := Option.map_injective hdepth (h .maxDepth)
  have hm := Option.map_injective (Option.some_injective _) (h .maxFileSize)
  cases v
  cases v'
  simp only [mk.injEq]
  exact ⟨hr, ho, hs, flag_injective (h .followLinks), hd, flag_injective (h .sorted), hm,
    flag_injective (h .strictJson), flag_injective (h .stats), flag_injective (h .progress),
    flag_injective (h .verbose), flag_injective (h .quiet)⟩

end

end Arguments

namespace Argument

variable {a : Argument} {value : Option String}

theorem ne_equals_of_mem_name (a : Argument) : ∀ c ∈ a.name.toList, decide (c ≠ '=') = true :=
  List.all_eq_true.1 (by cases a <;> rfl)

theorem ofName?_name (h : a ≠ .root) : ofName? a.name = some a := by
  cases a with
  | root => exact absurd rfl h
  | _ => rfl

theorem toList_word_none (a : Argument) : (a.word none).toList = '-' :: '-' :: a.name.toList := by
  rw [word, String.toList_append]
  rfl

theorem toList_word_some (a : Argument) (value : String) :
    (a.word (some value)).toList = '-' :: '-' :: (a.name.toList ++ '=' :: value.toList) := by
  rw [word, String.toList_append, String.toList_append, String.toList_append, List.append_assoc]
  rfl

/-- The name and the value can be told from the word: there is no equals sign in a name. -/
theorem long?_word (a : Argument) (value : Option String) :
    long? (a.word value).toList = some (a.name, value) := by
  have hname := a.ne_equals_of_mem_name
  cases value with
  | none =>
    rw [toList_word_none, long?, List.dropWhile_eq_nil_iff.2 hname]
    simp only [String.ofList_toList]
  | some value =>
    have hdrop : (a.name.toList ++ '=' :: value.toList).dropWhile (· ≠ '=') =
        '=' :: value.toList := List.dropWhile_append_of_pos hname
    have htake : (a.name.toList ++ '=' :: value.toList).takeWhile (· ≠ '=') = a.name.toList :=
      (List.takeWhile_append_of_pos hname).trans (List.append_nil _)
    rw [toList_word_some, long?, hdrop]
    simp only [htake, String.ofList_toList]

theorem word_ne_dashes (a : Argument) (value : Option String) : a.word value ≠ "--" := by
  intro h
  have hlong := a.long?_word value
  rw [h] at hlong
  have hname : "" = a.name := congrArg Prod.fst (Option.some.inj hlong)
  cases a <;> exact absurd hname (by decide)

end Argument

namespace Arguments

variable {v acc acc' : Arguments} {a b : Argument} {value : Option String}

theorem ne_root_of_given? (h : v.given? a = some value) : a ≠ .root := by
  rintro rfl
  cases h

theorem takesValue_of_given? (h : v.given? a = some value) : a.takesValue = value.isSome := by
  cases a with
  | output | suffix =>
    cases h
    rfl
  | maxDepth | maxFileSize =>
    obtain ⟨-, -, rfl⟩ := Option.map_eq_some_iff.1 h
    rfl
  | root | help | version => cases h
  | followLinks | sorted | strictJson | stats | progress | verbose | quiet =>
    obtain ⟨-, rfl⟩ := flag_eq_some_iff.1 h
    rfl

theorem given?_of_store {text : String} (h : store a text acc = .ok acc') (hb : b ≠ a) :
    acc'.given? b = acc.given? b := by
  have hsame : acc'.given? b = acc.given? b ∨ b = a := by
    cases a with
    | root | output =>
      rw [store] at h
      split_ifs at h
      cases h
      cases b <;> simp [given?]
    | maxDepth =>
      rw [store] at h
      split at h <;> cases h
      cases b <;> simp [given?]
    | help | version => cases h
    | _ =>
      cases h
      cases b <;> simp [given?]
  exact hsame.resolve_right hb

theorem exists_store (hw : v.Writable) (h : v.given? a = some value) (acc : Arguments) :
    ∃ acc', store a (value.getD "") acc = .ok acc' ∧ acc'.given? a = some value := by
  cases a with
  | output =>
    cases h
    exact ⟨_, if_neg hw.output, rfl⟩
  | suffix =>
    cases h
    exact ⟨_, rfl, rfl⟩
  | maxDepth =>
    obtain ⟨depth, hd, rfl⟩ := Option.map_eq_some_iff.1 h
    refine ⟨{ acc with maxDepth := some depth }, ?_, rfl⟩
    rw [Option.getD_some, store, readUnsigned_toString (hw.depth depth hd)]
  | maxFileSize =>
    obtain ⟨size, -, rfl⟩ := Option.map_eq_some_iff.1 h
    exact ⟨_, rfl, rfl⟩
  | root | help | version => cases h
  | followLinks | sorted | strictJson | stats | progress | verbose | quiet =>
    obtain ⟨-, rfl⟩ := flag_eq_some_iff.1 h
    exact ⟨_, rfl, rfl⟩

end Arguments

namespace Draft

/-- Some options have been given the values of `v`, and there is nothing that waits to be taken up. -/
structure Holds (v : Arguments) (d : Draft) : Prop where
  given : ∀ a ∈ d.used, d.values.given? a = v.given? a
  rest : ∀ a, a ∉ d.used → d.values.given? a = Arguments.default? a
  noRoot : Argument.root ∉ d.used
  pending : d.pending = none
  trailing : d.trailing = false

variable {v : Arguments} {d : Draft} {a : Argument} {value : Option String}

theorem holds_begin (v : Arguments) : Holds v {} where
  given _ ha := absurd ha List.not_mem_nil
  rest _ _ := rfl
  noRoot := List.not_mem_nil
  pending := rfl
  trailing := rfl

theorem read_word (hd : d.Holds v) (hg : v.given? a = some value) :
    d.read (a.word value) = d.accept a value := by
  have htakes := Arguments.takesValue_of_given? hg
  have htrailing : ¬ d.trailing = true := by simp [hd.trailing]
  have hbegin : d.begin a value = d.accept a value := by
    rw [begin, acceptPending, hd.pending]
    rfl
  rw [read, if_neg htrailing, if_neg (a.word_ne_dashes value), a.long?_word]
  simp only [readLong, Argument.ofName?_name (Arguments.ne_root_of_given? hg), htakes]
  cases value <;> exact hbegin

theorem accept_eq (value : Option String) (hu : a ∉ d.used) (ht : a.takesValue = value.isSome)
    {values : Arguments} (hs : store a (value.getD "") d.values = .ok values) :
    d.accept a value = .ok { d with values, used := d.used ++ [a], pending := none } := by
  have htakes : ¬ (a.takesValue && value.isNone) = true := by
    cases value <;> simp [ht]
  rw [accept, if_neg htakes, if_neg hu, hs]
  rfl

theorem exists_read_word (hw : v.Writable) (hd : d.Holds v) (hg : v.given? a = some value)
    (hu : a ∉ d.used) :
    ∃ d', d.read (a.word value) = .ok d' ∧ d'.Holds v ∧ d'.used = d.used ++ [a] := by
  obtain ⟨values, hs, hv⟩ := Arguments.exists_store hw hg d.values
  refine ⟨{ d with values, used := d.used ++ [a], pending := none }, ?_, ?_, rfl⟩
  · rw [read_word hd hg, accept_eq value hu (Arguments.takesValue_of_given? hg) hs]
  · have hne := Arguments.ne_root_of_given? hg
    refine ⟨?_, ?_, ?_, rfl, hd.trailing⟩
    · intro b hb
      by_cases hba : b = a
      · rw [hba, hg]
        exact hv
      · have hbu : b ∈ d.used := by simpa [hba] using hb
        exact (Arguments.given?_of_store hs hba).trans (hd.given b hbu)
    · intro b hb
      have hb : b ∉ d.used ∧ b ≠ a := by simpa using hb
      exact (Arguments.given?_of_store hs hb.2).trans (hd.rest b hb.1)
    · simpa [hd.noRoot] using hne.symm

theorem exists_read_words (hw : v.Writable) {options : List Argument} (hn : options.Nodup)
    (hd : d.Holds v) (hu : ∀ a ∈ options, a ∉ d.used) :
    ∃ d', (v.words options).foldlM read d = .ok d' ∧ d'.Holds v ∧
      d'.used = d.used ++ options.filter fun a => (v.given? a).isSome := by
  induction options generalizing d with
  | nil => exact ⟨d, rfl, hd, (List.append_nil _).symm⟩
  | cons a options ih =>
    obtain ⟨ha, hn⟩ := List.nodup_cons.1 hn
    obtain ⟨hua, hu⟩ := List.forall_mem_cons.1 hu
    cases hg : v.given? a with
    | none =>
      obtain ⟨d', hr, hd', hused⟩ := ih hn hd hu
      have hwords : v.words (a :: options) = v.words options :=
        List.filterMap_cons_none (by rw [hg]; rfl)
      refine ⟨d', ?_, hd', ?_⟩
      · rw [hwords, hr]
      · rw [hused, List.filter_cons_of_neg (by simp [hg])]
    | some value =>
      obtain ⟨d₁, hr₁, hd₁, hused₁⟩ := exists_read_word hw hd hg hua
      have hu₁ : ∀ b ∈ options, b ∉ d₁.used := by
        intro b hb
        have hba : b ≠ a := fun he => ha (he ▸ hb)
        simpa [hused₁, hba] using hu b hb
      obtain ⟨d', hr, hd', hused⟩ := ih hn hd₁ hu₁
      have hwords : v.words (a :: options) = a.word value :: v.words options :=
        List.filterMap_cons_some (by rw [hg]; rfl)
      refine ⟨d', ?_, hd', ?_⟩
      · rw [hwords, List.foldlM_cons, hr₁]
        exact hr
      · rw [hused, hused₁, List.filter_cons_of_pos (by simp [hg]), List.append_assoc,
          List.singleton_append]

theorem finish_of_root {root : String} (hp : d.pending = some (.root, some root))
    (hu : Argument.root ∉ d.used) (hr : root ≠ "") : d.finish = .ok { d.values with root } := by
  have hs : store .root root d.values = .ok { d.values with root } := if_neg hr
  have haccept := accept_eq (some root) hu rfl hs
  rw [finish, acceptPending, hp]
  simp only [haccept, ok_bind]
  simp

/-- Behind `--` a word is the root, whatever it looks like. -/
theorem read_root (hd : d.Holds v) (hr : v.root ≠ "") :
    (do (← ["--", v.root].foldlM read d).finish) = .ok { d.values with root := v.root } := by
  have htrailing : ¬ d.trailing = true := by simp [hd.trailing]
  have hfirst : d.read "--" = .ok { d with trailing := true } := by
    rw [read, if_neg htrailing, if_pos rfl]
  have hsecond : ({ d with trailing := true } : Draft).read v.root =
      .ok { d with trailing := true, pending := some (.root, some v.root) } := by
    simp only [read, readPlain, acceptPending, hd.pending, hd.noRoot]
    rfl
  rw [List.foldlM_cons, hfirst, ok_bind, List.foldlM_cons, hsecond, ok_bind, List.foldlM_nil]
  exact finish_of_root rfl hd.noRoot hr

end Draft

theorem parseArguments_of_written {v : Arguments} {words : List String} (hw : v.Writable)
    (h : v.Written words) : parseArguments words = .ok v := by
  obtain @⟨options, hn, hall⟩ := h
  obtain ⟨d, hr, hd, hused⟩ :=
    Draft.exists_read_words hw hn (Draft.holds_begin v) fun _ _ => List.not_mem_nil
  have hv : { d.values with root := v.root } = v := by
    refine Arguments.eq_of_given? (fun a => ?_) rfl
    have hroot : ({ d.values with root := v.root } : Arguments).given? a = d.values.given? a := by
      cases a <;> rfl
    rw [hroot]
    by_cases ha : a ∈ d.used
    · exact hd.given a ha
    · have hdefault : v.given? a = Arguments.default? a := by
        by_contra hne
        have hnone : v.given? a = none := by
          by_contra hsome
          exact ha (by simp [hused, hall a hne, Option.isSome_iff_ne_none, hsome])
        rw [hnone, Arguments.default?_of_given?_eq_none hnone] at hne
        exact hne rfl
      rw [hd.rest a ha, hdefault]
  rw [parseArguments, List.foldlM_append, hr]
  exact (Draft.read_root hd hw.root).trans (by rw [hv])

structure Settings.Follows (s : Settings) (v : Arguments) : Prop where
  arguments : s.arguments = v
  root : s.config.root = .ofText v.root
  output : s.config.output = .ofText v.output
  suffix : s.config.suffix = v.suffix
  followLinks : s.config.followLinks = v.followLinks
  maxDepth : s.config.maxDepth = v.maxDepth
  sorted : s.config.sorted = v.sorted
  noLimit : v.maxFileSize = none → s.config.maxFileSize = none
  limit : ∀ text, v.maxFileSize = some text →
    ∃ n, readSize text = .ok n ∧ s.config.maxFileSize = some n
  format : s.config.format = if v.strictJson then .strict else .legacy

section

variable {v : Arguments} {s : Settings}

theorem readable_of_not_invalid (h : ¬ v.Invalid) :
    ∀ text, v.maxFileSize = some text → ∃ n, readSize text = .ok n := by
  intro text hm
  cases hr : readSize text with
  | ok n => exact ⟨n, rfl⟩
  | error size => exact absurd (.size hm (by rw [hr]; rfl)) h

theorem exists_ofArguments_iff (v : Arguments) :
    (∃ s, Settings.ofArguments v = .ok s) ↔
      (∀ text, v.maxFileSize = some text → ∃ n, readSize text = .ok n) ∧
        v.config.validate = .ok () := by
  obtain ⟨hi, e, he⟩ | ⟨hi, hv, hs⟩ := v.ofArguments_cases
  · constructor
    · rintro ⟨s, hs⟩
      cases he.symm.trans hs
    · rintro ⟨hr, hv⟩
      exact absurd hi ((Arguments.invalid_iff hr).2 hv)
  · exact ⟨fun _ => ⟨readable_of_not_invalid hi, hv⟩, fun _ => ⟨_, hs⟩⟩

theorem follows_of_ofArguments (h : Settings.ofArguments v = .ok s) :
    s.Follows v ∧ ∃ engine, Engine.new s.config = .ok engine ∧ engine.config = s.config := by
  obtain ⟨-, e, he⟩ | ⟨hi, hv, hs⟩ := v.ofArguments_cases
  · cases he.symm.trans h
  · cases hs.symm.trans h
    refine ⟨⟨rfl, rfl, rfl, rfl, rfl, rfl, rfl, fun hm => ?_, fun text hm => ?_, rfl⟩, _,
      Engine.new_of_valid hv, rfl⟩
    · rw [Arguments.config, Arguments.limit?, hm, Option.bind_none]
    · obtain ⟨n, hn⟩ := readable_of_not_invalid hi text hm
      refine ⟨n, hn, ?_⟩
      rw [Arguments.config, Arguments.limit?, hm, Option.bind_some, hn]
      rfl

end

structure ReadBack (v : Arguments) (words : List String) : Prop where
  read : parseArguments words = .ok v
  taken_iff : (∃ s, Settings.ofArguments v = .ok s) ↔
    (∀ text, v.maxFileSize = some text → ∃ n, readSize text = .ok n) ∧ v.config.validate = .ok ()
  settings : ∀ s, Settings.ofArguments v = .ok s →
    s.Follows v ∧ ∃ engine, Engine.new s.config = .ok engine ∧ engine.config = s.config

/-- Arguments are read as they are written. They are taken if and only if the size can be read and
what they ask for is valid, and then that is what an engine does. -/
theorem readBack_of_written {v : Arguments} {words : List String} (hw : v.Writable)
    (h : v.Written words) : ReadBack v words where
  read := parseArguments_of_written hw h
  taken_iff := exists_ofArguments_iff v
  settings _ hs := follows_of_ofArguments hs

def dashes : Arguments where
  root := "--help"
  output := "-o=x y"
  suffix := "="
  maxDepth := some 18446744073709551615
  sorted := true
  maxFileSize := some " 2 kB"
  strictJson := true

def dashesWords : List String :=
  ["--strict-json", "--max-file-size= 2 kB", "--suffix==", "--output=-o=x y",
    "--max-depth=18446744073709551615", "--sorted", "--", "--help"]

theorem readBack_dashes :
    dashes.Writable ∧ dashes.Written dashesWords ∧ ReadBack dashes dashesWords := by
  have hw : dashes.Writable := by
    refine ⟨by decide, by decide, fun depth hd => ?_⟩
    cases hd
    decide
  have h : dashes.Written dashesWords := by
    have hintro := @Arguments.Written.intro dashes
      [.strictJson, .maxFileSize, .suffix, .output, .maxDepth, .sorted] (by decide)
    refine hintro fun a hne => ?_
    cases a <;> first | decide | exact absurd rfl hne
  exact ⟨hw, h, readBack_of_written hw h⟩

end MethodExtraction.CommandLine
