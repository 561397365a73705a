import MethodExtraction.Proofs.Output.Record

namespace MethodExtraction.Output.Json

namespace State

structure Inside (s : State) : Prop where
  opened : s.frames = [] → ∃ v, s.mode = .done v
  word : ∀ rest v, s.mode = .word rest v → '\x7b' ∉ rest

theorem inside_of_frames {frames : List Frame} {mode : Mode} (hf : frames ≠ [])
    (hw : ∀ rest v, mode ≠ .word rest v) : Inside ⟨frames, mode⟩ :=
  ⟨fun h => absurd h hf, fun rest v h => absurd h (hw rest v)⟩

theorem inside_of_cons {frame : Frame} {frames : List Frame} {mode : Mode}
    (hw : ∀ rest v, mode ≠ .word rest v) : Inside ⟨frame :: frames, mode⟩ :=
  inside_of_frames (List.cons_ne_nil frame frames) hw

theorem inside_of_word {frames : List Frame} {rest : List Char} {v : Value} (hf : frames ≠ [])
    (hr : '\x7b' ∉ rest) : Inside ⟨frames, .word rest v⟩ := by
  refine ⟨fun h => absurd h hf, fun rest' v' h => ?_⟩
  cases h
  exact hr

theorem Inside.frames_ne_nil {frames : List Frame} {mode : Mode} (h : Inside ⟨frames, mode⟩)
    (hm : ∀ v, mode ≠ .done v) : frames ≠ [] := by
  rintro rfl
  obtain ⟨v, hv⟩ := h.opened rfl
  exact hm v hv

theorem leave_cases {frames : List Frame} {v : Value} {s : State} (h : leave frames v = some s) :
    frames = [] ∧ s = ⟨[], .done v⟩ ∨
      frames ≠ [] ∧ s.frames ≠ [] ∧ (s.mode = .next ∨ s.mode = .colon) := by
  cases frames with
  | nil =>
    cases h
    exact .inl ⟨rfl, rfl⟩
  | cons frame frames =>
    refine .inr ⟨List.cons_ne_nil _ _, ?_⟩
    cases frame with
    | element before =>
      cases h
      exact ⟨List.cons_ne_nil _ _, .inl rfl⟩
    | member before key =>
      cases h
      exact ⟨List.cons_ne_nil _ _, .inl rfl⟩
    | key before =>
      cases v with
      | string key =>
        cases h
        exact ⟨List.cons_ne_nil _ _, .inr rfl⟩
      | _ => cases h

theorem frames_ne_nil_of_leave {frames : List Frame} {v : Value} {s : State} (hf : frames ≠ [])
    (h : leave frames v = some s) : s.frames ≠ [] ∧ (s.mode = .next ∨ s.mode = .colon) := by
  obtain ⟨he, _⟩ | ⟨_, hs⟩ := leave_cases h
  · exact absurd he hf
  · exact hs

theorem inside_leave {frames : List Frame} {v : Value} {s : State} (h : leave frames v = some s) :
    s.Inside := by
  obtain ⟨_, rfl⟩ | ⟨_, hf, hm⟩ := leave_cases h
  · exact ⟨fun _ => ⟨v, rfl⟩, by simp⟩
  · refine inside_of_frames hf fun rest w hw => ?_
    rw [hw] at hm
    simp at hm

theorem inside_enter {frames : List Frame} {c : Char} {s : State} (hf : frames ≠ [])
    (h : enter frames c = some s) : s.Inside := by
  rw [enter] at h
  split_ifs at h
  case neg =>
    obtain ⟨part, _, rfl⟩ := Option.map_eq_some_iff.1 h
    exact inside_of_frames hf (by simp)
  all_goals cases h
  · exact inside_of_frames hf (by simp)
  · exact inside_of_cons (by simp)
  · exact inside_of_cons (by simp)
  · exact inside_of_word hf (by decide)
  · exact inside_of_word hf (by decide)
  · exact inside_of_word hf (by decide)
  · exact inside_of_frames hf (by simp)

theorem inside_behind {s s' : State} {c : Char} (h : s.Inside) (hb : behind s c = some s') :
    s'.Inside := by
  unfold behind at hb
  by_cases hc : isBlank c = true
  · rw [if_pos hc] at hb
    cases hb
    exact h
  · rw [if_neg hc] at hb
    split at hb
    · split_ifs at hb
      · cases hb
        exact inside_of_cons (by simp)
      · exact inside_leave hb
    · split_ifs at hb
      · cases hb
        exact inside_of_cons (by simp)
      · exact inside_leave hb
    · cases hb

theorem inside_first {frame : Frame} {frames : List Frame} {s : State} {c : Char}
    (hs : step ⟨frame :: frames, .first⟩ c = some s) : s.Inside := by
  have h : Inside ⟨frame :: frames, .first⟩ := inside_of_cons (by simp)
  cases frame with
  | element before =>
    rw [step] at hs
    split_ifs at hs
    · cases hs
      exact h
    · exact inside_leave hs
    · exact inside_enter (List.cons_ne_nil _ _) hs
  | key before =>
    rw [step] at hs
    split_ifs at hs
    · cases hs
      exact h
    · cases hs
      exact inside_of_cons (by simp)
    · exact inside_leave hs
  | member before key => exact inside_behind h hs

theorem inside_step {s s' : State} {c : Char} (h : s.Inside) (hs : s.step c = some s') :
    s'.Inside := by
  obtain ⟨frames, mode⟩ := s
  cases mode with
  | value =>
    rw [step] at hs
    split_ifs at hs
    · cases hs
      exact h
    · exact inside_enter (h.frames_ne_nil (by simp)) hs
  | key =>
    rw [step] at hs
    split_ifs at hs
    · cases hs
      exact h
    · cases hs
      exact inside_of_frames (h.frames_ne_nil (by simp)) (by simp)
  | first =>
    obtain ⟨frame, frames, rfl⟩ := List.exists_cons_of_ne_nil (h.frames_ne_nil (by simp))
    exact inside_first hs
  | colon =>
    rw [step] at hs
    split_ifs at hs
    · cases hs
      exact h
    · cases hs
      exact inside_of_frames (h.frames_ne_nil (by simp)) (by simp)
  | next => exact inside_behind h hs
  | word rest v =>
    rw [step] at hs
    split_ifs at hs
    · exact inside_leave hs
    · cases hs
      exact inside_of_word (h.frames_ne_nil (by simp)) fun hm =>
        h.word rest v rfl (List.mem_of_mem_tail hm)
  | number part text =>
    rw [step] at hs
    split at hs
    · cases hs
      exact inside_of_frames (h.frames_ne_nil (by simp)) (by simp)
    · split_ifs at hs
      obtain ⟨s₁, hl, hb⟩ := Option.bind_eq_some_iff.1 hs
      exact inside_behind (inside_leave hl) hb
  | string text escape =>
    rw [step] at hs
    split_ifs at hs
    · exact inside_leave hs
    · obtain ⟨⟨text', escape'⟩, _, rfl⟩ := Option.map_eq_some_iff.1 hs
      exact inside_of_frames (h.frames_ne_nil (by simp)) (by simp)
  | done v => exact inside_behind h hs

theorem inside_run {s s' : State} {text : List Char} (h : s.Inside) (hr : s.run text = some s') :
    s'.Inside := by
  induction text generalizing s with
  | nil =>
    cases hr
    exact h
  | cons c text ih =>
    obtain ⟨s₁, hs, hr⟩ := Option.bind_eq_some_iff.1 hr
    exact ih (inside_step h hs) hr

theorem behind_eq_none (s : State) {c : Char} (hb : isBlank c = false)
    (hc : c ≠ ',' ∧ c ≠ ']' ∧ c ≠ '\x7d') : behind s c = none := by
  unfold behind
  rw [if_neg (Bool.not_eq_true _ ▸ hb)]
  split
  · rw [if_neg hc.1, if_neg hc.2.1]
  · rw [if_neg hc.1, if_neg hc.2.2]
  · rfl

theorem behind_brace (s : State) : behind s '\x7b' = none :=
  behind_eq_none s (by decide) (by decide)

theorem NumberPart.step_brace (part : NumberPart) : part.step '\x7b' = none := by
  cases part <;> rfl

theorem step_escape_brace (text : List Char) {escape : Escape} (he : escape ≠ .plain) :
    escape.step text '\x7b' = none := by
  cases escape with
  | plain => exact absurd rfl he
  | backslash high => cases high <;> rfl
  | digits high left code => rfl
  | half high => rfl

/-- A brace opens an object where a value is due, and in a string it is a character of it. -/
theorem step_brace {s : State} (h : s.Inside) :
    s.step '\x7b' = none ∨
      s.frames ≠ [] ∧ (s.step '\x7b' = step ⟨s.frames, .value⟩ '\x7b' ∨
        ∃ text, s.step '\x7b' = some ⟨s.frames, .string text .plain⟩) := by
  obtain ⟨frames, mode⟩ := s
  cases mode with
  | value => exact .inr ⟨h.frames_ne_nil (by simp), .inl rfl⟩
  | key => exact .inl rfl
  | first =>
    obtain ⟨frame, frames, rfl⟩ := List.exists_cons_of_ne_nil (h.frames_ne_nil (by simp))
    cases frame with
    | element before => exact .inr ⟨List.cons_ne_nil _ _, .inl rfl⟩
    | key before => exact .inl rfl
    | member before key => exact .inl (behind_brace _)
  | colon => exact .inl rfl
  | next => exact .inl (behind_brace _)
  | word rest v =>
    have hw := h.word rest v rfl
    have h₁ : rest ≠ ['\x7b'] := by
      rintro rfl
      exact hw (List.mem_singleton_self _)
    have h₂ : rest.head? ≠ some '\x7b' := fun he => hw (List.mem_of_mem_head? he)
    refine .inl ?_
    rw [step, if_neg h₁, if_neg h₂]
  | number part text =>
    refine .inl ?_
    rw [step, NumberPart.step_brace]
    cases hl : leave frames (.number text) with
    | none => simp
    | some s => simp [behind_brace]
  | string text escape =>
    by_cases he : escape = .plain
    · subst he
      exact .inr ⟨h.frames_ne_nil (by simp), .inr ⟨text ++ ['\x7b'], rfl⟩⟩
    · refine .inl ?_
      rw [step, if_neg fun hq => he hq.1, step_escape_brace text he, Option.map_none]
  | done v => exact .inl (behind_brace _)

theorem run_quote_letter {frames : List Frame} {text rest : List Char} (hf : frames ≠ []) :
    State.run ⟨frames, .string text .plain⟩ ('"' :: 'n' :: rest) = none := by
  have hq : step ⟨frames, .string text .plain⟩ '"' =
      leave frames (.string (String.ofList text)) := rfl
  rw [run_cons, hq]
  cases hl : leave frames (.string (String.ofList text)) with
  | none => rfl
  | some s =>
    obtain ⟨_, hm⟩ := frames_ne_nil_of_leave hf hl
    obtain ⟨frames', mode⟩ := s
    have hn : step ⟨frames', mode⟩ 'n' = none := by
      obtain rfl | rfl := hm
      · exact behind_eq_none _ (by decide) (by decide)
      · rfl
    rw [Option.bind_some, run_cons, hn, Option.bind_none]

variable {members : List (String × Value)}

theorem leave_array_ne (frames : List Frame) (before : List Value) :
    leave frames (.array before) ≠ some ⟨[], .done (.object members)⟩ := by
  intro h
  obtain ⟨_, hs⟩ | ⟨_, hf, _⟩ := leave_cases h
  · cases hs
  · exact hf rfl

theorem behind_bracket_ne (s : State) : behind s ']' ≠ some ⟨[], .done (.object members)⟩ := by
  unfold behind
  rw [if_neg (by decide)]
  split
  · exact leave_array_ne _ _
  · simp
  · simp

theorem step_bracket_ne {s : State} (h : s.Inside) :
    s.step ']' ≠ some ⟨[], .done (.object members)⟩ := by
  obtain ⟨frames, mode⟩ := s
  intro hs
  cases mode with
  | value => cases hs
  | key => cases hs
  | first =>
    obtain ⟨frame, frames, rfl⟩ := List.exists_cons_of_ne_nil (h.frames_ne_nil (by simp))
    cases frame with
    | element before => exact leave_array_ne _ _ hs
    | key before => cases hs
    | member before key => exact behind_bracket_ne _ hs
  | colon => cases hs
  | next => exact behind_bracket_ne _ hs
  | word rest v =>
    rw [step] at hs
    split_ifs at hs
    · exact (frames_ne_nil_of_leave (h.frames_ne_nil (by simp)) hs).1 rfl
    · exact h.frames_ne_nil (by simp) (congrArg State.frames (Option.some.inj hs))
  | number part text =>
    have hp : part.step ']' = none := by cases part <;> rfl
    rw [step, hp] at hs
    split_ifs at hs
    obtain ⟨s₁, _, hb⟩ := Option.bind_eq_some_iff.1 hs
    exact behind_bracket_ne _ hb
  | string text escape =>
    rw [step, if_neg (by simp)] at hs
    obtain ⟨_, _, hm⟩ := Option.map_eq_some_iff.1 hs
    exact h.frames_ne_nil (by simp) (congrArg State.frames hm)
  | done v => exact behind_bracket_ne _ hs

end State

/-- From inside of an object, or from behind it, the text of a record does not lead to an end. -/
theorem State.frames_ne_nil_of_record {s s' : State} (h : s.Inside) {text : List Char} {v : Value}
    (ht : Reads ('\x7b' :: '"' :: 'n' :: text) v)
    (hr : s.run ('\x7b' :: '"' :: 'n' :: text) = some s') : s'.frames ≠ [] := by
  obtain hs | ⟨hf, hs | ⟨t, hs⟩⟩ := step_brace h
  · rw [run_cons, hs] at hr
    cases hr
  · rw [run_cons, hs, ← run_cons, ht] at hr
    exact (frames_ne_nil_of_leave hf hr).1
  · rw [run_cons, hs, Option.bind_some, run_quote_letter hf] at hr
    cases hr

theorem State.inside_of_run {text : List Char} {s : State}
    (h : State.run ⟨[], .value⟩ ('\x7b' :: text) = some s) : s.Inside := by
  have ho : State.step ⟨[], .value⟩ '\x7b' = some ⟨[.key []], .first⟩ := rfl
  rw [run_cons, ho, Option.bind_some] at h
  have hi : Inside ⟨[.key []], .first⟩ := inside_of_cons (by simp)
  exact inside_run hi h

variable {text : List Char} {members : List (String × Value)}

/-- Wherever the text of an object is cut behind its brace, its beginning leads inside, and only the
rest completes it. -/
theorem exists_inside_of_read? {rest : List Char}
    (h : read? ('\x7b' :: text ++ rest) = some (.object members)) :
    ∃ s : State, s.Inside ∧ s.run rest = some ⟨[], .done (.object members)⟩ := by
  obtain ⟨s, hs, he⟩ := Option.bind_eq_some_iff.1 h
  rw [State.run_append] at hs
  obtain ⟨s₁, h₁, hs⟩ := Option.bind_eq_some_iff.1 hs
  rw [State.eq_done_of_value? he] at hs
  exact ⟨s₁, State.inside_of_run h₁, hs⟩

theorem read?_record_ne {record : List Char} {v : Value}
    (hv : Reads ('\x7b' :: '"' :: 'n' :: record) v) :
    read? ('\x7b' :: text ++ '\x7b' :: '"' :: 'n' :: record) ≠ some (.object members) := by
  intro h
  obtain ⟨s, hs, hr⟩ := exists_inside_of_read? h
  exact State.frames_ne_nil_of_record hs hv hr rfl

theorem read?_bracket_ne : read? ('\x7b' :: text ++ [']']) ≠ some (.object members) := by
  intro h
  obtain ⟨s, hs, hr⟩ := exists_inside_of_read? h
  simp only [State.run_cons, State.run_nil, Option.bind_fun_some] at hr
  exact State.step_bracket_ne hs hr

end MethodExtraction.Output.Json
