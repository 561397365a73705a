import MethodExtraction.Proofs.Output.Recovery

namespace MethodExtraction.Output

open Files Java Text

namespace Json

namespace State

theorem run_elements {α : Type} (text : α → List Char) (value : α → Value)
    (h : ∀ x, Reads (text x) (value x)) (elements : List α) (before : List Value) :
    State.run ⟨[.element before], .next⟩ (elements.flatMap fun x => ',' :: '\n' :: text x) =
      some ⟨[.element (before ++ elements.map value)], .next⟩ := by
  induction elements generalizing before with
  | nil => simp
  | cons x elements ih =>
    have hc : State.step ⟨[.element before], .next⟩ ',' = some ⟨[.element before], .value⟩ := by
      simp [step, behind, isBlank]
    have hn : State.step ⟨[.element before], .value⟩ '\n' = some ⟨[.element before], .value⟩ := by
      simp [step, isBlank]
    rw [List.flatMap_cons, run_append, run_cons, hc, Option.bind_some, run_cons, hn,
      Option.bind_some, h x, leave, Option.bind_some, ih, List.map_cons, List.append_assoc,
      List.singleton_append]

end State

theorem read?_array {α : Type} (text : α → List Char) (value : α → Value)
    (h : ∀ x, Reads (text x) (value x)) {x : α} {rest : List Char} (hx : text x = '\x7b' :: rest)
    (elements : List α) :
    read? ('[' :: '\n' :: (text x ++
        ((elements.flatMap fun x => ',' :: '\n' :: text x) ++ ['\n', ']']))) =
      some (.array ((x :: elements).map value)) := by
  have hopen : State.run ⟨[], .value⟩ ['[', '\n'] = some ⟨[.element []], .first⟩ := by
    simp [State.step, State.enter, isBlank]
  have hfirst : State.run ⟨[.element []], .first⟩ (text x) =
      State.run ⟨[.element []], .value⟩ (text x) := by
    rw [hx, State.run_cons, State.run_cons]
    rfl
  have hclose : State.run ⟨[.element ([value x] ++ elements.map value)], .next⟩ ['\n', ']'] =
      some ⟨[], .done (.array ([value x] ++ elements.map value))⟩ := by
    simp [State.step, State.behind, State.leave, isBlank]
  have hs : '[' :: '\n' :: (text x ++
      ((elements.flatMap fun x => ',' :: '\n' :: text x) ++ ['\n', ']'])) =
      ['[', '\n'] ++ (text x ++
        ((elements.flatMap fun x => ',' :: '\n' :: text x) ++ ['\n', ']'])) := rfl
  rw [read?, hs, State.run_append, hopen, Option.bind_some, State.run_append, hfirst, h x,
    State.leave, Option.bind_some, State.run_append, State.run_elements text value h,
    Option.bind_some, List.nil_append, hclose]
  rfl

theorem read?_comma (rest : List Char) : read? ('[' :: '\n' :: ',' :: rest) = none := by
  have hc : State.run ⟨[], .value⟩ ['[', '\n', ','] = none := by
    simp [State.step, State.enter, NumberPart.step, isBlank]
  have hs : '[' :: '\n' :: ',' :: rest = ['[', '\n', ','] ++ rest := rfl
  rw [read?, hs, State.run_append, hc]
  rfl

end Json

namespace ArrayWriter

def FailsCleanly (records : List MethodRecord) (w : ArrayWriter FaultyBuffer) : Prop :=
  (sink FaultyBuffer.sink).Failing (fun w w' => w'.output = w.output) records w

/-- The pieces of all records to come are known: a comma has its place before them, or behind. -/
def Settled {δ : Type} (w : ArrayWriter δ) : Prop := w.format = .strict → w.emitted = true

def pieces {δ : Type} (w : ArrayWriter δ) (records : List MethodRecord) : String :=
  String.join (records.map w.piece)

section

variable {δ : Type} {w w' : ArrayWriter δ}

theorem piece_congr (h : w.Settled) (h' : w'.Settled) (hf : w'.format = w.format) :
    w'.piece = w.piece := by
  funext r
  rw [piece, piece, hf]
  cases he : w.format with
  | legacy => rfl
  | strict => rw [h he, h' (hf.trans he)]

theorem pieces_concat (w : ArrayWriter δ) (records : List MethodRecord) (r : MethodRecord) :
    w.pieces (records ++ [r]) = w.pieces records ++ w.piece r := by
  rw [pieces, pieces, ← String.toList_inj, String.toList_append, String.toList_join,
    String.toList_join, List.map_append, List.flatMap_append]
  simp

end

/-- Behind what was there stand the pieces of the records that were written. -/
structure Appends (w₀ : ArrayWriter FaultyBuffer) (written : List MethodRecord)
    (w : ArrayWriter FaultyBuffer) : Prop where
  format : w.format = w₀.format
  settled : w.Settled
  output : w.output = w₀.output ++ Utf8.encode (w₀.pieces written)

variable {w₀ w w' : ArrayWriter FaultyBuffer} {written records : List MethodRecord}
  {r : MethodRecord}

theorem Appends.of_write_ok (h : Appends w₀ written w) (h₀ : w₀.Settled)
    (hw : write FaultyBuffer.sink r w = .ok () w') : Appends w₀ (written ++ [r]) w' := by
  obtain ⟨hf, he, _, ho⟩ := ArrayWriter.of_write_ok hw
  refine ⟨hf.trans h.format, fun _ => he, ?_⟩
  rw [ho, h.output, piece_congr h₀ h.settled h.format, pieces_concat, Utf8.encode_append,
    List.append_assoc]

theorem Appends.of_write_error {e : IoError} (h : Appends w₀ written w)
    (hw : write FaultyBuffer.sink r w = .error e w') (ho : w'.output = w.output) :
    Appends w₀ written w' := by
  obtain ⟨hf, he, _⟩ := ArrayWriter.of_write_error hw
  exact ⟨hf.trans h.format, fun _ => he, ho.trans h.output⟩

theorem Appends.refl (h : w.Settled) : Appends w [] w := by
  have he : Utf8.encode (w.pieces []) = [] := by
    rw [pieces, List.map_nil]
    rfl
  refine ⟨rfl, h, ?_⟩
  rw [he, List.append_nil]

theorem appends_attempt (h : w.Settled) (hc : w.FailsCleanly records) :
    Appends w (attempt records w).1 (attempt records w).2 :=
  (sink FaultyBuffer.sink).writeEach_invariant
    (fun ha hw => Appends.of_write_ok ha h hw) (fun ha hw ho => Appends.of_write_error ha hw ho)
    (Appends.refl h) hc

theorem closing_congr {δ : Type} {w w' : ArrayWriter δ} (h : w.Settled) (h' : w'.Settled)
    (hf : w'.format = w.format) : w'.closing = w.closing := by
  rw [closing, closing, hf]
  cases he : w.format with
  | legacy => rfl
  | strict => rw [h he, h' (hf.trans he)]

theorem output_of_settled (h : w.Settled) (hc : w.FailsCleanly records)
    (hf : finish FaultyBuffer.sink (attempt records w).2 = .ok () w') :
    w'.output = w.output ++ Utf8.encode (w.pieces (attempt records w).1 ++ w.closing) := by
  have ha := appends_attempt h hc
  rw [output_of_finish hf, ha.output, closing_congr h ha.settled ha.format, Utf8.encode_append,
    List.append_assoc]

theorem toList_pieces {δ : Type} {w : ArrayWriter δ} (hs : w.format = .strict)
    (he : w.emitted = true) :
    (w.pieces written).toList =
      written.flatMap fun r => ',' :: '\n' :: (formatRecord .strict r).toList := by
  have hp : ∀ r, (w.piece r).toList = ',' :: '\n' :: (formatRecord .strict r).toList := by
    intro r
    rw [piece, hs, he, if_pos rfl, String.toList_append]
    rfl
  rw [pieces, String.toList_join, List.flatMap_map]
  exact List.flatMap_congr fun r _ => hp r

theorem toList_closing {δ : Type} {w : ArrayWriter δ} (hs : w.format = .strict)
    (he : w.emitted = true) : w.closing.toList = ['\n', ']'] := by
  rw [closing, hs, he, if_pos rfl]
  rfl

def RefusesFirst : List MethodRecord → ArrayWriter FaultyBuffer → Prop
  | [], _ => False
  | r :: _, w => ∃ e w', write FaultyBuffer.sink r w = .error e w'

/-- An output of exactly some records: lines that each end with a comma, or a JSON array. -/
def Framed : OutputFormat → List UInt8 → List MethodRecord → Prop
  | .legacy, out, records =>
    out = Utf8.encode (opening ++
        String.join (records.map fun r => formatRecord .legacy r ++ ",\n") ++ "]") ∧
      recover .legacy out = records
  | .strict, out, records =>
    Json.readBytes? out = some (.array (records.map OutputFormat.strict.recordValue))

theorem recover_legacy (records : List MethodRecord) :
    recover .legacy (Utf8.encode (opening ++
      String.join (records.map fun r => formatRecord .legacy r ++ ",\n") ++ "]")) = records := by
  rw [Utf8.encode_append, Utf8.encode_append, List.append_assoc, recover_opening]
  induction records with
  | nil => exact recover_bracket .legacy (encode_bracket ▸ List.prefix_refl _)
  | cons r records ih =>
    have hl : Utf8.encode (String.join
        ((r :: records).map fun r => formatRecord .legacy r ++ ",\n")) ++ Utf8.encode "]" =
        (Utf8.encode (formatRecord .legacy r) ++ [0x2C]) ++ 0x0A :: (Utf8.encode (String.join
          (records.map fun r => formatRecord .legacy r ++ ",\n")) ++ Utf8.encode "]") := by
      rw [List.map_cons, String.join_cons, Utf8.encode_append, Utf8.encode_append, encode_separator]
      simp
    rw [hl, recover_newline, recover_comma, recover_formatRecord, ih]
    rfl

theorem toList_opening : opening.toList = ['[', '\n'] := rfl

theorem readBytes?_behind {δ : Type} {w : ArrayWriter δ} (hs : w.format = .strict)
    (he : w.emitted = true) (r : MethodRecord) (records : List MethodRecord) :
    Json.readBytes? (Utf8.encode opening ++ Utf8.encode (formatRecord .strict r) ++
        Utf8.encode (w.pieces records ++ w.closing)) =
      some (.array ((r :: records).map OutputFormat.strict.recordValue)) := by
  obtain ⟨rest, hr⟩ : ∃ rest, (formatRecord .strict r).toList = '\x7b' :: rest :=
    ⟨_, Json.toList_object _⟩
  have ha := Json.read?_array (fun r => (formatRecord .strict r).toList)
    OutputFormat.strict.recordValue (reads_formatRecord .strict) hr records
  rw [← Utf8.encode_append, ← Utf8.encode_append, Json.readBytes?_encode, ← ha,
    String.toList_append, String.toList_append, String.toList_append, toList_pieces hs he,
    toList_closing hs he, toList_opening, List.append_assoc, List.cons_append, List.cons_append,
    List.nil_append]

theorem readBytes?_alone (hs : w.format = .strict) (he : w.emitted = true)
    (records : List MethodRecord) :
    Json.readBytes? (Utf8.encode opening ++ Utf8.encode (w.pieces records ++ w.closing)) =
      if records = [] then some (.array []) else none := by
  rw [← Utf8.encode_append, Json.readBytes?_encode, String.toList_append, String.toList_append,
    toList_pieces hs he, toList_closing hs he, toList_opening]
  cases records with
  | nil => rfl
  | cons r records =>
    rw [if_neg (List.cons_ne_nil r records)]
    exact Json.read?_comma _

theorem attempt_of_write_ok (hw : write FaultyBuffer.sink r w = .ok () w')
    (records : List MethodRecord) :
    attempt (r :: records) w = (r :: (attempt records w').1, (attempt records w').2) := by
  have hs : (sink FaultyBuffer.sink).write r w = .ok () w' := hw
  rw [attempt, RecordSink.writeEach, hs]
  rfl

theorem attempt_of_write_error {e : IoError} (hw : write FaultyBuffer.sink r w = .error e w')
    (records : List MethodRecord) : attempt (r :: records) w = attempt records w' := by
  have hs : (sink FaultyBuffer.sink).write r w = .error e w' := hw
  rw [attempt, RecordSink.writeEach, hs]
  rfl

theorem FailsCleanly.of_write_ok (h : w.FailsCleanly (r :: records))
    (hw : write FaultyBuffer.sink r w = .ok () w') : w'.FailsCleanly records := by
  have hs : (sink FaultyBuffer.sink).write r w = .ok () w' := hw
  rw [FailsCleanly, RecordSink.Failing, hs] at h
  exact h

theorem FailsCleanly.of_write_error {e : IoError} (h : w.FailsCleanly (r :: records))
    (hw : write FaultyBuffer.sink r w = .error e w') :
    w'.output = w.output ∧ w'.FailsCleanly records := by
  have hs : (sink FaultyBuffer.sink).write r w = .error e w' := hw
  rw [FailsCleanly, RecordSink.Failing, hs] at h
  exact h

theorem framed_strict_of_write_ok {w₁ : ArrayWriter FaultyBuffer} (hs : w.format = .strict)
    (he : w.emitted = false) (ho : w.output = Utf8.encode opening)
    (hw : write FaultyBuffer.sink r w = .ok () w₁) (hc : w₁.FailsCleanly records)
    (hf : finish FaultyBuffer.sink (attempt records w₁).2 = .ok () w') :
    Framed .strict w'.output (r :: (attempt records w₁).1) := by
  obtain ⟨hs₁, he₁, _, ho₁⟩ := of_write_ok hw
  rw [encode_piece_of_not_emitted hs he, ho] at ho₁
  rw [Framed, output_of_settled (fun _ => he₁) hc hf, ho₁]
  exact readBytes?_behind (hs₁.trans hs) he₁ r _

theorem readBytes?_of_write_error {w₁ : ArrayWriter FaultyBuffer} {e : IoError}
    (hs : w.format = .strict) (ho : w.output = Utf8.encode opening)
    (hw : write FaultyBuffer.sink r w = .error e w₁) (ho₁ : w₁.output = w.output)
    (hc : w₁.FailsCleanly records)
    (hf : finish FaultyBuffer.sink (attempt records w₁).2 = .ok () w') :
    Json.readBytes? w'.output =
      if (attempt records w₁).1 = [] then some (.array []) else none := by
  obtain ⟨hs₁, he₁, _⟩ := of_write_error hw
  rw [output_of_settled (fun _ => he₁) hc hf, ho₁, ho, readBytes?_alone (hs₁.trans hs) he₁]

/-- Either there is a first record in its place, or none at all, or a comma in its place. -/
theorem framed_strict_or (hs : w.format = .strict) (he : w.emitted = false)
    (ho : w.output = Utf8.encode opening) (hc : w.FailsCleanly records)
    (hf : finish FaultyBuffer.sink (attempt records w).2 = .ok () w') :
    ((RefusesFirst records w → (attempt records w).1 = []) ∧
        Framed .strict w'.output (attempt records w).1) ∨
      (RefusesFirst records w ∧ (attempt records w).1 ≠ [] ∧
        Json.readBytes? w'.output = none) := by
  cases records with
  | nil =>
    have hb : w.closing = "]" := by
      rw [closing, hs, he]
      rfl
    have hr : Json.readBytes? (Utf8.encode opening ++ Utf8.encode "]") = some (.array []) := by
      rfl
    have ho' : w'.output = w.output ++ Utf8.encode w.closing := output_of_finish hf
    refine .inl ⟨fun _ => rfl, ?_⟩
    rw [ho', hb, ho]
    exact hr
  | cons r records =>
    cases hw : write FaultyBuffer.sink r w with
    | ok _ w₁ =>
      rw [attempt_of_write_ok hw] at hf ⊢
      refine .inl ⟨?_, framed_strict_of_write_ok hs he ho hw (hc.of_write_ok hw) hf⟩
      rintro ⟨e, w₂, he₂⟩
      cases hw.symm.trans he₂
    | error e w₁ =>
      obtain ⟨ho₁, hc₁⟩ := hc.of_write_error hw
      rw [attempt_of_write_error hw] at hf ⊢
      have hr := readBytes?_of_write_error hs ho hw ho₁ hc₁ hf
      -- a later record is written behind a comma that nothing precedes
      by_cases hn : (attempt records w₁).1 = []
      · rw [if_pos hn] at hr
        refine .inl ⟨fun _ => hn, ?_⟩
        rw [hn]
        exact hr
      · rw [if_neg hn] at hr
        exact .inr ⟨⟨e, w₁, hw⟩, hn, hr⟩

theorem framed_legacy (hl : w.format = .legacy) (ho : w.output = Utf8.encode opening)
    (hc : w.FailsCleanly records)
    (hf : finish FaultyBuffer.sink (attempt records w).2 = .ok () w') :
    Framed .legacy w'.output (attempt records w).1 := by
  have hp : w.piece = fun r => formatRecord .legacy r ++ ",\n" := by
    funext r
    rw [piece, hl]
  have hb : w.closing = "]" := by rw [closing, hl]
  have hs : w.Settled := by
    intro hs
    cases hl.symm.trans hs
  have he : w'.output = Utf8.encode (opening ++ String.join ((attempt records w).1.map
      fun r => formatRecord .legacy r ++ ",\n") ++ "]") := by
    rw [output_of_settled hs hc hf, ho, pieces, hp, hb, Utf8.encode_append, Utf8.encode_append,
      Utf8.encode_append, List.append_assoc]
  refine ⟨he, ?_⟩
  rw [he, recover_legacy]

/-- An output keeps to its format, with exactly the records that were written, unless it is strict
and the first record failed and a later one did not. Then it is no JSON. -/
theorem framed_iff {format : OutputFormat} {plan : List Fault} {flushFailure : Option String}
    {records : List MethodRecord} {w w' : ArrayWriter FaultyBuffer}
    (hs : start FaultyBuffer.sink (new format ⟨plan, flushFailure, .empty⟩) = .ok () w)
    (hc : w.FailsCleanly records)
    (hf : finish FaultyBuffer.sink (attempt records w).2 = .ok () w') :
    (Framed format w'.output (attempt records w).1 ↔
        (format = .strict → RefusesFirst records w → (attempt records w).1 = [])) ∧
      (format = .strict → RefusesFirst records w → (attempt records w).1 ≠ [] →
        Json.readBytes? w'.output = none) := by
  obtain ⟨b, rfl, ho⟩ := eq_of_start hs
  cases format with
  | legacy => exact ⟨iff_of_true (framed_legacy rfl ho hc hf) nofun, nofun⟩
  | strict =>
    obtain ⟨hr, hw⟩ | ⟨hr, hn, hw⟩ := framed_strict_or rfl rfl ho hc hf
    · exact ⟨iff_of_true hw fun _ => hr, fun _ h hn => absurd (hr h) hn⟩
    · refine ⟨iff_of_false ?_ fun h => hn (h rfl hr), fun _ _ _ => hw⟩
      rw [Framed, hw]
      nofun

def refusing (taken : Nat) : FaultyBuffer :=
  ⟨.none :: (List.replicate taken .none ++ [.failure "disk full"]), none, .empty⟩

def begun (taken : Nat) : ArrayWriter FaultyBuffer :=
  ⟨.strict, 0, false, ⟨(refusing taken).plan.tail, none, opening.toUTF8⟩⟩

def someRecords : List MethodRecord := [⟨"a", "void a();", false⟩, ⟨"b", "void b();", false⟩]

theorem framed_last_refused :
    start FaultyBuffer.sink (new .strict (refusing 1)) = .ok () (begun 1) ∧
      (begun 1).FailsCleanly someRecords ∧
      (attempt someRecords (begun 1)).1 = someRecords.take 1 ∧
      ∃ w', finish FaultyBuffer.sink (attempt someRecords (begun 1)).2 = .ok () w' ∧
        Framed .strict w'.output (attempt someRecords (begun 1)).1 := by
  have hs : start FaultyBuffer.sink (new .strict (refusing 1)) = .ok () (begun 1) := rfl
  have hc : (begun 1).FailsCleanly someRecords := ⟨rfl, trivial⟩
  have hf : finish FaultyBuffer.sink (attempt someRecords (begun 1)).2 =
      .ok () (after (finish FaultyBuffer.sink) (attempt someRecords (begun 1)).2) := rfl
  refine ⟨hs, hc, rfl, _, hf, (framed_iff hs hc hf).1.2 ?_⟩
  rintro _ ⟨e, w', h⟩
  cases h

theorem not_framed_first_refused :
    start FaultyBuffer.sink (new .strict (refusing 0)) = .ok () (begun 0) ∧
      (begun 0).FailsCleanly someRecords ∧
      (attempt someRecords (begun 0)).1 = someRecords.drop 1 ∧
      ∃ w', finish FaultyBuffer.sink (attempt someRecords (begun 0)).2 = .ok () w' ∧
        Json.readBytes? w'.output = none :=
  ⟨rfl, ⟨rfl, trivial⟩, rfl, _, rfl, rfl⟩

end ArrayWriter

end MethodExtraction.Output
