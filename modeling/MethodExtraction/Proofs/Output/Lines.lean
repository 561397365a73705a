import MethodExtraction.Proofs.Output.Framing
import MethodExtraction.Proofs.Output.Inside

namespace MethodExtraction.Output

open Java Text

def dropComma (line : List UInt8) : List UInt8 :=
  if line.getLast? = some 0x2C then line.dropLast else line

/-- The records on the lines of an output that are read as records, one comma at the end aside. -/
def linesRead (format : OutputFormat) (out : List UInt8) : List MethodRecord :=
  (out.splitOn 0x0A).filterMap fun line => readRecord? format (dropComma line)

theorem linesRead_newline (format : OutputFormat) (a b : List UInt8) :
    linesRead format (a ++ 0x0A :: b) = linesRead format a ++ linesRead format b := by
  rw [linesRead, List.splitOn_append_cons_self, List.filterMap_append, linesRead, linesRead]

theorem linesRead_line (format : OutputFormat) {line : List UInt8} (h : 0x0A ∉ line) :
    linesRead format line = (readRecord? format (dropComma line)).toList := by
  rw [linesRead, List.splitOn_eq_singleton h]
  cases hr : readRecord? format (dropComma line) <;> simp [hr]

theorem dropComma_concat (line : List UInt8) : dropComma (line ++ [0x2C]) = line := by
  rw [dropComma, if_pos List.getLast?_concat, List.dropLast_concat]

theorem dropComma_bracket (line : List UInt8) : dropComma (line ++ [0x5D]) = line ++ [0x5D] := by
  rw [dropComma, if_neg (by rw [List.getLast?_concat]; decide)]

variable {format : OutputFormat} {r : MethodRecord}

theorem toList_formatRecord (format : OutputFormat) (r : MethodRecord) :
    ∃ rest, (formatRecord format r).toList = '\x7b' :: '"' :: 'n' :: rest := by
  have hn : "name".toList.flatMap Json.escapeChar = ['n', 'a', 'm', 'e'] := rfl
  rw [formatRecord, Json.toList_object, List.map_cons, Json.toList_intercalate_cons,
    Json.memberText, String.toList_append, String.toList_append, Json.toList_string, hn]
  exact ⟨_, rfl⟩

theorem encode_formatRecord (format : OutputFormat) (r : MethodRecord) :
    ∃ tail, Utf8.encode (formatRecord format r) = 0x7B :: tail := by
  obtain ⟨rest, hr⟩ := toList_formatRecord format r
  rw [Utf8.encode_eq_flatMap, hr]
  exact ⟨_, rfl⟩

/-- A line that is read as a record although its beginning, behind the brace, is any part: with the
text that follows it makes an object. -/
theorem read?_object_of_part {part bytes : List UInt8} {b : UInt8} {more : String}
    (hmore : Utf8.encode more = b :: bytes) (hb : b.toNat < 0x80)
    (h : readRecord? format (0x7B :: part ++ Utf8.encode more) = some r) :
    ∃ text members, Json.read? ('\x7b' :: text ++ more.toList) = some (.object members) := by
  obtain ⟨text, members, ht, hm⟩ := read?_object_of_readRecord? h
  rw [hmore] at ht
  obtain ⟨first, last, rfl, hfirst, hlast⟩ := Utf8.exists_of_encode_eq_append ht.symm hb
  obtain ⟨cs, hcs⟩ := Utf8.exists_toList_of_encode hfirst.symm (by decide)
  rw [String.toList_append, hcs, ← Utf8.encode_injective (hmore.trans hlast)] at hm
  exact ⟨cs, members, hm⟩

theorem readRecord?_glued (part : List UInt8) :
    readRecord? format (0x7B :: part ++ Utf8.encode (formatRecord format r)) = none := by
  refine Option.eq_none_iff_forall_ne_some.2 fun r' hr' => ?_
  obtain ⟨tail, htail⟩ := encode_formatRecord format r
  obtain ⟨text, members, hm⟩ := read?_object_of_part htail (by decide) hr'
  obtain ⟨more, hmore⟩ := toList_formatRecord format r
  rw [hmore] at hm
  exact Json.read?_record_ne (hmore ▸ reads_formatRecord format r) hm

theorem readRecord?_bracket (part : List UInt8) :
    readRecord? format (0x7B :: part ++ [0x5D]) = none := by
  refine Option.eq_none_iff_forall_ne_some.2 fun r' hr' => ?_
  rw [← ArrayWriter.encode_bracket] at hr'
  obtain ⟨text, members, hm⟩ := read?_object_of_part ArrayWriter.encode_bracket (by decide) hr'
  exact Json.read?_bracket_ne hm

namespace ArrayWriter

/-- The records of some that are written behind a line break. -/
def intact : List MethodRecord → ArrayWriter FaultyBuffer → List MethodRecord
  | [], _ => []
  | r :: records, w =>
    match write FaultyBuffer.sink r w with
    | .ok _ w' => (if w.output.getLast? = some 0x0A then [r] else []) ++ intact records w'
    | .error _ w' => intact records w'

/-- A record fails but leaves a part of it, and another one is written behind that. -/
inductive WritesBehindTorn : List MethodRecord → ArrayWriter FaultyBuffer → Prop where
  | torn {r records w e w'} (hw : write FaultyBuffer.sink r w = .error e w')
      (ho : w'.output ≠ w.output) (hr : (attempt records w').1 ≠ []) :
      WritesBehindTorn (r :: records) w
  | later {r records w} (h : WritesBehindTorn records (after (write FaultyBuffer.sink r) w)) :
      WritesBehindTorn (r :: records) w

/-- A writer of legacy lines: the records that are read from the whole ones, and what stands behind
the last line break, which is nothing or begins with a brace. -/
structure Lines (kept : List MethodRecord) (tail : List UInt8) (w : ArrayWriter FaultyBuffer) :
    Prop where
  legacy : w.format = .legacy
  output : ∃ whole, w.output = whole ++ 0x0A :: tail ∧ linesRead .legacy whole = kept
  line : 0x0A ∉ tail
  begins : tail = [] ∨ ∃ part, tail = 0x7B :: part

variable {kept : List MethodRecord} {tail : List UInt8} {w w' : ArrayWriter FaultyBuffer}

theorem Lines.of_start {plan : List Fault} {flushFailure : Option String}
    (hs : start FaultyBuffer.sink (new .legacy ⟨plan, flushFailure, .empty⟩) = .ok () w) :
    Lines [] [] w := by
  obtain ⟨b, rfl, hb⟩ := eq_of_start hs
  exact ⟨rfl, ⟨[0x5B], hb, rfl⟩, List.not_mem_nil, .inl rfl⟩

theorem Lines.getLast?_iff (h : Lines kept tail w) :
    w.output.getLast? = some 0x0A ↔ tail = [] := by
  obtain ⟨whole, ho, _⟩ := h.output
  rw [ho]
  refine ⟨fun hl => ?_, ?_⟩
  · by_contra hn
    rw [List.getLast?_append_cons, List.getLast?_cons_of_ne_nil hn] at hl
    exact h.line (List.mem_of_getLast? hl)
  · rintro rfl
    exact List.getLast?_concat

theorem encode_piece_legacy (hl : w.format = .legacy) (r : MethodRecord) :
    Utf8.encode (w.piece r) = Utf8.encode (formatRecord .legacy r) ++ [0x2C, 0x0A] := by
  rw [piece, hl, Utf8.encode_append, encode_separator]

theorem Lines.of_write_ok (h : Lines kept tail w) (hw : write FaultyBuffer.sink r w = .ok () w') :
    Lines (kept ++ if tail = [] then [r] else []) [] w' := by
  obtain ⟨hf, _, _, ho'⟩ := ArrayWriter.of_write_ok hw
  obtain ⟨whole, ho, rfl⟩ := h.output
  have hn : 0x0A ∉ (tail ++ Utf8.encode (formatRecord .legacy r)) ++ [0x2C] := by
    have := newline_not_mem_formatRecord .legacy r
    simp [h.line, this]
  have hread : linesRead .legacy ((tail ++ Utf8.encode (formatRecord .legacy r)) ++ [0x2C]) =
      if tail = [] then [r] else [] := by
    rw [linesRead_line .legacy hn, dropComma_concat]
    obtain rfl | ⟨part, rfl⟩ := h.begins
    · rw [List.nil_append, readRecord?_encode, if_pos rfl]
      rfl
    · rw [readRecord?_glued, if_neg (List.cons_ne_nil _ _)]
      rfl
  refine ⟨hf.trans h.legacy, ⟨whole ++ 0x0A :: ((tail ++ Utf8.encode (formatRecord .legacy r)) ++
    [0x2C]), ?_, ?_⟩, List.not_mem_nil, .inl rfl⟩
  · rw [ho', ho, encode_piece_legacy h.legacy]
    simp
  · rw [linesRead_newline, hread]

theorem Lines.of_write_error {e : Files.IoError} (h : Lines kept tail w)
    (hw : write FaultyBuffer.sink r w = .error e w') :
    ∃ taken, (taken = [] ↔ w'.output = w.output) ∧ Lines kept (tail ++ taken) w' := by
  obtain ⟨hf, _, _, taken, rest, ho', ht, hr⟩ := ArrayWriter.of_write_error hw
  obtain ⟨whole, ho, hk⟩ := h.output
  rw [encode_piece_legacy h.legacy] at ht
  -- the line break is the last byte of a piece, and something of the piece was not taken
  have hn : 0x0A ∉ taken := by
    obtain ⟨init, last, rfl⟩ := (List.eq_nil_or_concat' rest).resolve_left hr
    have hd : taken ++ init = Utf8.encode (formatRecord .legacy r) ++ [0x2C] := by
      have hp : Utf8.encode (formatRecord .legacy r) ++ [0x2C, 0x0A] =
          (Utf8.encode (formatRecord .legacy r) ++ [0x2C]) ++ [0x0A] := by simp
      rw [hp, ← List.append_assoc] at ht
      exact List.append_inj_left' ht rfl
    intro hm
    have hm : 0x0A ∈ Utf8.encode (formatRecord .legacy r) ++ [0x2C] :=
      hd ▸ List.mem_append_left init hm
    simp [newline_not_mem_formatRecord] at hm
  have hb : taken = [] ∨ ∃ part, taken = 0x7B :: part := by
    obtain ⟨body, hbody⟩ := encode_formatRecord .legacy r
    cases taken with
    | nil => exact .inl rfl
    | cons c part =>
      rw [hbody] at ht
      exact .inr ⟨part, congrArg (· :: part) (List.cons.inj ht).1⟩
  refine ⟨taken, by rw [ho', List.append_right_eq_self], hf.trans h.legacy, ⟨whole, ?_, hk⟩, ?_, ?_⟩
  · rw [ho', ho, List.append_assoc, List.cons_append]
  · simp [h.line, hn]
  · obtain rfl | ⟨part, rfl⟩ := h.begins
    · rwa [List.nil_append]
    · exact .inr ⟨_, List.cons_append⟩

theorem Lines.of_finish (h : Lines kept tail w) (hf : finish FaultyBuffer.sink w = .ok () w') :
    linesRead .legacy w'.output = kept := by
  obtain ⟨whole, ho, rfl⟩ := h.output
  have hb : Utf8.encode w.closing = [0x5D] := by
    rw [closing, h.legacy]
    exact encode_bracket
  have hn : 0x0A ∉ tail ++ [0x5D] := by
    simp [h.line]
  have hread : linesRead .legacy (tail ++ [0x5D]) = [] := by
    rw [linesRead_line .legacy hn, dropComma_bracket]
    obtain rfl | ⟨part, rfl⟩ := h.begins
    · rfl
    · rw [readRecord?_bracket]
      rfl
  rw [output_of_finish hf, ho, hb, List.append_assoc, List.cons_append, linesRead_newline, hread,
    List.append_nil]

theorem intact_of_write_ok (hw : write FaultyBuffer.sink r w = .ok () w')
    (records : List MethodRecord) : intact (r :: records) w =
      (if w.output.getLast? = some 0x0A then [r] else []) ++ intact records w' := by
  simp only [intact, hw]

theorem intact_of_write_error {e : Files.IoError}
    (hw : write FaultyBuffer.sink r w = .error e w') (records : List MethodRecord) :
    intact (r :: records) w = intact records w' := by
  simp only [intact, hw]

theorem Lines.linesRead_eq {records : List MethodRecord} (h : Lines kept tail w)
    (hf : finish FaultyBuffer.sink (attempt records w).2 = .ok () w') :
    linesRead .legacy w'.output = kept ++ intact records w := by
  induction records generalizing kept tail w with
  | nil => rw [h.of_finish hf, intact, List.append_nil]
  | cons r records ih =>
    cases hw : write FaultyBuffer.sink r w with
    | ok u w₁ =>
      rw [attempt_of_write_ok hw] at hf
      have hi : (if tail = [] then [r] else []) =
          if w.output.getLast? = some 0x0A then [r] else [] :=
        if_congr h.getLast?_iff.symm rfl rfl
      rw [ih (h.of_write_ok hw) hf, intact_of_write_ok hw, hi, List.append_assoc]
    | error e w₁ =>
      rw [attempt_of_write_error hw] at hf
      obtain ⟨taken, _, h₁⟩ := h.of_write_error hw
      rw [ih h₁ hf, intact_of_write_error hw]

theorem intact_sublist (records : List MethodRecord) (w : ArrayWriter FaultyBuffer) :
    (intact records w).Sublist (attempt records w).1 := by
  induction records generalizing w with
  | nil => exact List.nil_sublist _
  | cons r records ih =>
    cases hw : write FaultyBuffer.sink r w with
    | ok u w' =>
      rw [intact_of_write_ok hw, attempt_of_write_ok hw]
      by_cases hl : w.output.getLast? = some 0x0A
      · rw [if_pos hl]
        exact (ih w').cons_cons r
      · rw [if_neg hl]
        exact (ih w').cons r
    | error e w' =>
      rw [intact_of_write_error hw, attempt_of_write_error hw]
      exact ih w'

theorem writesBehindTorn_of_write_ok (hw : write FaultyBuffer.sink r w = .ok () w')
    (records : List MethodRecord) :
    WritesBehindTorn (r :: records) w ↔ WritesBehindTorn records w' := by
  have ha : after (write FaultyBuffer.sink r) w = w' := by rw [after, hw]
  constructor
  · rintro (⟨he, _, _⟩ | h)
    · cases hw.symm.trans he
    · exact ha ▸ h
  · exact fun h => .later (ha ▸ h)

theorem writesBehindTorn_of_write_error {e : Files.IoError}
    (hw : write FaultyBuffer.sink r w = .error e w') (records : List MethodRecord) :
    WritesBehindTorn (r :: records) w ↔
      w'.output ≠ w.output ∧ (attempt records w').1 ≠ [] ∨ WritesBehindTorn records w' := by
  have ha : after (write FaultyBuffer.sink r) w = w' := by rw [after, hw]
  constructor
  · rintro (⟨he, ho, hr⟩ | h)
    · cases hw.symm.trans he
      exact .inl ⟨ho, hr⟩
    · exact .inr (ha ▸ h)
  · rintro (⟨ho, hr⟩ | h)
    · exact .torn hw ho hr
    · exact .later (ha ▸ h)

/-- Nothing is lost if nothing is written behind what stands on the last line, or behind what is
torn later. -/
theorem Lines.intact_eq_iff (h : Lines kept tail w) (records : List MethodRecord) :
    intact records w = (attempt records w).1 ↔
      (tail ≠ [] → (attempt records w).1 = []) ∧ ¬ WritesBehindTorn records w := by
  induction records generalizing kept tail w with
  | nil => exact iff_of_true rfl ⟨fun _ => rfl, nofun⟩
  | cons r records ih =>
    cases hw : write FaultyBuffer.sink r w with
    | ok u w' =>
      have hi := ih (h.of_write_ok hw)
      rw [intact_of_write_ok hw, attempt_of_write_ok hw, writesBehindTorn_of_write_ok hw]
      by_cases ht : tail = []
      · rw [if_pos (h.getLast?_iff.2 ht), List.singleton_append, List.cons.injEq, hi]
        simp [ht]
      · have hl : (intact records w').length < (r :: (attempt records w').1).length :=
          Nat.lt_succ_of_le (intact_sublist records w').length_le
        rw [if_neg fun hl => ht (h.getLast?_iff.1 hl), List.nil_append]
        refine iff_of_false (fun he => ?_) fun hc => List.cons_ne_nil _ _ (hc.1 ht)
        exact absurd (congrArg List.length he) (Nat.ne_of_lt hl)
    | error e w' =>
      obtain ⟨taken, htaken, h₁⟩ := h.of_write_error hw
      rw [intact_of_write_error hw, attempt_of_write_error hw,
        writesBehindTorn_of_write_error hw, ih h₁, Ne, List.append_eq_nil_iff, htaken]
      tauto

/-- A reader of lines finds no record that was not written, and it finds them all unless one was
written behind a part of another. -/
theorem lines_of_records {plan : List Fault} {flushFailure : Option String}
    {records : List MethodRecord}
    (hs : start FaultyBuffer.sink (new .legacy ⟨plan, flushFailure, .empty⟩) = .ok () w)
    (hf : finish FaultyBuffer.sink (attempt records w).2 = .ok () w') :
    (linesRead .legacy w'.output).Sublist (attempt records w).1 ∧
      ((attempt records w).1.Sublist (linesRead .legacy w'.output) ↔
        ¬ WritesBehindTorn records w) := by
  have h := Lines.of_start hs
  have hread : linesRead .legacy w'.output = intact records w := h.linesRead_eq hf
  have hsub := intact_sublist records w
  rw [hread]
  refine ⟨hsub, ?_⟩
  have hiff : (attempt records w).1.Sublist (intact records w) ↔
      intact records w = (attempt records w).1 :=
    ⟨fun hw => hsub.antisymm hw, fun he => he ▸ List.Sublist.refl _⟩
  rw [hiff, h.intact_eq_iff]
  exact and_iff_right fun hn => absurd rfl hn

def tearing (whole : Nat) : FaultyBuffer :=
  ⟨.none :: (List.replicate whole .none ++ [.limit 10, .failure "torn write"]), none, .empty⟩

def begunLines (whole : Nat) : ArrayWriter FaultyBuffer :=
  ⟨.legacy, 0, false, ⟨(tearing whole).plan.tail, none, opening.toUTF8⟩⟩

theorem lines_last_torn :
    start FaultyBuffer.sink (new .legacy (tearing 1)) = .ok () (begunLines 1) ∧
      (attempt someRecords (begunLines 1)).1 = someRecords.take 1 ∧
      ∃ w', finish FaultyBuffer.sink (attempt someRecords (begunLines 1)).2 = .ok () w' ∧
        (attempt someRecords (begunLines 1)).1.Sublist (linesRead .legacy w'.output) := by
  have hs : start FaultyBuffer.sink (new .legacy (tearing 1)) = .ok () (begunLines 1) := rfl
  have hf : finish FaultyBuffer.sink (attempt someRecords (begunLines 1)).2 =
      .ok () (after (finish FaultyBuffer.sink) (attempt someRecords (begunLines 1)).2) := rfl
  refine ⟨hs, rfl, _, hf, (lines_of_records hs hf).2.2 ?_⟩
  rintro (⟨hw, _⟩ | ⟨_, _, hr⟩ | ⟨⟨⟩⟩)
  · cases hw
  · exact hr rfl

theorem lines_first_torn :
    start FaultyBuffer.sink (new .legacy (tearing 0)) = .ok () (begunLines 0) ∧
      (attempt someRecords (begunLines 0)).1 = someRecords.drop 1 ∧
      ∃ w', finish FaultyBuffer.sink (attempt someRecords (begunLines 0)).2 = .ok () w' ∧
        linesRead .legacy w'.output = [] :=
  ⟨rfl, rfl, _, rfl, rfl⟩

end ArrayWriter

end MethodExtraction.Output
