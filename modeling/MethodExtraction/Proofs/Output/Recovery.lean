import Mathlib.Data.List.DropRight
import MethodExtraction.Proofs.Output.Delivery
import MethodExtraction.Proofs.Output.Record

namespace MethodExtraction.Output

open Java Text

def stripCommas (line : List UInt8) : List UInt8 := line.rdropWhile (· = 0x2C)

def recover (format : OutputFormat) (out : List UInt8) : List MethodRecord :=
  (out.splitOn 0x0A).filterMap fun line => readRecord? format (stripCommas line)

variable (format : OutputFormat) (r : MethodRecord)

theorem recover_newline (a b : List UInt8) :
    recover format (a ++ 0x0A :: b) = recover format a ++ recover format b := by
  rw [recover, List.splitOn_append_cons_self, List.filterMap_append, recover, recover]

theorem recover_line {line : List UInt8} (h : 0x0A ∉ line) :
    recover format line = (readRecord? format (stripCommas line)).toList := by
  rw [recover, List.splitOn_eq_singleton h]
  cases hr : readRecord? format (stripCommas line) <;> simp [hr]

theorem recover_comma (out : List UInt8) : recover format (out ++ [0x2C]) = recover format out := by
  by_cases h : 0x0A ∈ out
  · obtain ⟨a, b, hab⟩ := List.append_of_mem h
    rw [hab, List.append_assoc, List.cons_append, recover_newline, recover_newline, recover_comma b]
  · have hc : 0x0A ∉ out ++ [0x2C] := by simp [h]
    rw [recover_line format h, recover_line format hc, stripCommas,
      List.rdropWhile_concat_pos _ _ _ (by decide), stripCommas]
termination_by out.length
decreasing_by
  rw [hab, List.length_append, List.length_cons]
  omega

theorem recover_separator (out part : List UInt8) :
    recover format (out ++ 0x2C :: 0x0A :: part) = recover format out ++ recover format part := by
  have ho : out ++ 0x2C :: 0x0A :: part = (out ++ [0x2C]) ++ 0x0A :: part := by simp
  rw [ho, recover_newline, recover_comma]

theorem newline_not_mem_formatRecord : 0x0A ∉ Utf8.encode (formatRecord format r) := by
  intro h
  obtain ⟨c, hc, hn⟩ := Utf8.mem_toList_of_mem_encode h (by decide)
  have hp := printable_formatRecord format r c hc
  rw [hn] at hp
  exact absurd hp (by decide)

theorem recover_formatRecord :
    recover format (Utf8.encode (formatRecord format r)) = [r] := by
  have hs : stripCommas (Utf8.encode (formatRecord format r)) =
      Utf8.encode (formatRecord format r) := by
    obtain ⟨body, hb⟩ := formatRecord_eq_append format r
    have he : Utf8.encode "\x7d" = [0x7D] := by decide
    rw [hb, Utf8.encode_append, he, stripCommas, List.rdropWhile_concat_neg _ _ _ (by decide)]
  rw [recover_line format (newline_not_mem_formatRecord format r), hs, readRecord?_encode]
  rfl

variable {format r}

theorem recover_torn {part rest : List UInt8}
    (h : part ++ rest = Utf8.encode (formatRecord format r)) (hr : rest ≠ []) :
    recover format part = [] := by
  have hn : 0x0A ∉ part := fun hp =>
    newline_not_mem_formatRecord format r (h ▸ List.mem_append_left _ hp)
  obtain ⟨commas, hc⟩ := List.rdropWhile_prefix (p := (· = 0x2C)) part
  have hs : stripCommas part ++ (commas ++ rest) = Utf8.encode (formatRecord format r) := by
    rw [← List.append_assoc, ← h]
    exact congrArg (· ++ rest) hc
  rw [recover_line format hn, readRecord?_torn hs (List.append_ne_nil_of_right_ne_nil _ hr)]
  rfl

theorem recover_separator_torn {out taken rest : List UInt8}
    (h : taken ++ rest = 0x2C :: 0x0A :: Utf8.encode (formatRecord format r)) (hr : rest ≠ []) :
    recover format (out ++ taken) = recover format out := by
  -- the tear is before the comma, behind it, or in the record
  match taken, h with
  | [], _ => rw [List.append_nil]
  | [c], h =>
    obtain ⟨rfl, _⟩ := List.cons.inj h
    exact recover_comma format out
  | c :: d :: part, h =>
    rw [List.cons_append, List.cons_append, List.cons.injEq, List.cons.injEq] at h
    obtain ⟨rfl, rfl, h⟩ := h
    rw [recover_separator, recover_torn h hr, List.append_nil]

namespace ArrayWriter

theorem encode_separator : Utf8.encode ",\n" = [0x2C, 0x0A] := by decide

theorem encode_bracket : Utf8.encode "]" = [0x5D] := by decide

theorem encode_piece_of_emitted {w : ArrayWriter FaultyBuffer} (hf : w.format = .strict)
    (he : w.emitted = true) :
    Utf8.encode (w.piece r) = 0x2C :: 0x0A :: Utf8.encode (formatRecord .strict r) := by
  rw [piece, hf, he, if_pos rfl, Utf8.encode_append, encode_separator]
  rfl

theorem encode_piece_of_not_emitted {δ : Type} {w : ArrayWriter δ} (hf : w.format = .strict)
    (he : w.emitted = false) :
    Utf8.encode (w.piece r) = Utf8.encode (formatRecord .strict r) := by
  rw [piece, hf, he]
  rfl

theorem recover_opening (format : OutputFormat) (part : List UInt8) :
    recover format (Utf8.encode opening ++ part) = recover format part := by
  have ho : Utf8.encode opening ++ part = [0x5B] ++ 0x0A :: part := by
    have : Utf8.encode opening = [0x5B, 0x0A] := by decide
    rw [this]
    rfl
  have hn : recover format [0x5B] = [] := rfl
  rw [ho, recover_newline, hn, List.nil_append]

theorem recover_bracket (format : OutputFormat) {part : List UInt8} (h : part <+: [0x5D]) :
    recover format part = [] := by
  obtain rfl | ⟨rest, rfl, hr⟩ := List.prefix_cons_iff.1 h
  · rfl
  · rw [List.prefix_nil.1 hr]
    rfl

/-- The records written so far are recovered, and as long as none was attempted there is only the
opening. -/
structure Recovers (written : List MethodRecord) (w : ArrayWriter FaultyBuffer) : Prop where
  strict : w.format = .strict
  fresh : w.emitted = false → w.output = Utf8.encode opening
  recovered : recover .strict w.output = written
  counted : w.recordsWritten = written.length

variable {written : List MethodRecord} {w w' : ArrayWriter FaultyBuffer}

theorem Recovers.eq_nil (h : Recovers written w) (he : w.emitted = false) : written = [] := by
  have hn : recover .strict [] = [] := rfl
  rw [← h.recovered, h.fresh he, ← List.append_nil (Utf8.encode opening), recover_opening, hn]

theorem Recovers.recover_piece (h : Recovers written w) (r : MethodRecord) :
    recover .strict (w.output ++ Utf8.encode (w.piece r)) = written ++ [r] := by
  cases he : w.emitted with
  | true =>
    rw [encode_piece_of_emitted h.strict he, recover_separator, h.recovered, recover_formatRecord]
  | false =>
    rw [encode_piece_of_not_emitted h.strict he, h.fresh he, recover_opening,
      recover_formatRecord, h.eq_nil he, List.nil_append]

theorem Recovers.recover_torn_piece (h : Recovers written w) {taken rest : List UInt8}
    (ht : taken ++ rest = Utf8.encode (w.piece r)) (hr : rest ≠ []) :
    recover .strict (w.output ++ taken) = written := by
  cases he : w.emitted with
  | true =>
    rw [encode_piece_of_emitted h.strict he] at ht
    rw [recover_separator_torn ht hr, h.recovered]
  | false =>
    rw [encode_piece_of_not_emitted h.strict he] at ht
    rw [h.fresh he, recover_opening, recover_torn ht hr, h.eq_nil he]

theorem Recovers.of_write_ok (h : Recovers written w)
    (hw : write FaultyBuffer.sink r w = .ok () w') : Recovers (written ++ [r]) w' := by
  obtain ⟨hf, he, hn, ho⟩ := ArrayWriter.of_write_ok hw
  refine ⟨hf.trans h.strict, fun hn => absurd (hn.symm.trans he) Bool.false_ne_true, ?_, ?_⟩
  · rw [ho, h.recover_piece]
  · rw [hn, h.counted, List.length_append, List.length_singleton]

theorem Recovers.of_write_error {e : Files.IoError} (h : Recovers written w)
    (hw : write FaultyBuffer.sink r w = .error e w') : Recovers written w' := by
  obtain ⟨hf, he, hn, taken, rest, ho, ht, hr⟩ := ArrayWriter.of_write_error hw
  refine ⟨hf.trans h.strict, fun hn => absurd (hn.symm.trans he) Bool.false_ne_true, ?_, ?_⟩
  · rw [ho, h.recover_torn_piece ht hr]
  · rw [hn, h.counted]

theorem Recovers.of_start {plan : List Fault} {flushFailure : Option String}
    (hs : start FaultyBuffer.sink (new .strict ⟨plan, flushFailure, .empty⟩) = .ok () w) :
    Recovers [] w := by
  obtain ⟨b, rfl, hb⟩ := eq_of_start hs
  have hn := recover_opening .strict []
  refine ⟨rfl, fun _ => hb, ?_, rfl⟩
  rw [hb]
  exact hn

theorem Recovers.recover_closing (h : Recovers written w) {taken : List UInt8}
    (ht : taken <+: Utf8.encode w.closing) : recover .strict (w.output ++ taken) = written := by
  have hn : Utf8.encode "\n]" = [0x0A, 0x5D] := by decide
  cases he : w.emitted with
  | true =>
    rw [closing, h.strict, he, if_pos rfl, hn] at ht
    obtain rfl | ⟨rest, rfl, hr⟩ := List.prefix_cons_iff.1 ht
    · rw [List.append_nil, h.recovered]
    · rw [recover_newline, h.recovered, recover_bracket _ hr, List.append_nil]
  | false =>
    rw [closing, h.strict, he] at ht
    rw [h.fresh he, recover_opening, recover_bracket _ (encode_bracket ▸ ht), h.eq_nil he]

/-- Exactly the records that were written are recovered, whatever becomes of the closing. -/
theorem recover_strict_eq_written {plan : List Fault} {flushFailure : Option String}
    (records : List MethodRecord)
    (hs : start FaultyBuffer.sink (new .strict ⟨plan, flushFailure, .empty⟩) = .ok () w) :
    recover .strict (after (finish FaultyBuffer.sink) (attempt records w).2).output =
        (attempt records w).1 ∧
      (attempt records w).2.recordsWritten = (attempt records w).1.length := by
  have h := (sink FaultyBuffer.sink).writeEach_invariant
    (fun h hw => Recovers.of_write_ok h hw) (fun h hw _ => Recovers.of_write_error h hw)
    (Recovers.of_start hs) ((sink FaultyBuffer.sink).failing_true records w)
  rw [List.nil_append] at h
  obtain ⟨taken, ht, ho⟩ := output_after_finish (attempt records w).2
  rw [ho]
  exact ⟨h.recover_closing ht, h.counted⟩

def tornBuffer : FaultyBuffer :=
  ⟨[.none, .limit 10, .failure "torn write", .limit 5, .interrupt], none, .empty⟩

def tornWriter : ArrayWriter FaultyBuffer :=
  ⟨.strict, 0, false, ⟨tornBuffer.plan.tail, none, opening.toUTF8⟩⟩

def tornRecords : List MethodRecord :=
  [⟨"ü", "void ü();", false⟩, ⟨"bar", "int bar() \x7b return 1; \x7d", true⟩]

theorem recover_strict_torn :
    start FaultyBuffer.sink (new .strict tornBuffer) = .ok () tornWriter ∧
      (attempt tornRecords tornWriter).1 = tornRecords.tail ∧
      recover .strict (after (finish FaultyBuffer.sink) (attempt tornRecords tornWriter).2).output =
        tornRecords.tail := by
  have hs : start FaultyBuffer.sink (new .strict tornBuffer) = .ok () tornWriter := rfl
  have hw : (attempt tornRecords tornWriter).1 = tornRecords.tail := rfl
  have hr := recover_strict_eq_written tornRecords hs
  exact ⟨hs, hw, hr.1.trans hw⟩

end ArrayWriter

end MethodExtraction.Output
