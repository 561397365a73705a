import Mathlib.Data.List.Forall2
import MethodExtraction.Proofs.Output.Framing

namespace MethodExtraction.Output

open Files Java Text

/-- From its sound states on, a target takes everything and holds it behind what it held before. -/
structure ByteSink.Reliable {δ : Type} (target : ByteSink δ) (sound : δ → Prop)
    (held : δ → List UInt8) : Prop where
  writeAll : ∀ {d}, sound d → ∀ bytes, ∃ d', target.writeAll bytes d = .ok () d' ∧ sound d' ∧
    held d' = held d ++ bytes.data.toList
  flush : ∀ {d}, sound d → ∃ d', target.flush d = .ok () d' ∧ sound d' ∧ held d' = held d

def Fault.passes : Fault → Bool
  | .none | .interrupt => true
  | .limit count => count ≠ 0
  | .failure _ => false

theorem deliver_passing (bytes : ByteArray) {plan : List Fault}
    (h : ∀ f ∈ plan, f.passes = true) :
    (deliver bytes plan).failure = none ∧ ∀ f ∈ (deliver bytes plan).plan, f.passes = true := by
  induction plan generalizing bytes with
  | nil => exact ⟨rfl, h⟩
  | cons fault plan ih =>
    obtain ⟨hf, hp⟩ := List.forall_mem_cons.1 h
    by_cases he : bytes.isEmpty
    · simp only [deliver, if_pos he]
      exact ⟨trivial, h⟩
    cases fault with
    | none =>
      simp only [deliver, if_neg he]
      exact ⟨trivial, hp⟩
    | failure text => cases hf
    | interrupt =>
      simp only [deliver, if_neg he]
      exact ih bytes hp
    | limit count =>
      have hc : count ≠ 0 := of_decide_eq_true hf
      simp only [deliver, if_neg he]
      exact ih _ hp

namespace FaultyBuffer

def Passes (b : FaultyBuffer) : Prop := b.flushFailure = none ∧ ∀ f ∈ b.plan, f.passes = true

theorem reliable : sink.Reliable Passes fun b => b.bytes.data.toList where
  writeAll := by
    intro b hb bytes
    obtain ⟨hn, hp⟩ := deliver_passing bytes hb.2
    have ht : (deliver bytes b.plan).taken.data.toList = bytes.data.toList := by
      obtain ⟨_, ht⟩ | ⟨hf, _⟩ := deliver_of bytes b.plan
      · exact ht
      · cases hn.symm.trans hf
    refine ⟨⟨(deliver bytes b.plan).plan, b.flushFailure, b.bytes ++ (deliver bytes b.plan).taken⟩,
      ?_, ⟨hb.1, hp⟩, ?_⟩
    · simp only [sink, writeAll, hn]
    · rw [ByteArray.data_append, Array.toList_append, ht]
  flush := by
    intro b hb
    refine ⟨b, ?_, hb, rfl⟩
    simp only [sink, flush, hb.1]

end FaultyBuffer

theorem bind_of_ok {ε σ α β : Type} {x : EStateM ε σ α} {f : α → EStateM ε σ β} {s s' : σ} {a : α}
    (h : x s = .ok a s') : (x >>= f) s = f a s' := by
  simp only [bind, EStateM.bind, h]

namespace ArrayWriter

def writeDocument {δ : Type} (target : ByteSink δ) (records : List MethodRecord) :
    EStateM IoError (ArrayWriter δ) Unit := do
  start target
  forM records (write target)
  finish target

section

variable {δ : Type} {target : ByteSink δ} {sound : δ → Prop} {held : δ → List UInt8}
  (ht : target.Reliable sound held) {w : ArrayWriter δ} (hd : sound w.target)

include ht hd

theorem put_reliable (text : String) :
    ∃ d, put target text w = .ok () { w with target := d } ∧ sound d ∧
      held d = held w.target ++ Utf8.encode text := by
  obtain ⟨d, hw, hs, hh⟩ := ht.writeAll hd text.toUTF8
  refine ⟨d, ?_, hs, hh⟩
  simp only [put, onTarget, hw]

theorem write_reliable (r : MethodRecord) :
    ∃ w', write target r w = .ok () w' ∧ w'.format = w.format ∧ w'.emitted = true ∧
      sound w'.target ∧ held w'.target = held w.target ++ Utf8.encode (w.piece r) := by
  obtain ⟨d, hp, hs, hh⟩ := put_reliable ht (w := { w with emitted := true }) hd (w.piece r)
  refine ⟨⟨w.format, w.recordsWritten + 1, true, d⟩, ?_, rfl, rfl, hs, hh⟩
  rw [write_eq, hp]

theorem finish_reliable :
    ∃ w', finish target w = .ok () w' ∧
      held w'.target = held w.target ++ Utf8.encode w.closing := by
  obtain ⟨d, hp, hs, hh⟩ := put_reliable ht hd w.closing
  obtain ⟨d', hf, _, hh'⟩ := ht.flush hs
  refine ⟨{ w with target := d' }, ?_, hh'.trans hh⟩
  rw [finish_eq, hp]
  simp only [onTarget, hf]

/-- As soon as the pieces of all records to come are known, they and the closing are put behind what
is there. -/
theorem rest_reliable (records : List MethodRecord) (h : w.Settled) :
    ∃ w', (do forM records (write target); finish target : EStateM _ _ _) w = .ok () w' ∧
      held w'.target = held w.target ++ Utf8.encode (w.pieces records ++ w.closing) := by
  induction records generalizing w with
  | nil =>
    have he : w.pieces [] = "" := rfl
    obtain ⟨w', hf, hh⟩ := finish_reliable ht hd
    refine ⟨w', hf, ?_⟩
    rw [hh, he, String.empty_append]
  | cons r records ih =>
    obtain ⟨w₁, hw, hf, he, hs, hh⟩ := write_reliable ht hd r
    have h₁ : w₁.Settled := fun _ => he
    obtain ⟨w', hr, hh'⟩ := ih hs h₁
    refine ⟨w', ?_, ?_⟩
    · rw [List.forM_cons, bind_assoc, bind_of_ok hw]
      exact hr
    · have hp : w.pieces (r :: records) = w.piece r ++ w₁.pieces records := by
        rw [pieces, pieces, List.map_cons, String.join_cons, piece_congr h h₁ hf]
      rw [hh', hh, hp, closing_congr h h₁ hf, List.append_assoc, ← Utf8.encode_append,
        String.append_assoc]

end

def plainValue (r : MethodRecord) : Json.Value :=
  .object [("name", .string r.name), ("method", .string r.method), ("hasBody", .bool r.hasBody)]

/-- A line of the legacy format: an object and a comma. The text of the method is told but for the
backslashes before its quotes. -/
def IsLine (line : List UInt8) (r : MethodRecord) : Prop :=
  ∃ object method, line = object ++ [0x2C] ∧
    Json.readBytes? object = some (.object
      [("name", .string r.name), ("method", .string method), ("hasBody", .bool r.hasBody)]) ∧
    unescapeQuotes method.toList = r.method.toList

/-- A whole output that tells some records. -/
def Document : OutputFormat → List UInt8 → List MethodRecord → Prop
  | .strict, out, records => Json.readBytes? out = some (.array (records.map plainValue))
  | .legacy, out, records =>
    ∃ body lines, out = [0x5B, 0x0A] ++ body ++ [0x5D] ∧ body.splitOn 0x0A = lines ++ [[]] ∧
      List.Forall₂ IsLine lines records

theorem plainValue_injective : Function.Injective plainValue := by
  rintro ⟨name, method, hasBody⟩ ⟨name', method', hasBody'⟩ h
  simpa [plainValue] using h

theorem isLine_unique : Relator.RightUnique IsLine := by
  rintro _ ⟨name, text, hasBody⟩ ⟨name', text', hasBody'⟩
  rintro ⟨object, method, rfl, hr, hm⟩ ⟨object', method', ho, hr', hm'⟩
  rw [← List.append_cancel_right ho, hr] at hr'
  simp only [Option.some.injEq, Json.Value.object.injEq, List.cons.injEq, Prod.mk.injEq, true_and,
    Json.Value.string.injEq, Json.Value.bool.injEq, and_true] at hr'
  obtain ⟨rfl, rfl, rfl⟩ := hr'
  exact congrArg (MethodRecord.mk name · hasBody) (String.toList_inj.1 (hm.symm.trans hm'))

theorem document_unique {format : OutputFormat} {out : List UInt8}
    {records records' : List MethodRecord} (h : Document format out records)
    (h' : Document format out records') : records = records' := by
  cases format with
  | strict =>
    rw [Document] at h h'
    have hv := Json.Value.array.inj (Option.some.inj (h.symm.trans h'))
    exact List.map_injective_iff.2 plainValue_injective hv
  | legacy =>
    obtain ⟨body, lines, ho, hs, hl⟩ := h
    obtain ⟨body', lines', ho', hs', hl'⟩ := h'
    have hb : body = body' :=
      List.append_cancel_left (List.append_cancel_right (ho.symm.trans ho'))
    rw [hb, hs', List.append_cancel_right_eq] at hs
    rw [hs] at hl'
    exact isLine_unique.forall₂ hl hl'

theorem splitOn_lines {lines : List (List UInt8)} (h : ∀ line ∈ lines, 0x0A ∉ line) :
    (lines.flatMap (· ++ [0x0A])).splitOn 0x0A = lines ++ [[]] := by
  induction lines with
  | nil => rfl
  | cons line lines ih =>
    obtain ⟨hl, hls⟩ := List.forall_mem_cons.1 h
    rw [List.flatMap_cons, List.append_assoc, List.singleton_append, List.splitOn_append_cons_self,
      List.splitOn_eq_singleton hl, ih hls, List.cons_append, List.nil_append, List.cons_append]

def recordLine (r : MethodRecord) : List UInt8 := Utf8.encode (formatRecord .legacy r) ++ [0x2C]

theorem isLine_recordLine (r : MethodRecord) : IsLine (recordLine r) r := by
  refine ⟨_, OutputFormat.legacy.methodText r.method, rfl, ?_, ?_⟩
  · rw [Json.readBytes?_encode, (reads_formatRecord .legacy r).read?]
    rfl
  · rw [OutputFormat.methodText, toList_escapeQuotes, unescapeQuotes_flatMap]

theorem newline_not_mem_recordLine (r : MethodRecord) : 0x0A ∉ recordLine r := by
  intro h
  obtain h | h := List.mem_append.1 h
  · exact newline_not_mem_formatRecord .legacy r h
  · exact absurd h (by decide)

theorem encode_pieces_legacy {δ : Type} {w : ArrayWriter δ} (h : w.format = .legacy)
    (records : List MethodRecord) :
    Utf8.encode (w.pieces records) = (records.map recordLine).flatMap (· ++ [0x0A]) := by
  induction records with
  | nil => rfl
  | cons r records ih =>
    have hp : Utf8.encode (w.piece r) = recordLine r ++ [0x0A] := by
      rw [piece, h, Utf8.encode_append, encode_separator, recordLine, List.append_assoc]
      rfl
    have hc : w.pieces (r :: records) = w.piece r ++ w.pieces records := by
      rw [pieces, List.map_cons, String.join_cons, pieces]
    rw [hc, Utf8.encode_append, hp, ih, List.map_cons, List.flatMap_cons]

theorem document_legacy {δ : Type} {w : ArrayWriter δ} (h : w.format = .legacy)
    (records : List MethodRecord) :
    Document .legacy (Utf8.encode opening ++ Utf8.encode (w.pieces records ++ w.closing))
      records := by
  refine ⟨Utf8.encode (w.pieces records), records.map recordLine, ?_, ?_, ?_⟩
  · have ho : Utf8.encode opening = [0x5B, 0x0A] := by decide
    have hc : w.closing = "]" := by rw [closing, h]
    rw [Utf8.encode_append, ho, hc, encode_bracket, List.append_assoc]
  · rw [encode_pieces_legacy h]
    refine splitOn_lines fun line hl => ?_
    obtain ⟨r, _, rfl⟩ := List.mem_map.1 hl
    exact newline_not_mem_recordLine r
  · rw [List.forall₂_map_left_iff]
    exact List.forall₂_same.2 fun r _ => isLine_recordLine r

section

variable {δ : Type} {target : ByteSink δ} {sound : δ → Prop} {held : δ → List UInt8}

theorem document_writeDocument (ht : target.Reliable sound held) {d : δ} (hd : sound d)
    (he : held d = []) (format : OutputFormat) (records : List MethodRecord) :
    ∃ w, writeDocument target records (new format d) = .ok () w ∧
      Document format (held w.target) records := by
  obtain ⟨d₁, hp, hs, hh⟩ := put_reliable ht (w := new format d) hd opening
  have hh₁ : held (new format d₁).target = Utf8.encode opening :=
    hh.trans (by rw [new, he, List.nil_append])
  have hstart : start target (new format d) = .ok () (new format d₁) := hp
  cases format with
  | legacy =>
    obtain ⟨w, hw, hh'⟩ := rest_reliable ht (w := new .legacy d₁) hs records nofun
    refine ⟨w, (bind_of_ok hstart).trans hw, ?_⟩
    rw [hh', hh₁]
    exact document_legacy rfl records
  | strict =>
    cases records with
    | nil =>
      obtain ⟨w, hw, hh'⟩ := finish_reliable ht (w := new .strict d₁) hs
      refine ⟨w, (bind_of_ok hstart).trans hw, ?_⟩
      have hb : Json.readBytes? (Utf8.encode opening ++ Utf8.encode "]") = some (.array []) := by
        rfl
      rw [hh', hh₁]
      exact hb
    | cons r records =>
      obtain ⟨w₁, hw₁, hf, hem, hs₁, hh₁'⟩ := write_reliable ht (w := new .strict d₁) hs r
      obtain ⟨w, hw, hh'⟩ := rest_reliable ht hs₁ records fun _ => hem
      refine ⟨w, ?_, ?_⟩
      · rw [writeDocument, bind_of_ok hstart, List.forM_cons, bind_assoc, bind_of_ok hw₁]
        exact hw
      · have hp₁ := encode_piece_of_not_emitted (w := new .strict d₁) (r := r) rfl rfl
        rw [hh', hh₁', hp₁, hh₁]
        exact readBytes?_behind hf hem r records

/-- Either format tells exactly the records that were written, in their order: a JSON array of them
with their texts as they are, or a line for each with its quotes escaped. So both formats tell the
same records, and different records never have the same output. -/
theorem documents_tell_records (ht : target.Reliable sound held) {d : δ} (hd : sound d)
    (he : held d = []) (records : List MethodRecord) :
    ∃ strict legacy, writeDocument target records (new .strict d) = .ok () strict ∧
      writeDocument target records (new .legacy d) = .ok () legacy ∧
      Document .strict (held strict.target) records ∧
      Document .legacy (held legacy.target) records ∧
      (∀ told, Document .strict (held strict.target) told ↔
        Document .legacy (held legacy.target) told) ∧
      ∀ (format : OutputFormat) (others : List MethodRecord) (w w' : ArrayWriter δ),
        writeDocument target records (new format d) = .ok () w →
        writeDocument target others (new format d) = .ok () w' →
        held w.target = held w'.target → records = others := by
  obtain ⟨strict, hs, hds⟩ := document_writeDocument ht hd he .strict records
  obtain ⟨legacy, hl, hdl⟩ := document_writeDocument ht hd he .legacy records
  refine ⟨strict, legacy, hs, hl, hds, hdl, fun told => ⟨fun h => ?_, fun h => ?_⟩, ?_⟩
  · rwa [document_unique h hds]
  · rwa [document_unique h hdl]
  · intro format others w w' hw hw' hh
    obtain ⟨v, hv, hd₁⟩ := document_writeDocument ht hd he format records
    obtain ⟨v', hv', hd₂⟩ := document_writeDocument ht hd he format others
    cases hv.symm.trans hw
    cases hv'.symm.trans hw'
    rw [← hh] at hd₂
    exact document_unique hd₁ hd₂

end

def hesitant : FaultyBuffer := ⟨[.limit 1, .interrupt, .none, .limit 12, .limit 1], none, .empty⟩

def quotedRecords : List MethodRecord :=
  [⟨"a", "String a() \x7b\n  return \"\\\"\x01😀\\\\\"; \x7d", true⟩, ⟨"b", "void b();", false⟩]

theorem documents_tell_quoted :
    FaultyBuffer.sink.Reliable FaultyBuffer.Passes (fun b => b.bytes.data.toList) ∧
      hesitant.Passes ∧ hesitant.bytes.data.toList = [] ∧
      ∃ strict legacy, writeDocument FaultyBuffer.sink quotedRecords (new .strict hesitant) =
          .ok () strict ∧
        writeDocument FaultyBuffer.sink quotedRecords (new .legacy hesitant) = .ok () legacy ∧
        Document .strict strict.output quotedRecords ∧
        Document .legacy legacy.output quotedRecords := by
  have hp : hesitant.Passes := ⟨rfl, by decide⟩
  obtain ⟨strict, legacy, hs, hl, hds, hdl, _⟩ :=
    documents_tell_records FaultyBuffer.reliable hp rfl quotedRecords
  exact ⟨FaultyBuffer.reliable, hp, rfl, strict, legacy, hs, hl, hds, hdl⟩

end ArrayWriter

end MethodExtraction.Output
