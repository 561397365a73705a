import MethodExtraction.Output.ArrayWriter
import MethodExtraction.Output.Buffer
import MethodExtraction.Proofs.Output.Attempts
import MethodExtraction.Text.Utf8

namespace MethodExtraction.Output

open Files Java Text

theorem isEmpty_iff (bytes : ByteArray) : bytes.isEmpty ↔ bytes.data.toList = [] := by
  rw [ByteArray.isEmpty, beq_iff_eq, ByteArray.size, List.eq_nil_iff_length_eq_zero,
    Array.length_toList]

theorem eq_empty_of_isEmpty {bytes : ByteArray} (h : bytes.isEmpty = true) : bytes = .empty := by
  rw [ByteArray.ext_iff, ← Array.toList_inj]
  exact (isEmpty_iff bytes).1 h

theorem deliver_of_isEmpty {bytes : ByteArray} (h : bytes.isEmpty) (plan : List Fault) :
    deliver bytes plan = ⟨none, .empty, plan⟩ := by
  cases plan with
  | nil => rw [deliver, eq_empty_of_isEmpty h]
  | cons fault plan => simp only [deliver, if_pos h]

theorem extract_append_extract (bytes : ByteArray) (count : Nat) :
    (bytes.extract 0 count).data.toList ++ (bytes.extract count bytes.size).data.toList =
      bytes.data.toList := by
  have hl : (bytes.data.toList.drop count).length = bytes.size - count := by
    rw [List.length_drop, Array.length_toList, ByteArray.size]
  simp only [ByteArray.data_extract, Array.toList_extract, List.extract_eq_take_drop]
  rw [Nat.sub_zero, List.drop_zero, List.take_of_length_le (Nat.le_of_eq hl),
    List.take_append_drop]

/-- What may become of some bytes: all of them are taken, or there is a failure and some are left. -/
inductive Delivery.Of (bytes : List UInt8) : Delivery → Prop where
  | whole {d} (hf : d.failure = none) (ht : d.taken.data.toList = bytes) : Of bytes d
  | torn {d e rest} (hf : d.failure = some e) (ht : d.taken.data.toList ++ rest = bytes)
      (hr : rest ≠ []) : Of bytes d

theorem deliver_of (bytes : ByteArray) (plan : List Fault) :
    (deliver bytes plan).Of bytes.data.toList := by
  induction plan generalizing bytes with
  | nil => exact .whole rfl rfl
  | cons fault plan ih =>
    by_cases he : bytes.isEmpty
    · simp only [deliver, if_pos he]
      exact .whole rfl ((isEmpty_iff bytes).1 he).symm
    have hne : bytes.data.toList ≠ [] := fun h => he ((isEmpty_iff bytes).2 h)
    cases fault with
    | none =>
      simp only [deliver, if_neg he]
      exact .whole rfl rfl
    | failure text =>
      simp only [deliver, if_neg he]
      exact .torn rfl (List.nil_append _) hne
    | interrupt =>
      simp only [deliver, if_neg he]
      exact ih bytes
    | limit count =>
      by_cases hc : count = 0
      · subst hc
        simp only [deliver, if_neg he]
        exact .torn rfl (List.nil_append _) hne
      · simp only [deliver, if_neg he]
        have hs := extract_append_extract bytes count
        obtain ⟨hf, ht⟩ | ⟨hf, ht, hr⟩ := ih (bytes.extract count bytes.size)
        · refine .whole hf ?_
          rw [ByteArray.data_append, Array.toList_append, ht, hs]
        · refine .torn hf ?_ hr
          rw [ByteArray.data_append, Array.toList_append, List.append_assoc, ht, hs]

namespace ArrayWriter

section

variable {δ : Type} (target : ByteSink δ) (w : ArrayWriter δ)

theorem write_eq (r : MethodRecord) :
    write target r w =
      match put target (w.piece r) { w with emitted := true } with
      | .ok () w => .ok () { w with recordsWritten := w.recordsWritten + 1 }
      | .error e w => .error e w := by
  have h : write target r w =
      (do put target (w.piece r)
          modify fun w => { w with recordsWritten := w.recordsWritten + 1 } : EStateM _ _ _)
        { w with emitted := true } := rfl
  rw [h]
  simp only [bind, EStateM.bind]
  cases put target (w.piece r) { w with emitted := true } <;> rfl

theorem finish_eq :
    finish target w =
      match put target w.closing w with
      | .ok () w => onTarget target.flush w
      | .error e w => .error e w := by
  have h : finish target w =
      (do put target w.closing; onTarget target.flush : EStateM _ _ _) w := rfl
  rw [h]
  simp only [bind, EStateM.bind]
  cases put target w.closing w <;> rfl

end

def output (w : ArrayWriter FaultyBuffer) : List UInt8 := w.target.bytes.data.toList

inductive Put (w : ArrayWriter FaultyBuffer) (bytes : List UInt8) :
    EStateM.Result IoError (ArrayWriter FaultyBuffer) Unit → Prop where
  | whole {b} (hb : b.bytes.data.toList = w.output ++ bytes) :
      Put w bytes (.ok () { w with target := b })
  | torn {e b taken rest} (hb : b.bytes.data.toList = w.output ++ taken)
      (ht : taken ++ rest = bytes) (hr : rest ≠ []) : Put w bytes (.error e { w with target := b })

variable (w : ArrayWriter FaultyBuffer)

theorem put_cases (text : String) :
    w.Put (Utf8.encode text) (put FaultyBuffer.sink text w) := by
  have hb : ∀ d : Delivery, (w.target.bytes ++ d.taken).data.toList =
      w.output ++ d.taken.data.toList := by
    intro d
    rw [ByteArray.data_append, Array.toList_append, output]
  unfold put onTarget FaultyBuffer.sink FaultyBuffer.writeAll
  obtain ⟨hf, ht⟩ | ⟨hf, ht, hr⟩ := deliver_of text.toUTF8 w.target.plan
  · simp only [hf]
    exact .whole ((hb _).trans (by rw [ht]; rfl))
  · simp only [hf]
    exact .torn (hb _) ht hr

theorem of_write_ok {w w' : ArrayWriter FaultyBuffer} {r : MethodRecord}
    (h : write FaultyBuffer.sink r w = .ok () w') :
    w'.format = w.format ∧ w'.emitted = true ∧ w'.recordsWritten = w.recordsWritten + 1 ∧
      w'.output = w.output ++ Utf8.encode (w.piece r) := by
  have hp := put_cases { w with emitted := true } (w.piece r)
  rw [write_eq] at h
  generalize put FaultyBuffer.sink (w.piece r) { w with emitted := true } = result at hp h
  cases hp with
  | torn hb ht hr => cases h
  | whole hb =>
    cases h
    exact ⟨rfl, rfl, rfl, hb⟩

theorem of_write_error {w w' : ArrayWriter FaultyBuffer} {r : MethodRecord} {e : IoError}
    (h : write FaultyBuffer.sink r w = .error e w') :
    w'.format = w.format ∧ w'.emitted = true ∧ w'.recordsWritten = w.recordsWritten ∧
      ∃ taken rest, w'.output = w.output ++ taken ∧ taken ++ rest = Utf8.encode (w.piece r) ∧
        rest ≠ [] := by
  have hp := put_cases { w with emitted := true } (w.piece r)
  rw [write_eq] at h
  generalize put FaultyBuffer.sink (w.piece r) { w with emitted := true } = result at hp h
  cases hp with
  | whole hb => cases h
  | torn hb ht hr =>
    cases h
    exact ⟨rfl, rfl, rfl, _, _, hb, ht, hr⟩

theorem eq_of_start {w w' : ArrayWriter FaultyBuffer}
    (h : start FaultyBuffer.sink w = .ok () w') :
    ∃ b, w' = { w with target := b } ∧ w'.output = w.output ++ Utf8.encode opening := by
  have hp := put_cases w opening
  rw [start] at h
  rw [h] at hp
  cases hp with
  | whole hb => exact ⟨_, rfl, hb⟩

theorem flush_cases :
    onTarget FaultyBuffer.sink.flush w = .ok () w ∨
      ∃ e, onTarget FaultyBuffer.sink.flush w = .error e w := by
  obtain ⟨format, recordsWritten, emitted, plan, flushFailure, bytes⟩ := w
  cases flushFailure with
  | none => exact .inl rfl
  | some text => exact .inr ⟨_, rfl⟩

theorem output_of_finish {w w' : ArrayWriter FaultyBuffer}
    (h : finish FaultyBuffer.sink w = .ok () w') :
    w'.output = w.output ++ Utf8.encode w.closing := by
  have hp := put_cases w w.closing
  rw [finish_eq] at h
  generalize put FaultyBuffer.sink w.closing w = result at hp h
  cases hp with
  | torn hb ht hr => cases h
  | @whole b hb =>
    obtain hf | ⟨e, hf⟩ := flush_cases { w with target := b }
    · cases hf.symm.trans h
      exact hb
    · cases hf.symm.trans h

theorem output_after_finish :
    ∃ taken, taken <+: Utf8.encode w.closing ∧
      (after (finish FaultyBuffer.sink) w).output = w.output ++ taken := by
  have hp := put_cases w w.closing
  rw [after, finish_eq]
  generalize put FaultyBuffer.sink w.closing w = result at hp ⊢
  cases hp with
  | torn hb ht hr => exact ⟨_, ⟨_, ht⟩, hb⟩
  | @whole b hb =>
    refine ⟨_, List.prefix_refl _, ?_⟩
    obtain hf | ⟨e, hf⟩ := flush_cases { w with target := b }
    · simp only [hf]
      exact hb
    · simp only [hf]
      exact hb

def attempt (records : List MethodRecord) (w : ArrayWriter FaultyBuffer) :
    List MethodRecord × ArrayWriter FaultyBuffer :=
  (sink FaultyBuffer.sink).writeEach records w

end ArrayWriter

end MethodExtraction.Output
