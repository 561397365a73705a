import MethodExtraction.Proofs.Output.Delivery

namespace MethodExtraction.Output

open Files

inductive Offer where
  | took (count : Nat)
  | failed (cause : IoError)
  | interrupted
  deriving DecidableEq, Repr

namespace FaultyBuffer

def offer (bytes : ByteArray) (b : FaultyBuffer) : Offer × FaultyBuffer :=
  match b.plan with
  | [] => (.took bytes.size, { b with bytes := b.bytes ++ bytes })
  | .none :: plan => (.took bytes.size, { b with plan := plan, bytes := b.bytes ++ bytes })
  | .limit count :: plan =>
    (.took (min count bytes.size),
      { b with plan := plan, bytes := b.bytes ++ bytes.extract 0 count })
  | .failure text :: plan => (.failed (.other text), { b with plan := plan })
  | .interrupt :: plan => (.interrupted, { b with plan := plan })

/-- What a round comes to: an end, or what is offered in the next one. -/
inductive Round where
  | last (result : EStateM.Result IoError FaultyBuffer Unit)
  | again (rest : ByteArray) (b : FaultyBuffer)

def round (bytes : ByteArray) (b : FaultyBuffer) : Round :=
  if bytes.isEmpty then .last (.ok () b)
  else
    match b.offer bytes with
    | (.took count, b) =>
      if count = 0 then .last (.error .nothingWritten b)
      else .again (bytes.extract count bytes.size) b
    | (.failed e, b) => .last (.error e b)
    | (.interrupted, b) => .again bytes b

/-- After so many rounds there is one that is the last, and it ends so. -/
inductive EndsAfter :
    Nat → ByteArray → FaultyBuffer → EStateM.Result IoError FaultyBuffer Unit → Prop where
  | last {bytes b result} (h : round bytes b = .last result) : EndsAfter 0 bytes b result
  | again {n bytes b rest b' result} (h : round bytes b = .again rest b')
      (hr : EndsAfter n rest b' result) : EndsAfter (n + 1) bytes b result

theorem EndsAfter.unique {m n : Nat} {bytes : ByteArray} {b : FaultyBuffer}
    {result result' : EStateM.Result IoError FaultyBuffer Unit}
    (h : EndsAfter m bytes b result) (h' : EndsAfter n bytes b result') :
    m = n ∧ result = result' := by
  induction h generalizing n result' with
  | last h =>
    cases h' with
    | last h' => exact ⟨rfl, Round.last.inj (h.symm.trans h')⟩
    | again h' => cases h.symm.trans h'
  | again h hr ih =>
    cases h' with
    | last h' => cases h.symm.trans h'
    | again h' hr' =>
      cases h.symm.trans h'
      obtain ⟨rfl, rfl⟩ := ih hr'
      exact ⟨rfl, rfl⟩

theorem size_ne_zero_of_not_isEmpty {bytes : ByteArray} (h : ¬ bytes.isEmpty) : bytes.size ≠ 0 := by
  intro hs
  rw [ByteArray.isEmpty, hs] at h
  exact h rfl

theorem extract_min (bytes : ByteArray) (count : Nat) :
    bytes.extract (min count bytes.size) bytes.size = bytes.extract count bytes.size := by
  obtain h | h := Nat.le_total count bytes.size
  · rw [Nat.min_eq_left h]
  · rw [Nat.min_eq_right h, ByteArray.ext_iff, ← Array.toList_inj]
    simp [Nat.sub_eq_zero_of_le h]

theorem writeAll_of_isEmpty {bytes : ByteArray} (h : bytes.isEmpty = true) (b : FaultyBuffer) :
    writeAll bytes b = .ok () b := by
  rw [writeAll, deliver_of_isEmpty h]
  simp only [ByteArray.append_empty]

theorem endsAfter_of_isEmpty {bytes : ByteArray} (h : bytes.isEmpty = true) (b : FaultyBuffer) :
    EndsAfter 0 bytes b (writeAll bytes b) := by
  rw [writeAll_of_isEmpty h]
  exact .last (if_pos h)

theorem isEmpty_extract_size (bytes : ByteArray) :
    (bytes.extract bytes.size bytes.size).isEmpty = true := by
  simp [ByteArray.isEmpty]

theorem round_of_taken {bytes : ByteArray} {b b' : FaultyBuffer} (h : ¬ bytes.isEmpty)
    (ho : b.offer bytes = (.took bytes.size, b')) :
    round bytes b = .again (bytes.extract bytes.size bytes.size) b' := by
  rw [round, if_neg h, ho]
  exact if_neg (size_ne_zero_of_not_isEmpty h)

theorem writeAll_eq_round (bytes : ByteArray) (b : FaultyBuffer) :
    writeAll bytes b =
      match round bytes b with
      | .last result => result
      | .again rest b' => writeAll rest b' := by
  by_cases he : bytes.isEmpty
  · rw [writeAll_of_isEmpty he, round, if_pos he]
  have hrest := writeAll_of_isEmpty (isEmpty_extract_size bytes)
  obtain ⟨plan, flushFailure, held⟩ := b
  cases plan with
  | nil =>
    have hr : round bytes ⟨[], flushFailure, held⟩ =
        .again _ ⟨[], flushFailure, held ++ bytes⟩ := round_of_taken he rfl
    rw [hr]
    exact (hrest _).symm
  | cons fault plan =>
    cases fault with
    | none =>
      have hr : round bytes ⟨.none :: plan, flushFailure, held⟩ =
          .again _ ⟨plan, flushFailure, held ++ bytes⟩ := round_of_taken he rfl
      rw [hr]
      simp only [hrest]
      simp only [writeAll, deliver, if_neg he]
    | failure text =>
      simp only [round, if_neg he, offer, writeAll, deliver, ByteArray.append_empty]
    | interrupt => simp only [round, if_neg he, offer, writeAll, deliver]
    | limit count =>
      by_cases hc : count = 0
      · have ht : bytes.extract 0 0 = .empty := by
          rw [ByteArray.ext_iff, ← Array.toList_inj]
          simp
        simp only [hc, round, if_neg he, offer, writeAll, deliver, Nat.zero_min, if_true, ht,
          ByteArray.append_empty]
      · have hm : min count bytes.size ≠ 0 := by
          have := size_ne_zero_of_not_isEmpty he
          omega
        simp only [round, if_neg he, offer, if_neg hm, extract_min, writeAll, deliver,
          ByteArray.append_assoc]

theorem isEmpty_or_length_lt_of_round {bytes rest : ByteArray} {b b' : FaultyBuffer}
    (h : round bytes b = .again rest b') :
    rest.isEmpty = true ∨ b'.plan.length < b.plan.length := by
  obtain ⟨plan, flushFailure, held⟩ := b
  cases plan with
  | nil =>
    by_cases he : bytes.isEmpty
    · simp only [round, if_pos he, reduceCtorEq] at h
    · have hr : round bytes ⟨[], flushFailure, held⟩ =
          .again _ ⟨[], flushFailure, held ++ bytes⟩ := round_of_taken he rfl
      cases hr.symm.trans h
      exact .inl (isEmpty_extract_size bytes)
  | cons fault plan =>
    refine .inr ?_
    rw [round] at h
    split at h
    · cases h
    cases fault <;> grind [offer]

/-- Writing all of some bytes is what the rounds come to, after no more of them than there are
faults, and one. -/
theorem endsAfter_writeAll (bytes : ByteArray) (b : FaultyBuffer) :
    ∃ n ≤ b.plan.length + 1, EndsAfter n bytes b (writeAll bytes b) := by
  induction hn : b.plan.length using Nat.strongRecOn generalizing bytes b with
  | ind _ ih =>
    rw [writeAll_eq_round]
    cases hr : round bytes b with
    | last result => exact ⟨0, Nat.zero_le _, .last hr⟩
    | again rest b' =>
      obtain he | hlt := isEmpty_or_length_lt_of_round hr
      · exact ⟨1, Nat.le_add_left .., .again hr (endsAfter_of_isEmpty he b')⟩
      · obtain ⟨m, hm, hends⟩ := ih _ (hn ▸ hlt) rest b' rfl
        exact ⟨m + 1, by omega, .again hr hends⟩

end FaultyBuffer

end MethodExtraction.Output
