import MethodExtraction.Text.Slice

namespace MethodExtraction.Text

def IsBoundary (s : String) (offset : Nat) : Prop :=
  ∃ before after, s = before ++ after ∧ before.utf8ByteSize = offset

structure Stands (s t : String) (start stop : Nat) : Prop where
  split : ∃ before after, s = before ++ t ++ after ∧ before.utf8ByteSize = start
  length : start + t.utf8ByteSize = stop

theorem isBoundary_iff {s : String} {offset : Nat} :
    IsBoundary s offset ↔ String.Pos.Raw.IsValid s ⟨offset⟩ := by
  rw [String.Pos.Raw.isValid_iff_exists_append]
  simp only [IsBoundary, String.Pos.Raw.ext_iff, String.byteIdx_rawEndPos, eq_comm (b := offset)]

theorem pos?_eq_none {s : String} {offset : Nat} (h : ¬ IsBoundary s offset) :
    s.pos? ⟨offset⟩ = none := by
  rw [isBoundary_iff, ← String.Pos.Raw.isValidForSlice_toSlice_iff,
    ← String.Pos.Raw.isValidForSlice_eq_true_iff] at h
  simp only [String.pos?, String.Slice.pos?, dif_neg h, Option.map_none]

theorem pos?_eq_some {s : String} {offset : Nat} (h : IsBoundary s offset) :
    ∃ p, s.pos? ⟨offset⟩ = some p ∧ p.offset = ⟨offset⟩ := by
  rw [isBoundary_iff, ← String.Pos.Raw.isValidForSlice_toSlice_iff,
    ← String.Pos.Raw.isValidForSlice_eq_true_iff] at h
  refine ⟨.ofToSlice (s.toSlice.pos ⟨offset⟩ (String.Pos.Raw.isValidForSlice_eq_true_iff.1 h)), ?_, ?_⟩
  · simp only [String.pos?, String.Slice.pos?, dif_pos h, Option.map_some]
  · simp

namespace Stands

variable {s t : String} {start stop : Nat}

theorem isBoundary_start (h : Stands s t start stop) : IsBoundary s start := by
  obtain ⟨before, after, rfl, hb⟩ := h.split
  exact ⟨before, t ++ after, String.append_assoc .., hb⟩

theorem isBoundary_stop (h : Stands s t start stop) : IsBoundary s stop := by
  obtain ⟨before, after, rfl, hb⟩ := h.split
  exact ⟨before ++ t, after, rfl, by rw [String.utf8ByteSize_append, hb, h.length]⟩

theorem le (h : Stands s t start stop) : start ≤ stop := h.length ▸ Nat.le_add_right ..

theorem toByteArray_extract (h : Stands s t start stop) :
    s.toByteArray.extract start stop = t.toByteArray := by
  obtain ⟨before, after, rfl, rfl⟩ := h.split
  rw [← h.length, String.append_assoc, String.toByteArray_append, String.toByteArray_append,
    ← Nat.add_zero before.utf8ByteSize, Nat.add_assoc, Nat.zero_add,
    ByteArray.extract_append_size_add' (by simp), ByteArray.extract_append_eq_left (by simp)]

end Stands

theorem toByteArray_of_cut {s before after : String} {offset : Nat} (hs : s = before ++ after)
    (hb : before.utf8ByteSize = offset) :
    before.toByteArray = s.toByteArray.extract 0 offset ∧
      after.toByteArray = s.toByteArray.extract offset s.toByteArray.size ∧
      offset ≤ s.toByteArray.size := by
  have hsize : offset = before.toByteArray.size := by simpa using hb.symm
  subst hs
  rw [String.toByteArray_append]
  refine ⟨?_, ?_, ?_⟩
  · rw [ByteArray.extract_append_eq_left hsize]
  · rw [ByteArray.extract_append_eq_right hsize ByteArray.size_append]
  · rw [ByteArray.size_append, hsize]
    exact Nat.le_add_right ..

theorem stands_extract {s : String} {p q : s.Pos} (hle : p.offset.byteIdx ≤ q.offset.byteIdx) :
    Stands s (s.extract p q) p.offset.byteIdx q.offset.byteIdx := by
  obtain ⟨before, rest, hs, hb⟩ := (@isBoundary_iff s p.offset.byteIdx).2 p.isValid
  obtain ⟨front, after, hs', he⟩ := (@isBoundary_iff s q.offset.byteIdx).2 q.isValid
  have hbefore := (toByteArray_of_cut hs hb).1
  have hafter := (toByteArray_of_cut hs' he).2.1
  have hsize := (toByteArray_of_cut hs' he).2.2
  refine ⟨⟨before, after, ?_, hb⟩, ?_⟩
  · rw [← String.toByteArray_inj, String.toByteArray_append, String.toByteArray_append,
      String.toByteArray_extract, hbefore, hafter,
      ← ByteArray.extract_eq_extract_append_extract p.offset.byteIdx (by simp) hle,
      ← ByteArray.extract_eq_extract_append_extract q.offset.byteIdx (by simp) hsize,
      ByteArray.extract_zero_size]
  · rw [← String.size_toByteArray, String.toByteArray_extract, ByteArray.size_extract,
      Nat.min_eq_left hsize, Nat.add_sub_cancel' hle]

namespace Stands

variable {s t u : String} {start stop place : Nat}

theorem before_unique {before before' after after' : String} (h : before ++ after = before' ++ after')
    (hb : before.utf8ByteSize = before'.utf8ByteSize) : before = before' ∧ after = after' := by
  have hf := (toByteArray_of_cut (s := before ++ after) rfl rfl).1
  have hf' := (toByteArray_of_cut h hb.symm).1
  obtain rfl : before = before' := String.toByteArray_inj.1 (hf.trans hf'.symm)
  exact ⟨rfl, String.append_right_inj before |>.1 h⟩

theorem isPrefix_of_append_eq {after after' : String} (h : t ++ after = u ++ after')
    (hle : t.utf8ByteSize ≤ u.utf8ByteSize) : t.toList <+: u.toList := by
  have hl : t.toList ++ after.toList = u.toList ++ after'.toList := by
    rw [← String.toList_append, h, String.toList_append]
  obtain hp | ⟨rest, hr⟩ := List.prefix_or_prefix_of_prefix (List.prefix_append _ _)
    (hl ▸ List.prefix_append u.toList after'.toList)
  · exact hp
  · have ht : t = u ++ .ofList rest := by
      rw [← String.toList_inj, String.toList_append, String.toList_ofList, hr]
    have hs := congrArg String.utf8ByteSize ht
    rw [String.utf8ByteSize_append] at hs
    have hrest : (String.ofList rest).utf8ByteSize = 0 := by omega
    obtain rfl : rest = [] := by simpa using hrest
    exact ⟨[], by rw [← hr, List.append_nil, List.append_nil]⟩

theorem isPrefix (h : Stands s t start stop) (h' : Stands s u start place) (hle : stop ≤ place) :
    t.toList <+: u.toList := by
  obtain ⟨before, after, rfl, hb⟩ := h.split
  obtain ⟨before', after', he, hb'⟩ := h'.split
  rw [String.append_assoc, String.append_assoc] at he
  obtain ⟨-, he⟩ := before_unique he (hb.trans hb'.symm)
  have hlen := h.length
  have hlen' := h'.length
  exact isPrefix_of_append_eq he (by omega)

theorem isSuffix (h : Stands s t start stop) (h' : Stands s u place stop) (hle : place ≤ start) :
    t.toList <:+ u.toList := by
  obtain ⟨before, after, rfl, hb⟩ := h.split
  obtain ⟨before', after', he, hb'⟩ := h'.split
  have hsize : (before ++ t).utf8ByteSize = (before' ++ u).utf8ByteSize := by
    rw [String.utf8ByteSize_append, String.utf8ByteSize_append, hb, hb', h.length, h'.length]
  obtain ⟨he, -⟩ := before_unique he hsize
  -- What stands before the longer part is the front of what stands before the other.
  obtain ⟨rest, hr⟩ := isPrefix_of_append_eq he.symm (by omega)
  have hl : before.toList ++ t.toList = before'.toList ++ u.toList := by
    rw [← String.toList_append, he, String.toList_append]
  rw [← hr, List.append_assoc] at hl
  exact ⟨rest, List.append_cancel_left hl⟩

end Stands

theorem slice?_eq_some_iff {s t : String} {start stop : Nat} :
    slice? s start stop = some t ↔ Stands s t start stop := by
  constructor
  · intro h
    by_cases hb : IsBoundary s start
    · by_cases he : IsBoundary s stop
      · obtain ⟨p, hp, hpo⟩ := pos?_eq_some hb
        obtain ⟨q, hq, hqo⟩ := pos?_eq_some he
        simp only [slice?, hp, hq, Option.bind_eq_bind, Option.bind_some,
          Option.ite_none_right_eq_some, Option.some.injEq] at h
        obtain ⟨hle, rfl⟩ := h
        have hs := stands_extract (p := p) (q := q) (by rw [hpo, hqo]; exact hle)
        rwa [hpo, hqo] at hs
      · simp [slice?, pos?_eq_none he] at h
    · simp [slice?, pos?_eq_none hb] at h
  · intro h
    obtain ⟨p, hp, hpo⟩ := pos?_eq_some h.isBoundary_start
    obtain ⟨q, hq, hqo⟩ := pos?_eq_some h.isBoundary_stop
    have he : s.extract p q = t := by
      rw [← String.toByteArray_inj, String.toByteArray_extract, hpo, hqo, h.toByteArray_extract]
    simp [slice?, hp, hq, h.le, he]

/-- A slice is refused exactly if an offset lies out of bounds or within a character, or if they
come in the wrong order. -/
theorem slice?_eq_none_iff {s : String} {start stop : Nat} :
    slice? s start stop = none ↔ ¬ (IsBoundary s start ∧ IsBoundary s stop ∧ start ≤ stop) := by
  constructor
  · rintro h ⟨hb, he, hle⟩
    obtain ⟨p, hp, hpo⟩ := pos?_eq_some hb
    obtain ⟨q, hq, hqo⟩ := pos?_eq_some he
    simp [slice?, hp, hq, hle] at h
  · intro h
    cases hs : slice? s start stop with
    | none => rfl
    | some t =>
      have ht := slice?_eq_some_iff.1 hs
      exact absurd ⟨ht.isBoundary_start, ht.isBoundary_stop, ht.le⟩ h

end MethodExtraction.Text
