import Mathlib.Data.List.Basic
import MethodExtraction.Text.Utf8

namespace MethodExtraction.Text.Utf8

theorem encode_eq_flatMap (s : String) : encode s = s.toList.flatMap String.utf8EncodeChar := by
  rw [encode, String.toUTF8, ← String.utf8Encode_toList, List.utf8Encode]
  simp

theorem encode_append (s t : String) : encode (s ++ t) = encode s ++ encode t := by
  rw [encode_eq_flatMap, encode_eq_flatMap, encode_eq_flatMap, String.toList_append,
    List.flatMap_append]

theorem le_toNat_of_mem_utf8EncodeChar {c : Char} (hc : 0x80 ≤ c.toNat) :
    ∀ b ∈ String.utf8EncodeChar c, 0x80 ≤ b.toNat := by
  have hv : c.toNat = c.val.toNat := rfl
  rw [String.utf8EncodeChar]
  split_ifs with h1 h2 h3
  · omega
  all_goals
    simp only [List.forall_mem_cons, List.not_mem_nil, false_implies, implies_true, and_true,
      UInt8.toNat_ofNat']
    omega

theorem toNat_of_mem_utf8EncodeChar {c : Char} {b : UInt8} (h : b ∈ String.utf8EncodeChar c)
    (hb : b.toNat < 0x80) : c.toNat = b.toNat := by
  by_cases hc : 0x80 ≤ c.toNat
  · exact absurd (le_toNat_of_mem_utf8EncodeChar hc b h) (Nat.not_le.2 hb)
  · have hv : c.toNat = c.val.toNat := rfl
    rw [String.utf8EncodeChar, if_pos (by omega)] at h
    rw [List.mem_singleton.1 h, UInt8.toNat_ofNat']
    omega

theorem mem_toList_of_mem_encode {s : String} {b : UInt8} (h : b ∈ encode s)
    (hb : b.toNat < 0x80) : ∃ c ∈ s.toList, c.toNat = b.toNat := by
  rw [encode_eq_flatMap] at h
  obtain ⟨c, hc, h⟩ := List.mem_flatMap.1 h
  exact ⟨c, hc, toNat_of_mem_utf8EncodeChar h hb⟩

def ofBytes? (bytes : List UInt8) : Option String := String.fromUTF8? ⟨bytes.toArray⟩

theorem ofBytes?_eq_some_iff {bytes : List UInt8} {s : String} :
    ofBytes? bytes = some s ↔ bytes = encode s := by
  rw [ofBytes?, String.fromUTF8?, encode]
  by_cases h : (⟨bytes.toArray⟩ : ByteArray).IsValidUTF8
  · rw [dif_pos h, Option.some_inj, ← String.toByteArray_inj]
    rw [String.fromUTF8, ByteArray.mk.injEq, ← Array.toList_inj]
    exact Iff.rfl
  · rw [dif_neg h]
    refine ⟨nofun, ?_⟩
    rintro rfl
    exact absurd s.isValidUTF8 h

theorem isPrefix_of_encode_append {s t : String} {rest : List UInt8}
    (h : encode t ++ rest = encode s) : t.toList <+: s.toList := by
  apply List.isPrefix_of_utf8Encode_append_eq_utf8Encode ⟨rest.toArray⟩
  rw [String.utf8Encode_toList, String.utf8Encode_toList]
  rw [ByteArray.ext_iff, ← Array.toList_inj, ByteArray.data_append, Array.toList_append]
  exact h

theorem encode_injective : Function.Injective encode := by
  intro s t h
  exact Option.some.inj ((ofBytes?_eq_some_iff.2 rfl).symm.trans (ofBytes?_eq_some_iff.2 h))

theorem utf8EncodeChar_of_mem {c : Char} {b : UInt8} (h : b ∈ String.utf8EncodeChar c)
    (hb : b.toNat < 0x80) : String.utf8EncodeChar c = [b] := by
  have hc := toNat_of_mem_utf8EncodeChar h hb
  have hv : c.toNat = c.val.toNat := rfl
  rw [String.utf8EncodeChar, if_pos (by omega)] at h ⊢
  rw [List.mem_singleton.1 h]

/-- The bytes of some characters fall apart between two of them before an ASCII byte. -/
theorem exists_of_flatMap_eq_append {cs : List Char} {before rest : List UInt8} {b : UInt8}
    (h : cs.flatMap String.utf8EncodeChar = before ++ b :: rest) (hb : b.toNat < 0x80) :
    ∃ ds es, cs = ds ++ es ∧ before = ds.flatMap String.utf8EncodeChar := by
  induction cs generalizing before with
  | nil => simp at h
  | cons c cs ih =>
    rw [List.flatMap_cons] at h
    obtain ⟨more, rfl, hm⟩ | ⟨more, hc, hm⟩ := List.append_eq_append_iff.1 h
    · obtain ⟨ds, es, rfl, rfl⟩ := ih hm
      exact ⟨c :: ds, es, rfl, List.flatMap_cons.symm⟩
    · cases more with
      | nil =>
        refine ⟨[c], cs, rfl, ?_⟩
        rw [List.flatMap_singleton, hc, List.append_nil]
      | cons d more =>
        obtain ⟨rfl, _⟩ := List.cons.inj hm
        have he := utf8EncodeChar_of_mem (hc ▸ List.mem_append_right _ (List.mem_cons_self ..)) hb
        rw [hc] at he
        refine ⟨[], c :: cs, rfl, ?_⟩
        cases before with
        | nil => rfl
        | cons _ _ => simp at he

theorem exists_of_encode_eq_append {s : String} {before rest : List UInt8} {b : UInt8}
    (h : encode s = before ++ b :: rest) (hb : b.toNat < 0x80) :
    ∃ t u, s = t ++ u ∧ before = encode t ∧ b :: rest = encode u := by
  have hs := h
  rw [encode_eq_flatMap] at hs
  obtain ⟨ds, es, hd, rfl⟩ := exists_of_flatMap_eq_append hs hb
  have hs : s = String.ofList ds ++ String.ofList es := by
    rw [← String.toList_inj, String.toList_append, String.toList_ofList, String.toList_ofList, hd]
  have ht : ds.flatMap String.utf8EncodeChar = encode (String.ofList ds) := by
    rw [encode_eq_flatMap, String.toList_ofList]
  refine ⟨_, _, hs, ht, ?_⟩
  rw [ht, hs, encode_append] at h
  exact (List.append_cancel_left h).symm

theorem exists_toList_of_encode {s : String} {rest : List UInt8} {b : UInt8}
    (h : encode s = b :: rest) (hb : b.toNat < 0x80) :
    ∃ cs, s.toList = Char.ofNat b.toNat :: cs := by
  rw [encode_eq_flatMap] at h
  cases hs : s.toList with
  | nil =>
    rw [hs] at h
    cases h
  | cons c cs =>
    rw [hs, List.flatMap_cons] at h
    obtain ⟨d, more, hd⟩ := List.exists_cons_of_ne_nil (String.utf8EncodeChar_ne_nil (c := c))
    rw [hd, List.cons_append] at h
    obtain ⟨rfl, _⟩ := List.cons.inj h
    have hc := toNat_of_mem_utf8EncodeChar (hd ▸ List.mem_cons_self ..) hb
    exact ⟨cs, by rw [← hc, Char.ofNat_toNat]⟩

theorem toList_decodeOnto (text : String) (bytes : List UInt8) :
    text.toList <+: (decodeOnto text bytes).toList := by
  fun_induction decodeOnto text bytes with
  | case1 text => exact List.prefix_refl _
  | case2 text lead bytes ih =>
    rw [String.toList_push] at ih
    exact (List.prefix_append ..).trans ih

theorem head?_decode {lead : UInt8} (h : lead < 0x80) (bytes : List UInt8) :
    (decode (lead :: bytes)).toList.head? = some (Char.ofNat lead.toNat) := by
  have hn : (next lead bytes).1 = Char.ofNat lead.toNat := by
    have hf : followers? lead = some [] := if_pos h
    simp only [next, hf]
    rfl
  obtain ⟨rest, hr⟩ := toList_decodeOnto ("".push (next lead bytes).1) (next lead bytes).2
  rw [decode, decodeOnto, ← hr, hn, String.toList_push]
  rfl

end MethodExtraction.Text.Utf8
