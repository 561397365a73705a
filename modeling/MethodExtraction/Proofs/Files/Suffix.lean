import Mathlib.Data.List.TakeWhile
import MethodExtraction.Proofs.Files.Directories
import MethodExtraction.Proofs.Text.Parts

namespace MethodExtraction.Files

open Text

namespace Path

def components (p : Path) : List Name := p.segments.filter (· ≠ [dot])

theorem components_append (front rest : List UInt8) :
    components ⟨front ++ slash :: rest⟩ = components ⟨front⟩ ++ components ⟨rest⟩ := by
  rw [components, components, components, segments_append, List.filter_append]

theorem components_nil : components ⟨[]⟩ = [] := rfl

theorem components_dot : components ⟨[dot]⟩ = [] := rfl

theorem components_of_not_mem {bytes : List UInt8} (h : slash ∉ bytes) (hne : bytes ≠ [])
    (hdot : bytes ≠ [dot]) : components ⟨bytes⟩ = [bytes] := by
  rw [components, segments_of_not_mem h hne, List.filter_cons_of_pos (by simpa using hdot),
    List.filter_nil]

theorem components_trimmed (bytes : List UInt8) :
    components ⟨(trimmed bytes).reverse⟩ = components ⟨bytes.reverse⟩ := by
  fun_induction trimmed bytes with
  | case1 b rest ih =>
    rw [ih, List.reverse_cons (a := slash), components_append, components_nil, List.append_nil]
  | case2 a b rest ha hd ih =>
    obtain ⟨rfl, rfl⟩ : a = dot ∧ b = slash := by simpa using hd
    rw [ih, List.reverse_cons (a := dot), List.reverse_cons, List.append_assoc,
      List.singleton_append, components_append, components_append, components_dot, components_nil]
  | case3 => rfl
  | case4 => rfl

theorem trimmed_ne_dot {bytes rest : List UInt8} : trimmed bytes ≠ dot :: slash :: rest := by
  fun_induction trimmed bytes with
  | case1 b more ih => exact ih
  | case2 a b more ha hd ih => exact ih
  | case3 a b more ha hd =>
    intro h
    rw [List.cons.injEq, List.cons.injEq] at h
    obtain ⟨rfl, rfl, -⟩ := h
    exact hd rfl
  | case4 bytes hn =>
    rintro rfl
    exact hn dot slash rest rfl

theorem getLast?_components {last outer : List UInt8} (hlast : slash ∉ last.reverse)
    (houter : outer = [] ∨ ∃ more, outer = slash :: more)
    (hslash : ∀ rest, last ++ outer = slash :: rest → rest = [])
    (hdot : ∀ rest, last ++ outer ≠ dot :: slash :: rest) :
    (components ⟨(last ++ outer).reverse⟩).getLast? =
      if last.reverse = [] ∨ last.reverse = [dot] then none else some last.reverse := by
  rw [List.reverse_append]
  by_cases hnil : last.reverse = []
  · obtain rfl := List.reverse_eq_nil_iff.1 hnil
    rw [if_pos (.inl rfl)]
    obtain rfl | ⟨more, rfl⟩ := houter
    · rfl
    · rw [hslash more rfl]
      rfl
  · by_cases hone : last.reverse = [dot]
    · obtain rfl : last = [dot] := List.reverse_eq_iff.1 hone
      rw [if_pos (.inr rfl)]
      obtain rfl | ⟨more, rfl⟩ := houter
      · rfl
      · exact absurd rfl (hdot more)
    · rw [if_neg (by simp only [hnil, hone, or_self, not_false_eq_true])]
      obtain rfl | ⟨more, rfl⟩ := houter
      · rw [List.reverse_nil, List.nil_append, components_of_not_mem hlast hnil hone,
          List.getLast?_singleton]
      · rw [List.reverse_cons, List.append_assoc, List.singleton_append, components_append,
          components_of_not_mem hlast hnil hone, List.getLast?_concat]

theorem fileName?_eq_some_iff {p : Path} {name : Name} : p.fileName? = some name ↔
    p.components.getLast? = some name ∧ name ≠ [dot, dot] := by
  have hc : p.components = components ⟨(trimmed p.bytes.reverse).reverse⟩ := by
    rw [components_trimmed, List.reverse_reverse]
  have hdot : ∀ rest, trimmed p.bytes.reverse ≠ dot :: slash :: rest := fun _ => trimmed_ne_dot
  have hslash : ∀ rest, trimmed p.bytes.reverse = slash :: rest → rest = [] := by
    intro rest h
    cases rest with
    | nil => rfl
    | cons b rest => exact absurd rfl (head?_trimmed_ne_slash h)
  rw [fileName?, hc]
  generalize trimmed p.bytes.reverse = bytes at hdot hslash
  have hlast : slash ∉ (bytes.takeWhile (· ≠ slash)).reverse := by
    intro h
    simpa using List.mem_takeWhile_imp (List.mem_reverse.1 h)
  have houter : bytes.dropWhile (· ≠ slash) = [] ∨
      ∃ more, bytes.dropWhile (· ≠ slash) = slash :: more := by
    have hhead := List.head?_dropWhile_not (· ≠ slash) bytes
    cases hd : bytes.dropWhile (· ≠ slash) with
    | nil => exact .inl rfl
    | cons b more =>
      rw [hd] at hhead
      exact .inr ⟨more, by simpa using hhead⟩
  rw [← List.takeWhile_append_dropWhile (p := (· ≠ slash)) (l := bytes)] at hdot hslash
  have hget := getLast?_components hlast houter hslash hdot
  rw [List.takeWhile_append_dropWhile] at hget
  rw [hget]
  generalize (bytes.takeWhile (· ≠ slash)).reverse = last
  simp only [Bool.or_eq_true, decide_eq_true_eq, Option.ite_none_left_eq_some, Option.some.injEq]
  constructor
  · rintro ⟨hn, rfl⟩
    rw [not_or] at hn
    exact ⟨⟨hn.1, rfl⟩, hn.2⟩
  · rintro ⟨⟨hn, rfl⟩, hne⟩
    exact ⟨not_or.2 ⟨hn, hne⟩, rfl⟩

end Path

theorem endsWith_iff {text suffix : String} :
    text.endsWith suffix = true ↔ suffix.toList <:+ text.toList := by
  rw [String.endsWith_eq_endsWith_toSlice, String.Slice.endsWith_string_iff, String.copy_toSlice]

/-- Where the parts of some bytes give characters other than U+FFFD they are these characters. -/
theorem flatMap_bytes_of_text {ps : List Utf8.Part} (h : '\uFFFD' ∉ ps.map Utf8.Part.text) :
    ps.flatMap Utf8.Part.bytes =
      (ps.map Utf8.Part.text).flatMap String.utf8EncodeChar := by
  rw [List.flatMap_map]
  refine List.flatMap_congr fun p hp => ?_
  cases p with
  | char c => rfl
  | invalid bytes => exact absurd (List.mem_map_of_mem (f := Utf8.Part.text) hp) h

/-- A name ends in a text as it is shown exactly if its bytes end in those of the text. -/
theorem endsWith_decode_iff {name : Name} {suffix : String} (h : '\uFFFD' ∉ suffix.toList) :
    (Utf8.decode name).endsWith suffix = true ↔ Utf8.encode suffix <:+ name := by
  rw [endsWith_iff]
  constructor
  · rintro ⟨front, hf⟩
    obtain ⟨ps, hps, hd⟩ := Utf8.exists_parted name
    rw [hd, String.toList_ofList] at hf
    obtain ⟨qs, rs, rfl, -, hrs⟩ := List.append_eq_map_iff.1 hf
    refine ⟨qs.flatMap Utf8.Part.bytes, ?_⟩
    rw [Utf8.encode_eq_flatMap, ← hrs, ← flatMap_bytes_of_text (hrs ▸ h), ← List.flatMap_append,
      hps.flatMap_bytes]
  · rintro ⟨front, rfl⟩
    rw [Utf8.decode_append_encode, String.toList_append]
    exact List.suffix_append ..

/-- Showing a name hides no file that ends in a suffix and lets no other through: a path has a
suffix exactly if its last component is not `..` and ends in the bytes of the suffix. -/
theorem hasSuffix_iff {p : Path} {suffix : String} (h : '\uFFFD' ∉ suffix.toList) :
    hasSuffix p suffix = true ↔ ∃ name, p.components.getLast? = some name ∧
      name ≠ [dot, dot] ∧ Utf8.encode suffix <:+ name := by
  simp only [← and_assoc, ← Path.fileName?_eq_some_iff, ← endsWith_decode_iff h]
  rw [hasSuffix]
  cases p.fileName? with
  | none => simp
  | some name => simp

def latinPath : Path := ⟨Utf8.encode "src/../caf" ++ 0xE9 :: Utf8.encode ".java//./"⟩

theorem hasSuffix_latin : '\uFFFD' ∉ ".java".toList ∧ hasSuffix latinPath ".java" = true := by
  have h : '\uFFFD' ∉ ".java".toList := by decide
  refine ⟨h, (hasSuffix_iff h).2 ⟨Utf8.encode "caf" ++ 0xE9 :: Utf8.encode ".java", ?_, ?_, ?_⟩⟩
  · decide
  · decide
  · exact ⟨Utf8.encode "caf" ++ [0xE9], by simp⟩

end MethodExtraction.Files
