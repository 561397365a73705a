import Mathlib
import MethodExtraction.Extraction.Engine
import MethodExtraction.Proofs.Text.Parts

namespace MethodExtraction.Extraction

open Files Text Utf8

theorem readSource_of_read {fs : FileSystem} {p : Path} {bytes : ByteArray}
    (h : fs.read p = .ok bytes) : readSource fs p = .ok (decode bytes.data.toList) := by
  rw [readSource, h]

theorem toList_data_between (u v : String) (x : ByteArray) :
    (u.toUTF8 ++ x ++ v.toUTF8).data.toList = encode u ++ x.data.toList ++ encode v := by
  rw [ByteArray.data_append, ByteArray.data_append, Array.toList_append, Array.toList_append]
  rfl

/-- The parts of a file and what each of them gives: a character gives itself, and an invalid part
U+FFFD. -/
structure PartsGive (x : ByteArray) (ps : List Part) (text : String) : Prop where
  parted : Parted x.data.toList ps
  unique : ∀ qs, Parted x.data.toList qs → qs = ps
  gives : text.toList = ps.map Part.text
  replacements : text.toList.count '\uFFFD' =
    ps.count (.char '\uFFFD') + ps.countP Part.isInvalid
  valid : (∃ u : String, x = u.toUTF8) ↔ ps.countP Part.isInvalid = 0

structure Mends (x : ByteArray) (text : String) : Prop where
  between : ∀ (fs : FileSystem) (p : Path) (u v : String),
    fs.read p = .ok (u.toUTF8 ++ x ++ v.toUTF8) → readSource fs p = .ok (u ++ text ++ v)
  ofText : ∀ u : String, x = u.toUTF8 → text = u
  again : ∀ (fs : FileSystem) (p : Path),
    fs.read p = .ok text.toUTF8 → readSource fs p = .ok text
  ascii : (text.toList.map Char.toNat).filter isAscii =
    (x.data.toList.map UInt8.toNat).filter isAscii
  parts : ∃ ps, PartsGive x ps text

theorem exists_encode_iff {x : ByteArray} :
    (∃ u : String, x = u.toUTF8) ↔ ∃ u, x.data.toList = encode u := by
  refine exists_congr fun u => ?_
  rw [encode, Array.toList_inj, ByteArray.ext_iff]

/-- A file that can be read gives a text, and where it is damaged only the damage is replaced. -/
theorem mends_readSource {fs : FileSystem} {p : Path} {x : ByteArray} (h : fs.read p = .ok x) :
    ∃ text, readSource fs p = .ok text ∧ Mends x text := by
  obtain ⟨ps, hps, hd⟩ := exists_parted x.data.toList
  have htext : (decode x.data.toList).toList = ps.map Part.text := by
    rw [hd, String.toList_ofList]
  refine ⟨_, readSource_of_read h, ?_, ?_, ?_, ?_, ps, hps, fun qs hqs => hqs.unique hps, htext, ?_,
    exists_encode_iff.trans hps.exists_encode_iff⟩
  · intro fs p u v hr
    rw [readSource_of_read hr, toList_data_between, decode_between]
  · rintro u rfl
    exact decode_encode u
  · intro fs p hr
    rw [readSource_of_read hr]
    exact congrArg _ (decode_encode _)
  · rw [htext, hps.filter_isAscii]
  · rw [htext, count_replacement]

def latinBytes : ByteArray := ⟨#[0x2F, 0x2F, 0xE9, 0x0A, 0xF0, 0x9F, 0x22]⟩

def latinFile : FileSystem := ⟨[([encode "L.java"], .file latinBytes)], []⟩

theorem mends_latinFile :
    latinFile.read (.ofText "L.java") = .ok latinBytes ∧
      readSource latinFile (.ofText "L.java") = .ok "//\uFFFD\n\uFFFD\"" ∧
      Mends latinBytes "//\uFFFD\n\uFFFD\"" := by
  have h : latinFile.read (.ofText "L.java") = .ok latinBytes := by cbv
  have hs : readSource latinFile (.ofText "L.java") = .ok "//\uFFFD\n\uFFFD\"" := by cbv
  obtain ⟨text, ht, hm⟩ := mends_readSource h
  obtain rfl : "//\uFFFD\n\uFFFD\"" = text := Except.ok.inj (hs.symm.trans ht)
  exact ⟨h, hs, hm⟩

end MethodExtraction.Extraction
