import Mathlib.Data.List.Basic
import MethodExtraction.Text.Trim
import MethodExtraction.Text.Uppercase

namespace MethodExtraction.Text

def spaceCodes : List Nat :=
  [0x09, 0x0A, 0x0B, 0x0C, 0x0D, 0x20, 0x85, 0xA0, 0x1680, 0x2000, 0x2001, 0x2002, 0x2003, 0x2004,
    0x2005, 0x2006, 0x2007, 0x2008, 0x2009, 0x200A, 0x2028, 0x2029, 0x202F, 0x205F, 0x3000]

theorem exists_code_of_isSpace {c : Char} (h : isSpace c = true) :
    ∃ n ∈ spaceCodes, c = Char.ofNat n := by
  refine ⟨c.toNat, ?_, c.ofNat_toNat.symm⟩
  simp only [isSpace, Bool.or_eq_true, Bool.and_eq_true, decide_eq_true_eq, beq_iff_eq] at h
  simp only [spaceCodes, List.mem_cons, List.not_mem_nil, or_false]
  omega

theorem isSpace_of_printable {c : Char} (h : 0x20 < c.toNat) (h' : c.toNat < 0x7F) :
    isSpace c = false := by
  by_contra hc
  simp only [isSpace, Bool.not_eq_false, Bool.or_eq_true, Bool.and_eq_true, decide_eq_true_eq,
    beq_iff_eq] at hc
  omega

def Blank (cs : List Char) : Prop := ∀ c ∈ cs, isSpace c = true

instance (cs : List Char) : Decidable (Blank cs) :=
  decidable_of_iff (cs.all isSpace = true) List.all_eq_true

variable {before middle after cs : List Char}

theorem dropWhile_blank_append (hb : Blank before) (h : ∃ c ∈ cs.head?, isSpace c = false) :
    (before ++ cs).dropWhile isSpace = cs := by
  rw [List.dropWhile_append_of_pos hb]
  obtain ⟨c, hc, hs⟩ := h
  cases cs with
  | nil => rfl
  | cons d ds =>
    obtain rfl := Option.some.inj hc
    exact List.dropWhile_cons_of_neg (by rw [hs]; exact Bool.false_ne_true)

theorem trim_between (hb : Blank before) (ha : Blank after)
    (hfirst : ∃ c ∈ middle.head?, isSpace c = false)
    (hlast : ∃ c ∈ middle.getLast?, isSpace c = false) :
    trim (before ++ middle ++ after) = middle := by
  have hfront : ∃ c ∈ (middle ++ after).head?, isSpace c = false := by
    obtain ⟨c, hc, hs⟩ := hfirst
    exact ⟨c, by rw [List.head?_append, Option.mem_def.1 hc, Option.some_or, Option.mem_some], hs⟩
  have hback : Blank after.reverse := fun c hc => ha c (List.mem_reverse.1 hc)
  rw [trim, List.append_assoc, dropWhile_blank_append hb hfront, List.reverse_append,
    dropWhile_blank_append hback (by rwa [List.head?_reverse]), List.reverse_reverse]

theorem uppercase_append (cs ds : List Char) :
    uppercase (cs ++ ds) = uppercase cs ++ uppercase ds := List.flatMap_append

theorem uppercase_blank (h : Blank cs) : uppercase cs = cs := by
  have hcode : ∀ n ∈ spaceCodes, Uppercase.ofChar (Char.ofNat n) = [Char.ofNat n] := by
    decide +kernel
  have hone : ∀ c ∈ cs, Uppercase.ofChar c = [c] := by
    intro c hc
    obtain ⟨n, hn, rfl⟩ := exists_code_of_isSpace (h c hc)
    exact hcode n hn
  rw [uppercase, List.flatMap_congr hone, List.flatMap_singleton']

theorem uppercase_ascii (h : ∀ c ∈ cs, c.toNat < 0x80) : uppercase cs = cs.map Char.toUpper := by
  have hone : ∀ c ∈ cs, Uppercase.ofChar c = [c.toUpper] := fun c hc => if_pos (h c hc)
  rw [uppercase, List.flatMap_congr hone, List.map_eq_flatMap]

end MethodExtraction.Text
