import Mathlib.Data.Rat.Floor
import Mathlib.Tactic.FieldSimp
import Mathlib.Tactic.Ring
import MethodExtraction.Numeric.Numeral
import MethodExtraction.Proofs.Numeric.Rounding
import MethodExtraction.Proofs.Text.Spaces

namespace MethodExtraction.Numeric

open Text

def denoted : List Char → ℕ
  | [] => 0
  | c :: cs => digit c * 10 ^ cs.length + denoted cs

structure Digits (cs : List Char) : Prop where
  ne_nil : cs ≠ []
  all : ∀ c ∈ cs, c.isDigit = true

inductive SignText : List Char → ℤ → Prop
  | none : SignText [] 1
  | plus : SignText ['+'] 1
  | minus : SignText ['-'] (-1)

inductive ExponentText : List Char → ℤ → Prop
  | absent : ExponentText [] 0
  | given {letter sign s digits} (hl : letter = 'e' ∨ letter = 'E') (hs : SignText sign s)
      (hd : Digits digits) (hn : denoted digits ≤ 9999) :
      ExponentText (letter :: (sign ++ digits)) (s * denoted digits)

/-- A decimal numeral without a sign: digits with a point among them or none, and an exponent or
none. -/
inductive NumeralText : List Char → ℚ → Prop
  | whole {digits exponent e} (hd : Digits digits) (he : ExponentText exponent e) :
      NumeralText (digits ++ exponent) (denoted digits * 10 ^ e)
  | point {whole fraction exponent e} (hd : Digits (whole ++ fraction))
      (he : ExponentText exponent e) :
      NumeralText (whole ++ '.' :: (fraction ++ exponent))
        ((denoted whole + denoted fraction / 10 ^ fraction.length) * 10 ^ e)

section

variable {cs ds : List Char} {c : Char}

theorem isDigit_iff : c.isDigit = true ↔ 48 ≤ c.toNat ∧ c.toNat ≤ 57 := by
  rw [Char.isDigit, Bool.and_eq_true, decide_eq_true_eq, decide_eq_true_eq]
  rfl

theorem denoted_append (cs ds : List Char) :
    denoted (cs ++ ds) = denoted cs * 10 ^ ds.length + denoted ds := by
  induction cs with
  | nil => simp [denoted]
  | cons c cs ih =>
    rw [List.cons_append, denoted, denoted, ih, List.length_append, pow_add]
    ring

theorem denoted_concat (cs : List Char) (c : Char) :
    denoted (cs ++ [c]) = denoted cs * 10 + digit c := by
  rw [denoted_append]
  simp [denoted]

theorem ofDigits_eq (cs : List Char) : ofDigits cs = denoted cs := by
  induction cs using List.reverseRecOn with
  | nil => rfl
  | append_singleton cs c ih =>
    rw [ofDigits, List.foldl_append, ← ofDigits, ih, denoted_concat]
    rfl

theorem denoted_le_append (cs ds : List Char) : denoted cs ≤ denoted (cs ++ ds) := by
  rw [denoted_append]
  exact (Nat.le_mul_of_pos_right _ (by positivity)).trans (Nat.le_add_right _ _)

/-- Digits of an exponent are all read if it is not too large. -/
theorem ofExponentDigits_eq (h : denoted cs < exponentLimit) :
    ofExponentDigits cs = denoted cs := by
  induction cs using List.reverseRecOn with
  | nil => rfl
  | append_singleton cs c ih =>
    have hlt : denoted cs < exponentLimit := (denoted_le_append cs [c]).trans_lt h
    rw [ofExponentDigits, List.foldl_append, ← ofExponentDigits, ih hlt, denoted_concat]
    exact if_pos hlt

/-- Reading on behind `n`, the digits of `n` come first. -/
theorem readDigits_eq (n : ℕ) (h : ∀ c ∈ cs, c.isDigit = true) (hn : n < wordLimit) :
    readDigits n cs = if n * 10 ^ cs.length + denoted cs < wordLimit
      then .ok (n * 10 ^ cs.length + denoted cs) else .error .overflow := by
  induction cs generalizing n with
  | nil => simp [readDigits, denoted, hn]
  | cons c cs ih =>
    have hsum : n * 10 ^ (c :: cs).length + denoted (c :: cs) =
        (n * 10 + digit c) * 10 ^ cs.length + denoted cs := by
      rw [denoted, List.length_cons, pow_succ]
      ring
    have hc : ¬ (!c.isDigit) = true := by simp [h c List.mem_cons_self]
    rw [readDigits, if_neg hc, hsum]
    by_cases hlt : n * 10 + digit c < wordLimit
    · rw [if_pos hlt, ih _ (fun d hd => h d (List.mem_cons_of_mem _ hd)) hlt]
    · have hle : n * 10 + digit c ≤ (n * 10 + digit c) * 10 ^ cs.length :=
        Nat.le_mul_of_pos_right _ (by positivity)
      rw [if_neg hlt, if_neg (by omega)]

theorem readUnsigned_eq (h : Digits cs) :
    readUnsigned cs = if denoted cs < wordLimit then .ok (denoted cs) else .error .overflow := by
  have hread := readDigits_eq 0 h.all (by decide)
  rw [Nat.zero_mul, Nat.zero_add] at hread
  cases cs with
  | nil => exact absurd rfl h.ne_nil
  | cons c cs =>
    have hc : c ≠ '+' := by
      rintro rfl
      exact absurd (h.all _ List.mem_cons_self) (by decide)
    rw [readUnsigned, hread]
    · exact (List.cons_ne_nil c cs ·)
    · exact fun heq => hc (List.cons.inj heq).1
    · exact fun _ heq => hc (List.cons.inj heq).1

def NoDigitFirst (cs : List Char) : Prop := ∀ c ∈ cs.head?, c.isDigit = false

theorem takeWhile_digits (h : ∀ c ∈ ds, c.isDigit = true) (hc : NoDigitFirst cs) :
    (ds ++ cs).takeWhile Char.isDigit = ds ∧ (ds ++ cs).dropWhile Char.isDigit = cs := by
  rw [List.takeWhile_append_of_pos h, List.dropWhile_append_of_pos h]
  cases cs with
  | nil => exact ⟨List.append_nil _, rfl⟩
  | cons c cs =>
    have hc := hc c rfl
    rw [List.takeWhile_cons_of_neg (by simp [hc]), List.dropWhile_cons_of_neg (by simp [hc])]
    exact ⟨List.append_nil _, rfl⟩

end

section

variable {n m : ℕ} {cs ds : List Char}

theorem digits_toString (n : ℕ) : Digits (toString n).toList where
  ne_nil := by
    rw [Nat.toString_eq_repr, Nat.toList_repr]
    exact Nat.toDigits_ne_nil
  all c hc := by
    rw [Nat.toString_eq_repr, Nat.toList_repr] at hc
    exact Nat.isDigit_of_mem_toDigits (by decide) (by decide) hc

theorem denoted_toString (n : ℕ) : denoted (toString n).toList = n := by
  have hfold : ∀ k c, 10 * k + (Char.toNat c - '0'.toNat) = k * 10 + digit c := by
    intro k c
    rw [Nat.mul_comm, digit]
  rw [← ofDigits_eq, ofDigits, Nat.toString_eq_repr, Nat.toList_repr]
  simpa only [Nat.ofDigitChars, hfold] using Nat.ofDigitChars_ten_toDigits (n := n)

theorem readUnsigned_toString (h : n < wordLimit) : readUnsigned (toString n).toList = .ok n := by
  rw [readUnsigned_eq (digits_toString n), denoted_toString, if_pos h]

theorem toString_append_inj (hc : NoDigitFirst cs) (hd : NoDigitFirst ds)
    (h : (toString n).toList ++ cs = (toString m).toList ++ ds) : n = m ∧ cs = ds := by
  obtain ⟨hn, hrest⟩ := takeWhile_digits (digits_toString n).all hc
  obtain ⟨hm, hrest'⟩ := takeWhile_digits (digits_toString m).all hd
  rw [h] at hn hrest
  refine ⟨?_, hrest.symm.trans hrest'⟩
  rw [← denoted_toString n, ← hn, hm, denoted_toString]

end

section

variable {cs exponent : List Char} {e s : ℤ} {x : ℚ}

theorem readSign_cons {c : Char} (h : c ≠ '-') (h' : c ≠ '+') :
    readSign (c :: cs) = (false, c :: cs) := by
  rw [readSign]
  · exact fun _ heq => h (List.cons.inj heq).1
  · exact fun _ heq => h' (List.cons.inj heq).1

theorem Digits.exists_cons (h : Digits cs) :
    ∃ c ds, cs = c :: ds ∧ c ≠ '-' ∧ c ≠ '+' := by
  obtain ⟨c, ds, rfl⟩ := List.exists_cons_of_ne_nil h.ne_nil
  have hc := isDigit_iff.1 (h.all c List.mem_cons_self)
  refine ⟨c, ds, rfl, ?_, ?_⟩
  · rintro rfl
    exact absurd hc (by decide)
  · rintro rfl
    exact absurd hc (by decide)

theorem SignText.readSign_append {sign digits : List Char} (hs : SignText sign s)
    (hd : Digits digits) :
    readSign (sign ++ digits) = (decide (s < 0), digits) ∧ (s = 1 ∨ s = -1) := by
  cases hs with
  | none =>
    obtain ⟨c, ds, rfl, hminus, hplus⟩ := hd.exists_cons
    exact ⟨readSign_cons hminus hplus, .inl rfl⟩
  | plus => exact ⟨rfl, .inl rfl⟩
  | minus => exact ⟨rfl, .inr rfl⟩

theorem readExponent?_eq (h : ExponentText exponent e) : readExponent? exponent = some e := by
  cases h with
  | absent => rfl
  | @given letter sign s digits hl hs hd hn =>
    obtain ⟨hread, hsign⟩ := hs.readSign_append hd
    have hall : (digits.isEmpty || !digits.all Char.isDigit) = false := by
      rw [Bool.or_eq_false_iff, List.isEmpty_eq_false_iff, Bool.not_eq_false', List.all_eq_true]
      exact ⟨hd.ne_nil, hd.all⟩
    have hvalue := ofExponentDigits_eq (hn.trans_lt (by decide))
    have hletter : (decide (letter = 'e') || decide (letter = 'E')) = true := by simpa using hl
    simp only [readExponent?, hletter, if_true, hread, hall, hvalue, Bool.false_eq_true, if_false]
    obtain rfl | rfl := hsign <;> simp

theorem ExponentText.noDigitFirst (h : ExponentText exponent e) : NoDigitFirst exponent := by
  intro c hc
  cases h with
  | absent => exact absurd hc (by simp)
  | given hl =>
    obtain rfl := Option.some.inj hc
    obtain rfl | rfl := hl <;> rfl

end

namespace Numeral

def value (n : Numeral) : ℚ := n.digits * 10 ^ n.exponent

theorem lower_ratio_pos (n : Numeral) : 0 < n.ratio.lower := Nat.pow_pos (by decide)

theorem value_ratio (n : Numeral) : n.ratio.value = n.value := by
  rw [Ratio.value, ratio, value]
  obtain ⟨k, hk | hk⟩ := n.exponent.eq_nat_or_neg
  · simp [hk]
  · simp [hk, div_eq_mul_inv]

end Numeral

theorem readNumeral?_whole {digits exponent : List Char} {e : ℤ} (hd : Digits digits)
    (he : ExponentText exponent e) :
    readNumeral? (digits ++ exponent) = some ⟨false, denoted digits, e⟩ := by
  obtain ⟨htake, hdrop⟩ := takeWhile_digits hd.all he.noDigitFirst
  have hsign : readSign (digits ++ exponent) = (false, digits ++ exponent) := by
    obtain ⟨c, ds, rfl, hminus, hplus⟩ := hd.exists_cons
    exact readSign_cons hminus hplus
  have hempty : digits.isEmpty = false := List.isEmpty_eq_false_iff.2 hd.ne_nil
  have hexponent := readExponent?_eq he
  simp only [readNumeral?, hsign, htake, hdrop]
  -- Neither the end of the text nor the letter of an exponent is a point.
  cases he with
  | absent => simp [hempty, hexponent, ofDigits_eq]
  | given hl => obtain rfl | rfl := hl <;> simp [hempty, hexponent, ofDigits_eq]

theorem readNumeral?_point {whole fraction exponent : List Char} {e : ℤ}
    (hd : Digits (whole ++ fraction)) (he : ExponentText exponent e) :
    readNumeral? (whole ++ '.' :: (fraction ++ exponent)) =
      some ⟨false, denoted (whole ++ fraction), e - fraction.length⟩ := by
  have hwhole : ∀ c ∈ whole, c.isDigit = true := fun c hc => hd.all c (List.mem_append_left _ hc)
  have hfraction : ∀ c ∈ fraction, c.isDigit = true :=
    fun c hc => hd.all c (List.mem_append_right _ hc)
  have hpoint : NoDigitFirst ('.' :: (fraction ++ exponent)) := by
    rintro c ⟨⟩
    rfl
  obtain ⟨htake, hdrop⟩ := takeWhile_digits hwhole hpoint
  obtain ⟨htake', hdrop'⟩ := takeWhile_digits hfraction he.noDigitFirst
  have hsign : readSign (whole ++ '.' :: (fraction ++ exponent)) =
      (false, whole ++ '.' :: (fraction ++ exponent)) := by
    cases whole with
    | nil => rfl
    | cons c cs =>
      obtain ⟨c, ds, heq, hminus, hplus⟩ := hd.exists_cons
      obtain ⟨rfl, -⟩ := List.cons.inj heq
      exact readSign_cons hminus hplus
  have hempty : (whole.isEmpty && fraction.isEmpty) = false := by
    have hne := hd.ne_nil
    rw [ne_eq, List.append_eq_nil_iff] at hne
    simpa using hne
  simp only [readNumeral?, hsign, htake, hdrop, htake', hdrop', hempty, Bool.false_eq_true,
    if_false, readExponent?_eq he, ofDigits_eq]
  rfl

theorem readNumeral?_eq {cs : List Char} {x : ℚ} (h : NumeralText cs x) :
    ∃ n, readNumeral? cs = some n ∧ n.negative = false ∧ n.value = x := by
  cases h with
  | whole hd he => exact ⟨_, readNumeral?_whole hd he, rfl, rfl⟩
  | point hd he =>
    refine ⟨_, readNumeral?_point hd he, rfl, ?_⟩
    have hten : (10 : ℚ) ≠ 0 := by norm_num
    rw [Numeral.value, denoted_append, zpow_sub₀ hten, zpow_natCast]
    push_cast
    field_simp

section

variable {cs : List Char} {e : ℤ} {x : ℚ}

def Printable (c : Char) : Prop := 0x20 < c.toNat ∧ c.toNat < 0x7F

theorem printable_of_isDigit {c : Char} (h : c.isDigit = true) : Printable c := by
  have hc := isDigit_iff.1 h
  exact ⟨by omega, by omega⟩

theorem toUpper_of_isDigit {c : Char} (h : c.isDigit = true) : c.toUpper = c := by
  have hc := isDigit_iff.1 h
  refine dif_neg fun hlow => ?_
  have hle : 97 ≤ c.toNat := hlow.1
  omega

theorem map_toUpper_of_digits (h : ∀ c ∈ cs, c.isDigit = true) : cs.map Char.toUpper = cs :=
  (List.map_congr_left fun c hc => toUpper_of_isDigit (h c hc)).trans (List.map_id _)

theorem SignText.map_toUpper (h : SignText cs e) : cs.map Char.toUpper = cs := by
  cases h <;> rfl

theorem SignText.printable (h : SignText cs e) : ∀ c ∈ cs, Printable c := by
  cases h <;> simp [Printable]

theorem ExponentText.map_toUpper (h : ExponentText cs e) :
    ExponentText (cs.map Char.toUpper) e := by
  cases h with
  | absent => exact .absent
  | @given letter sign s digits hl hs hd hn =>
    rw [List.map_cons, List.map_append, hs.map_toUpper, map_toUpper_of_digits hd.all]
    refine .given (.inr ?_) hs hd hn
    obtain rfl | rfl := hl <;> rfl

theorem ExponentText.printable (h : ExponentText cs e) : ∀ c ∈ cs, Printable c := by
  cases h with
  | absent => exact fun c hc => absurd hc List.not_mem_nil
  | given hl hs hd =>
    intro c hc
    obtain rfl | hc := List.mem_cons.1 hc
    · obtain rfl | rfl := hl <;> exact ⟨by decide, by decide⟩
    · obtain hc | hc := List.mem_append.1 hc
      · exact hs.printable c hc
      · exact printable_of_isDigit (hd.all c hc)

theorem NumeralText.map_toUpper (h : NumeralText cs x) : NumeralText (cs.map Char.toUpper) x := by
  cases h with
  | whole hd he =>
    rw [List.map_append, map_toUpper_of_digits hd.all]
    exact .whole hd he.map_toUpper
  | @point whole fraction exponent e hd he =>
    have hboth := map_toUpper_of_digits hd.all
    obtain ⟨hwhole, hfraction⟩ := List.append_inj (List.map_append.symm.trans hboth)
      (List.length_map _)
    rw [List.map_append, List.map_cons, List.map_append, hwhole, hfraction]
    exact .point hd he.map_toUpper

theorem NumeralText.printable (h : NumeralText cs x) : ∀ c ∈ cs, Printable c := by
  intro c hc
  cases h with
  | whole hd he =>
    obtain hc | hc := List.mem_append.1 hc
    · exact printable_of_isDigit (hd.all c hc)
    · exact he.printable c hc
  | point hd he =>
    simp only [List.mem_append, List.mem_cons] at hc
    obtain hc | rfl | hc | hc := hc
    · exact printable_of_isDigit (hd.all c (List.mem_append_left _ hc))
    · exact ⟨by decide, by decide⟩
    · exact printable_of_isDigit (hd.all c (List.mem_append_right _ hc))
    · exact he.printable c hc

theorem NumeralText.ne_nil (h : NumeralText cs x) : cs ≠ [] := by
  cases h with
  | whole hd => exact List.append_ne_nil_of_left_ne_nil hd.ne_nil _
  | point => simp

end

end MethodExtraction.Numeric
