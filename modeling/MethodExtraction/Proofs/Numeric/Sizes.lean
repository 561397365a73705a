import Mathlib.Algebra.Order.Floor.Semiring
import MethodExtraction.Numeric.Size
import MethodExtraction.Proofs.Numeric.Spelling

namespace MethodExtraction.Numeric

open Text

inductive SizeUnit where
  | none
  | byte
  | kilobyte
  | megabyte
  | gigabyte
  deriving DecidableEq

namespace SizeUnit

def letters : SizeUnit → List Char
  | none => []
  | byte => ['B']
  | kilobyte => ['K', 'B']
  | megabyte => ['M', 'B']
  | gigabyte => ['G', 'B']

def power : SizeUnit → ℕ
  | none | byte => 0
  | kilobyte => 10
  | megabyte => 20
  | gigabyte => 30

def NumberText (u : SizeUnit) (number : List Char) (x : ℚ) : Prop :=
  if u.power = 0 then Digits number ∧ x = denoted number else NumeralText number x

end SizeUnit

/-- The text is the number `x` of a unit whose letters are of any case, with white space around it
and before the unit. -/
inductive Spells (text : String) (u : SizeUnit) (x : ℚ) : Prop where
  | intro {before number between letters after : List Char}
      (split : text.toList = before ++ number ++ between ++ letters ++ after)
      (number : u.NumberText number x) (letters : letters.map Char.toUpper = u.letters)
      (before : Blank before) (between : Blank between) (after : Blank after)

section

variable {cs number : List Char} {u : SizeUnit} {x : ℚ}

theorem dropEnding?_append (ending cs : List Char) :
    dropEnding? ending (cs ++ ending) = some cs := by
  rw [dropEnding?, if_pos (List.isSuffixOf_iff_suffix.2 (List.suffix_append ..)),
    List.length_append, Nat.add_sub_cancel, List.take_left]

theorem dropEnding?_of_ne {a b c : Char} (h : a ≠ b) (cs : List Char) :
    dropEnding? [a, c] (cs ++ [b, c]) = none :=
  if_neg (by simp [List.isSuffixOf, List.isPrefixOf, h])

theorem dropEnding?_of_last_ne {b c : Char} (h : c ≠ b) (ending cs : List Char) :
    dropEnding? (ending ++ [c]) (cs ++ [b]) = none :=
  if_neg (by simp [List.isSuffixOf, List.isPrefixOf, h])

theorem bytes?_larger (h : u.power ≠ 0) (cs : List Char) :
    bytes? (cs ++ u.letters) = scaled? cs u.power := by
  cases u with
  | none => exact absurd rfl h
  | byte => exact absurd rfl h
  | kilobyte =>
    have hg : dropEnding? ['G', 'B'] (cs ++ ['K', 'B']) = none := dropEnding?_of_ne (by decide) cs
    have hm : dropEnding? ['M', 'B'] (cs ++ ['K', 'B']) = none := dropEnding?_of_ne (by decide) cs
    simp [bytes?, units, SizeUnit.letters, SizeUnit.power, hg, hm, dropEnding?_append]
  | megabyte =>
    have hg : dropEnding? ['G', 'B'] (cs ++ ['M', 'B']) = none := dropEnding?_of_ne (by decide) cs
    simp [bytes?, units, SizeUnit.letters, SizeUnit.power, hg, dropEnding?_append]
  | gigabyte => simp [bytes?, units, SizeUnit.letters, SizeUnit.power, dropEnding?_append]

/-- Bytes are read as they stand if what is before the letter, or the end, is no letter of a larger
unit. -/
theorem bytes?_byte {c : Char} (hc : c ∉ ['G', 'M', 'K']) (cs : List Char) :
    bytes? (cs ++ [c, 'B']) = (readUnsigned (trim (cs ++ [c]))).toOption := by
  simp only [List.mem_cons, List.not_mem_nil, or_false, not_or] at hc
  have hb : dropEnding? ['B'] (cs ++ [c, 'B']) = some (cs ++ [c]) := by
    simpa using dropEnding?_append ['B'] (cs ++ [c])
  simp [bytes?, units, dropEnding?_of_ne (Ne.symm hc.1), dropEnding?_of_ne (Ne.symm hc.2.1),
    dropEnding?_of_ne (Ne.symm hc.2.2), hb]

theorem bytes?_plain {c : Char} (hc : c ≠ 'B') (cs : List Char) :
    bytes? (cs ++ [c]) = (readUnsigned (cs ++ [c])).toOption := by
  have hnone : ∀ ending, dropEnding? (ending ++ ['B']) (cs ++ [c]) = none :=
    fun ending => dropEnding?_of_last_ne hc.symm ending cs
  have hg : dropEnding? ['G', 'B'] (cs ++ [c]) = none := hnone ['G']
  have hm : dropEnding? ['M', 'B'] (cs ++ [c]) = none := hnone ['M']
  have hk : dropEnding? ['K', 'B'] (cs ++ [c]) = none := hnone ['K']
  have hb : dropEnding? ['B'] (cs ++ [c]) = none := hnone []
  simp [bytes?, units, hg, hm, hk, hb]

theorem printable_ends (hne : number ≠ []) (h : ∀ c ∈ number, Printable c) :
    (∃ c ∈ number.head?, isSpace c = false) ∧ ∃ c ∈ number.getLast?, isSpace c = false := by
  have hspace : ∀ c ∈ number, isSpace c = false :=
    fun c hc => isSpace_of_printable (h c hc).1 (h c hc).2
  exact ⟨⟨_, List.head?_eq_some_head hne, hspace _ (List.head_mem hne)⟩,
    ⟨_, List.getLast?_eq_some_getLast hne, hspace _ (List.getLast_mem hne)⟩⟩

theorem trim_number (hne : number ≠ []) (h : ∀ c ∈ number, Printable c) {between : List Char}
    (hb : Blank between) : trim (number ++ between) = number := by
  obtain ⟨hfirst, hlast⟩ := printable_ends hne h
  exact trim_between (show Blank [] from fun _ hc => absurd hc List.not_mem_nil) hb hfirst hlast

theorem floor_min_word (x : ℚ) : ⌊min x (2 ^ 64 - 1)⌋₊ = min ⌊x⌋₊ (wordLimit - 1) := by
  have hword : ⌊(2 ^ 64 - 1 : ℚ)⌋₊ = wordLimit - 1 := by
    have hcast : (2 ^ 64 - 1 : ℚ) = (wordLimit - 1 : ℕ) := by norm_num [wordLimit]
    rw [hcast, Nat.floor_natCast]
  rw [Nat.floor_mono.map_min, hword]

/-- A number of a larger unit is rounded, and what it comes to is cut off at the greatest word. -/
theorem scaled?_spec (h : NumeralText number x) {between : List Char} (hb : Blank between)
    (power : ℕ) :
    ∃ r, double.Nearest x r ∧ scaled? (number ++ between) power =
      if r < 2 ^ 1024 then some ⌊min (r * 2 ^ power) (2 ^ 64 - 1)⌋₊ else none := by
  obtain ⟨n, hread, hsign, rfl⟩ := readNumeral?_eq h
  obtain ⟨b, hb', hround⟩ := double.round?_spec (r := n.ratio) (by decide) n.lower_ratio_pos
  rw [Numeral.value_ratio] at hb'
  refine ⟨b.value, hb', ?_⟩
  have htop : (2 : ℚ) ^ double.top = 2 ^ 1024 := zpow_natCast 2 1024
  have hfloor : (b.ratio.shift power).floor = ⌊b.value * 2 ^ power⌋₊ := by
    rw [Ratio.floor_eq, Ratio.value_shift, Binary.value_ratio, zpow_natCast]
  rw [htop] at hround
  by_cases hlt : b.value < 2 ^ 1024
  · rw [if_pos hlt] at hround ⊢
    simp [scaled?, trim_number h.ne_nil h.printable hb, hread, hround, hsign, hfloor,
      floor_min_word]
  · rw [if_neg hlt] at hround ⊢
    simp [scaled?, trim_number h.ne_nil h.printable hb, hread, hround]

end

section

variable {text : String} {u : SizeUnit} {x : ℚ}

def invalidSize (text : String) : String := String.ofList (uppercase (trim text.toList))

theorem readSize_eq (text : String) :
    readSize text = match bytes? (uppercase (trim text.toList)) with
      | some n => .ok n
      | none => .error (invalidSize text) := rfl

theorem printable_of_toUpper {c : Char} (h : Printable c.toUpper) : Printable c := by
  by_cases hlow : c.val ≥ 'a'.val ∧ c.val ≤ 'z'.val
  · have hge : 97 ≤ c.toNat := hlow.1
    have hle : c.toNat ≤ 122 := hlow.2
    exact ⟨by omega, by omega⟩
  · have hsame : c.toUpper = c := dif_neg hlow
    rwa [hsame] at h

namespace SizeUnit

variable {number letters : List Char}

theorem printable_of_letters (h : letters.map Char.toUpper = u.letters) :
    ∀ c ∈ letters, Printable c := by
  have hall : ∀ c ∈ u.letters, Printable c := by cases u <;> simp [SizeUnit.letters, Printable]
  exact fun c hc => printable_of_toUpper (hall _ (h ▸ List.mem_map_of_mem hc))

theorem NumberText.map_toUpper (h : u.NumberText number x) :
    u.NumberText (number.map Char.toUpper) x := by
  by_cases hu : u.power = 0
  · rw [NumberText, if_pos hu] at h ⊢
    rwa [map_toUpper_of_digits h.1.all]
  · rw [NumberText, if_neg hu] at h ⊢
    exact NumeralText.map_toUpper h

theorem NumberText.printable (h : u.NumberText number x) :
    number ≠ [] ∧ ∀ c ∈ number, Printable c := by
  by_cases hu : u.power = 0
  · rw [NumberText, if_pos hu] at h
    exact ⟨h.1.ne_nil, fun c hc => printable_of_isDigit (h.1.all c hc)⟩
  · rw [NumberText, if_neg hu] at h
    exact ⟨h.ne_nil, NumeralText.printable h⟩

end SizeUnit

theorem uppercase_printable {cs : List Char} (h : ∀ c ∈ cs, Printable c) :
    uppercase cs = cs.map Char.toUpper :=
  uppercase_ascii fun c hc => (h c hc).2.trans (by decide)

theorem Spells.exists_shown (h : Spells text u x) :
    ∃ number between, u.NumberText number x ∧ Blank between ∧ (u = .none → between = []) ∧
      uppercase (trim text.toList) = number ++ between ++ u.letters := by
  obtain @⟨before, number, between, letters, after, split, hn, hl, hbefore, hbetween, hafter⟩ := h
  obtain ⟨hne, hprintable⟩ := hn.printable
  obtain ⟨hfirst, hlast⟩ := printable_ends hne hprintable
  have hletters := SizeUnit.printable_of_letters hl
  by_cases hu : letters = []
  · have hblank : Blank (between ++ after) := by
      intro c hc
      exact (List.mem_append.1 hc).elim (hbetween c) (hafter c)
    have htrim : trim text.toList = number := by
      rw [split, hu, List.append_nil, List.append_assoc]
      exact trim_between hbefore hblank hfirst hlast
    refine ⟨_, [], hn.map_toUpper, fun _ hc => absurd hc List.not_mem_nil, fun _ => rfl, ?_⟩
    rw [htrim, ← hl, hu, List.map_nil, List.append_nil, List.append_nil,
      uppercase_printable hprintable]
  · have htrim : trim text.toList = number ++ between ++ letters := by
      rw [split, List.append_assoc before, List.append_assoc before]
      refine trim_between hbefore hafter ?_ ?_
      · obtain ⟨c, hc, hs⟩ := hfirst
        exact ⟨c, by simp [Option.mem_def.1 hc], hs⟩
      · obtain ⟨c, hc, hs⟩ := (printable_ends hu hletters).2
        exact ⟨c, by simp [Option.mem_def.1 hc], hs⟩
    refine ⟨_, between, hn.map_toUpper, hbetween, fun hnone => ?_, ?_⟩
    · rw [hnone] at hl
      exact absurd (List.map_eq_nil_iff.1 hl) hu
    · rw [htrim, uppercase_append, uppercase_append, uppercase_printable hprintable,
        uppercase_blank hbetween, uppercase_printable hletters, hl]

theorem not_mem_unit_letters {c : Char} (h : c.isDigit = true ∨ isSpace c = true) :
    c ∉ ['G', 'M', 'K', 'B'] := by
  have hnone : (['G', 'M', 'K', 'B'].any fun d => d.isDigit || isSpace d) = false := by decide
  intro hc
  have hc := List.any_eq_false.1 hnone c hc
  exact hc (Bool.or_eq_true_iff.2 h)

theorem Spells.read_bytes (h : Spells text u x) (hu : u.power = 0) :
    ∃ n : ℕ, x = n ∧
      readSize text = if n < 2 ^ 64 then .ok n else .error (invalidSize text) := by
  obtain ⟨number, between, hn, hb, hnone, hshown⟩ := h.exists_shown
  rw [SizeUnit.NumberText, if_pos hu] at hn
  obtain ⟨hdigits, rfl⟩ := hn
  have hprintable : ∀ c ∈ number, Printable c :=
    fun c hc => printable_of_isDigit (hdigits.all c hc)
  have hbytes : bytes? (number ++ between ++ u.letters) = (readUnsigned number).toOption := by
    -- the last character before the letters is no letter of a unit, so no larger unit is seen there
    have hne : number ++ between ≠ [] := List.append_ne_nil_of_left_ne_nil hdigits.ne_nil _
    obtain ⟨cs, c, hconcat⟩ := (List.eq_nil_or_concat (number ++ between)).resolve_left hne
    have hlast := not_mem_unit_letters (c := c) (by
      have hmem : c ∈ number ++ between := by simp [hconcat]
      exact (List.mem_append.1 hmem).imp (hdigits.all c) (hb c))
    cases u with
    | none =>
      obtain rfl := hnone rfl
      rw [SizeUnit.letters, List.append_nil, hconcat, List.concat_eq_append,
        bytes?_plain (fun h => hlast (by simp [h]))]
      rw [List.append_nil, List.concat_eq_append] at hconcat
      rw [hconcat]
    | byte =>
      rw [SizeUnit.letters, hconcat, List.concat_eq_append, List.append_assoc]
      refine (bytes?_byte (fun h => hlast ?_) cs).trans ?_
      · exact List.mem_append_left ['B'] h
      · rw [← List.concat_eq_append, ← hconcat, trim_number hdigits.ne_nil hprintable hb]
    | kilobyte => cases hu
    | megabyte => cases hu
    | gigabyte => cases hu
  have hword : (2 : ℕ) ^ 64 = wordLimit := by decide
  refine ⟨_, rfl, ?_⟩
  rw [readSize_eq, hshown, hbytes, readUnsigned_eq hdigits, hword]
  by_cases hlt : denoted number < wordLimit
  · rw [if_pos hlt, if_pos hlt]
    rfl
  · rw [if_neg hlt, if_neg hlt]
    rfl

theorem Spells.read_larger (h : Spells text u x) (hu : u.power ≠ 0) :
    ∃ r, double.Nearest x r ∧ readSize text =
      if r < 2 ^ 1024 then .ok ⌊min (r * 2 ^ u.power) (2 ^ 64 - 1)⌋₊
      else .error (invalidSize text) := by
  obtain ⟨number, between, hn, hb, -, hshown⟩ := h.exists_shown
  rw [SizeUnit.NumberText, if_neg hu] at hn
  obtain ⟨r, hr, hscaled⟩ := scaled?_spec hn hb u.power
  refine ⟨r, hr, ?_⟩
  rw [readSize_eq, hshown, bytes?_larger hu, hscaled]
  by_cases hlt : r < 2 ^ 1024
  · rw [if_pos hlt, if_pos hlt]
  · rw [if_neg hlt, if_neg hlt]

theorem Spells.read_lt (h : Spells text u x) {n : ℕ} (hn : readSize text = .ok n) : n < 2 ^ 64 := by
  by_cases hu : u.power = 0
  · obtain ⟨m, -, hread⟩ := h.read_bytes hu
    rw [hread] at hn
    by_cases hlt : m < 2 ^ 64
    · rw [if_pos hlt] at hn
      cases hn
      exact hlt
    · rw [if_neg hlt] at hn
      cases hn
  · obtain ⟨r, -, hread⟩ := h.read_larger hu
    rw [hread] at hn
    by_cases hlt : r < 2 ^ 1024
    · rw [if_pos hlt, floor_min_word] at hn
      cases hn
      exact (min_le_right _ _).trans_lt (by decide)
    · rw [if_neg hlt] at hn
      cases hn

theorem Spells.read_exact (h : Spells text u x) {n p : ℕ} (hn : n ≤ 2 ^ 53)
    (hlt : n * 2 ^ p < 2 ^ 64) (hx : x * 2 ^ u.power = (n * 2 ^ p : ℕ)) :
    readSize text = .ok (n * 2 ^ p) := by
  by_cases hu : u.power = 0
  · obtain ⟨m, rfl, hread⟩ := h.read_bytes hu
    rw [hu, pow_zero, mul_one, Nat.cast_inj] at hx
    rw [hread, hx, if_pos hlt]
  · obtain ⟨r, hr, hread⟩ := h.read_larger hu
    have hpow : (0 : ℚ) < 2 ^ u.power := by positivity
    have hunit : u.power ≤ 30 := by cases u <;> decide
    obtain ⟨b, hb, hbx⟩ := double.exists_has (e := p - u.power) (by decide) hn
      (show (-1074 : ℤ) ≤ _ by omega)
    have hxb : b.value = x := by
      rw [hbx, zpow_sub₀ two_ne_zero, zpow_natCast, zpow_natCast, ← mul_div_assoc,
        div_eq_iff hpow.ne', hx]
      push_cast
      rfl
    obtain rfl := hr.eq_of_has hb hxb
    have hle : ((n * 2 ^ p : ℕ) : ℚ) ≤ 2 ^ 64 - 1 := by
      have hcast : ((n * 2 ^ p + 1 : ℕ) : ℚ) ≤ (2 ^ 64 : ℕ) := Nat.cast_le.2 hlt
      push_cast at hcast ⊢
      linarith
    have hfinite : r < 2 ^ 1024 := by
      have hone : r ≤ r * 2 ^ u.power :=
        le_mul_of_one_le_right (hxb ▸ b.value_nonneg) (one_le_pow₀ one_le_two)
      calc r ≤ 2 ^ 64 - 1 := by linarith
        _ < 2 ^ 64 := sub_one_lt _
        _ ≤ 2 ^ 1024 := pow_le_pow_right₀ one_le_two (by decide)
    rw [hread, if_pos hfinite, hx, min_eq_left hle, Nat.floor_natCast]

theorem Spells.read_mono (h : Spells text u x) {text' : String} {y : ℚ} (h' : Spells text' u y)
    (hxy : x ≤ y) {n' : ℕ} (hn' : readSize text' = .ok n') :
    ∃ n ≤ n', readSize text = .ok n := by
  by_cases hu : u.power = 0
  · obtain ⟨m, rfl, hread⟩ := h.read_bytes hu
    obtain ⟨m', rfl, hread'⟩ := h'.read_bytes hu
    rw [hread'] at hn'
    by_cases hlt : m' < 2 ^ 64
    · rw [if_pos hlt] at hn'
      cases hn'
      have hle : m ≤ n' := Nat.cast_le.1 hxy
      exact ⟨m, hle, by rw [hread, if_pos (hle.trans_lt hlt)]⟩
    · rw [if_neg hlt] at hn'
      cases hn'
  · obtain ⟨r, hr, hread⟩ := h.read_larger hu
    obtain ⟨s, hs, hread'⟩ := h'.read_larger hu
    have hrs := hr.mono (by decide) hs hxy
    rw [hread'] at hn'
    by_cases hlt : s < 2 ^ 1024
    · rw [if_pos hlt] at hn'
      cases hn'
      refine ⟨_, Nat.floor_mono (min_le_min_right _ ?_), by rw [hread, if_pos (hrs.trans_lt hlt)]⟩
      gcongr
    · rw [if_neg hlt] at hn'
      cases hn'

end

structure ReadAs (text : String) (u : SizeUnit) (x : ℚ) : Prop where
  bytes : u.power = 0 → ∃ n : ℕ, x = n ∧
    readSize text = if n < 2 ^ 64 then .ok n else .error (invalidSize text)
  larger : u.power ≠ 0 → ∃ r, double.Nearest x r ∧ (∀ s, double.Nearest x s → s = r) ∧
    readSize text = if r < 2 ^ 1024 then .ok ⌊min (r * 2 ^ u.power) (2 ^ 64 - 1)⌋₊
      else .error (invalidSize text)
  word : ∀ n, readSize text = .ok n → n < 2 ^ 64
  whole : ∀ n : ℕ, x = n → n ≤ 2 ^ 53 → n * 2 ^ u.power < 2 ^ 64 →
    readSize text = .ok (n * 2 ^ u.power)
  mono : ∀ text' y n', Spells text' u y → x ≤ y → readSize text' = .ok n' →
    ∃ n ≤ n', readSize text = .ok n
  otherUnit : ∀ n : ℕ, x = n → n ≤ 2 ^ 53 → n * 2 ^ u.power < 2 ^ 64 →
    ∀ text' u' y, Spells text' u' y → y * 2 ^ u'.power = x * 2 ^ u.power →
      readSize text' = readSize text

/-- A size is read as the number of bytes that its number of units comes to when it is rounded as a
floating-point number. There is no error but for numbers that are not finite then, and for numbers
of bytes that do not fit into a word. -/
theorem readAs_of_spells {text : String} {u : SizeUnit} {x : ℚ} (h : Spells text u x) :
    ReadAs text u x where
  bytes := h.read_bytes
  larger hu := by
    obtain ⟨r, hr, hread⟩ := h.read_larger hu
    exact ⟨r, hr, fun s hs => hs.unique (by decide) hr, hread⟩
  word _ := h.read_lt
  whole n hx hn hlt := h.read_exact hn hlt (by rw [hx, Nat.cast_mul, Nat.cast_pow, Nat.cast_ofNat])
  mono _ _ _ h' hxy := h.read_mono h' hxy
  otherUnit n hx hn hlt text' u' y h' hy := by
    have hbytes : x * 2 ^ u.power = (n * 2 ^ u.power : ℕ) := by
      rw [hx, Nat.cast_mul, Nat.cast_pow, Nat.cast_ofNat]
    rw [h.read_exact hn hlt hbytes, h'.read_exact hn hlt (hy.trans hbytes)]

theorem readAs_kilobytes :
    Spells " 1.5e3 kB\n" .kilobyte 1500 ∧ ReadAs " 1.5e3 kB\n" .kilobyte 1500 ∧
      readSize " 1.5e3 kB\n" = .ok 1536000 := by
  have hexponent : ExponentText ['e', '3'] (1 * denoted ['3']) :=
    @ExponentText.given 'e' [] 1 ['3'] (.inl rfl) .none ⟨by decide, List.all_eq_true.1 (by decide)⟩
      (by decide)
  have hnumeral := @NumeralText.point ['1'] ['5'] _ _
    ⟨by decide, List.all_eq_true.1 (by decide)⟩ hexponent
  have hvalue : ((denoted ['1'] : ℚ) + denoted ['5'] / 10 ^ ['5'].length) *
      10 ^ (1 * denoted ['3'] : ℤ) = 1500 := by
    have hone : denoted ['1'] = 1 := by decide
    have hfive : denoted ['5'] = 5 := by decide
    have hthree : denoted ['3'] = 3 := by decide
    rw [hone, hfive, hthree]
    norm_num
  have hspells : Spells " 1.5e3 kB\n" .kilobyte 1500 :=
    @Spells.intro _ _ _ [' '] _ [' '] ['k', 'B'] ['\n'] (by decide) (hvalue ▸ hnumeral)
      (by decide) (by decide) (by decide) (by decide)
  have h := readAs_of_spells hspells
  exact ⟨hspells, h, h.whole 1500 (by norm_num) (by decide) (by decide)⟩

end MethodExtraction.Numeric
