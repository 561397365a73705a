import MethodExtraction.Proofs.Text.Encoding

namespace MethodExtraction.Text.Utf8

/-- Bytes that lie in the ranges one after the other, as far as they go. -/
def Along : List ByteRange → List UInt8 → Prop
  | _, [] => True
  | [], _ :: _ => False
  | r :: rs, b :: bs => r.has b = true ∧ Along rs bs

theorem has_iff {r : ByteRange} {b : UInt8} :
    r.has b = true ↔ r.low.toNat ≤ b.toNat ∧ b.toNat ≤ r.high.toNat := by
  rw [ByteRange.has, Bool.and_eq_true, decide_eq_true_eq, decide_eq_true_eq,
    UInt8.le_iff_toNat_le, UInt8.le_iff_toNat_le]

theorem has_tail_iff {b : UInt8} : tail.has b = true ↔ 0x80 ≤ b.toNat ∧ b.toNat ≤ 0xBF := has_iff

theorem toNat_val_ofNat {n : Nat} (h : n < 0xD800 ∨ (0xDFFF < n ∧ n < 0x110000)) :
    (Char.ofNat n).val.toNat = n := by
  rw [Char.ofNat, dif_pos h]
  rfl

theorem ofNat_eq {n : Nat} {b : UInt8} (h : n = b.toNat) : UInt8.ofNat n = b := by
  rw [h, UInt8.ofNat_toNat]

section Scalar

variable {a b c d : UInt8}

theorem utf8EncodeChar_one (ha : a.toNat < 0x80) :
    String.utf8EncodeChar (scalar a []) = [a] := by
  have hn := toNat_val_ofNat (n := a.toNat) (.inl (by omega))
  rw [scalar, List.foldl_nil, List.length_nil, payload, String.utf8EncodeChar, hn,
    if_pos (by omega), UInt8.ofNat_toNat]

theorem utf8EncodeChar_two (ha : 0xC2 ≤ a.toNat ∧ a.toNat < 0xE0) (hb : tail.has b = true) :
    String.utf8EncodeChar (scalar a [b]) = [a, b] := by
  rw [has_tail_iff] at hb
  have hn := toNat_val_ofNat (n := a.toNat % 32 * 64 + b.toNat % 64) (.inl (by omega))
  change String.utf8EncodeChar (Char.ofNat (a.toNat % 32 * 64 + b.toNat % 64)) = _
  rw [String.utf8EncodeChar, hn, if_neg (by omega), if_pos (by omega), ofNat_eq (b := a) (by omega),
    ofNat_eq (b := b) (by omega)]

theorem utf8EncodeChar_three (ha : 0xE0 ≤ a.toNat ∧ a.toNat < 0xF0) (hb : tail.has b = true)
    (hc : tail.has c = true) (hlow : a.toNat = 0xE0 → 0xA0 ≤ b.toNat)
    (hhigh : a.toNat = 0xED → b.toNat ≤ 0x9F) :
    String.utf8EncodeChar (scalar a [b, c]) = [a, b, c] := by
  rw [has_tail_iff] at hb hc
  have hn := toNat_val_ofNat
    (n := (a.toNat % 16 * 64 + b.toNat % 64) * 64 + c.toNat % 64) (by omega)
  change String.utf8EncodeChar
    (Char.ofNat ((a.toNat % 16 * 64 + b.toNat % 64) * 64 + c.toNat % 64)) = _
  rw [String.utf8EncodeChar, hn, if_neg (by omega), if_neg (by omega), if_pos (by omega),
    ofNat_eq (b := a) (by omega), ofNat_eq (b := b) (by omega), ofNat_eq (b := c) (by omega)]

theorem utf8EncodeChar_four (ha : 0xF0 ≤ a.toNat ∧ a.toNat ≤ 0xF4) (hb : tail.has b = true)
    (hc : tail.has c = true) (hd : tail.has d = true) (hlow : a.toNat = 0xF0 → 0x90 ≤ b.toNat)
    (hhigh : a.toNat = 0xF4 → b.toNat ≤ 0x8F) :
    String.utf8EncodeChar (scalar a [b, c, d]) = [a, b, c, d] := by
  rw [has_tail_iff] at hb hc hd
  have hn := toNat_val_ofNat
    (n := ((a.toNat % 8 * 64 + b.toNat % 64) * 64 + c.toNat % 64) * 64 + d.toNat % 64) (by omega)
  change String.utf8EncodeChar
    (Char.ofNat (((a.toNat % 8 * 64 + b.toNat % 64) * 64 + c.toNat % 64) * 64 + d.toNat % 64)) = _
  rw [String.utf8EncodeChar, hn, if_neg (by omega), if_neg (by omega), if_neg (by omega),
    ofNat_eq (b := a) (by omega), ofNat_eq (b := b) (by omega), ofNat_eq (b := c) (by omega),
    ofNat_eq (b := d) (by omega)]

end Scalar

inductive Form (a : UInt8) : List UInt8 → Prop where
  | one (ha : a.toNat < 0x80) : Form a []
  | two {b : UInt8} (ha : 0xC2 ≤ a.toNat ∧ a.toNat < 0xE0) (hb : tail.has b = true) : Form a [b]
  | three {b c : UInt8} (ha : 0xE0 ≤ a.toNat ∧ a.toNat < 0xF0) (hb : tail.has b = true)
      (hc : tail.has c = true) (hlow : a.toNat = 0xE0 → 0xA0 ≤ b.toNat)
      (hhigh : a.toNat = 0xED → b.toNat ≤ 0x9F) : Form a [b, c]
  | four {b c d : UInt8} (ha : 0xF0 ≤ a.toNat ∧ a.toNat ≤ 0xF4) (hb : tail.has b = true)
      (hc : tail.has c = true) (hd : tail.has d = true) (hlow : a.toNat = 0xF0 → 0x90 ≤ b.toNat)
      (hhigh : a.toNat = 0xF4 → b.toNat ≤ 0x8F) : Form a [b, c, d]

theorem Form.utf8EncodeChar {a : UInt8} {bs : List UInt8} (h : Form a bs) :
    String.utf8EncodeChar (scalar a bs) = a :: bs := by
  cases h with
  | one ha => exact utf8EncodeChar_one ha
  | two ha hb => exact utf8EncodeChar_two ha hb
  | three ha hb hc hlow hhigh => exact utf8EncodeChar_three ha hb hc hlow hhigh
  | four ha hb hc hd hlow hhigh => exact utf8EncodeChar_four ha hb hc hd hlow hhigh

theorem exists_form (c : Char) : ∃ a bs, String.utf8EncodeChar c = a :: bs ∧ Form a bs := by
  have hv : c.val.toNat < 0xD800 ∨ (0xDFFF < c.val.toNat ∧ c.val.toNat < 0x110000) := c.valid
  rw [String.utf8EncodeChar]
  split_ifs with h1 h2 h3
  · exact ⟨_, _, rfl, .one (by rw [UInt8.toNat_ofNat']; omega)⟩
  · refine ⟨_, _, rfl, .two ?_ ?_⟩ <;> simp only [has_tail_iff, UInt8.toNat_ofNat'] <;> omega
  · refine ⟨_, _, rfl, .three ?_ ?_ ?_ ?_ ?_⟩ <;>
      simp only [has_tail_iff, UInt8.toNat_ofNat'] <;> omega
  · refine ⟨_, _, rfl, .four ?_ ?_ ?_ ?_ ?_ ?_⟩ <;>
      simp only [has_tail_iff, UInt8.toNat_ofNat'] <;> omega

section Followers

variable {a : UInt8}

theorem followers?_one (ha : a.toNat < 0x80) : followers? a = some [] := if_pos ha

theorem followers?_two (ha : 0xC2 ≤ a.toNat ∧ a.toNat < 0xE0) : followers? a = some [tail] := by
  simp only [followers?, UInt8.lt_iff_toNat_lt, UInt8.toNat_ofNat]
  rw [if_neg (by omega), if_neg (by omega), if_pos (by omega)]

theorem followers?_three (ha : 0xE0 ≤ a.toNat ∧ a.toNat < 0xF0) : followers? a =
    some [⟨if a.toNat = 0xE0 then 0xA0 else 0x80, if a.toNat = 0xED then 0x9F else 0xBF⟩,
      tail] := by
  simp only [followers?, UInt8.lt_iff_toNat_lt, ← UInt8.toNat_inj, UInt8.toNat_ofNat]
  rw [if_neg (by omega), if_neg (by omega), if_neg (by omega)]
  by_cases hlow : a.toNat = 0xE0
  · rw [if_pos hlow, if_pos hlow, if_neg (by omega)]
  · by_cases hhigh : a.toNat = 0xED
    · rw [if_neg hlow, if_pos hhigh, if_neg hlow, if_pos hhigh]
    · rw [if_neg hlow, if_neg hhigh, if_pos ha.2, if_neg hlow, if_neg hhigh]
      rfl

theorem followers?_four (ha : 0xF0 ≤ a.toNat ∧ a.toNat ≤ 0xF4) : followers? a =
    some [⟨if a.toNat = 0xF0 then 0x90 else 0x80, if a.toNat = 0xF4 then 0x8F else 0xBF⟩, tail,
      tail] := by
  simp only [followers?, UInt8.lt_iff_toNat_lt, ← UInt8.toNat_inj, UInt8.toNat_ofNat]
  rw [if_neg (by omega), if_neg (by omega), if_neg (by omega), if_neg (by omega), if_neg (by omega),
    if_neg (by omega)]
  by_cases hlow : a.toNat = 0xF0
  · rw [if_pos hlow, if_pos hlow, if_neg (by omega)]
  · by_cases hhigh : a.toNat = 0xF4
    · rw [if_neg hlow, if_neg (by omega), if_pos hhigh, if_neg hlow, if_pos hhigh]
    · rw [if_neg hlow, if_pos (by omega), if_neg hlow, if_neg hhigh]
      rfl

theorem followers?_none (ha : (0x80 ≤ a.toNat ∧ a.toNat < 0xC2) ∨ 0xF4 < a.toNat) :
    followers? a = none := by
  simp only [followers?, UInt8.lt_iff_toNat_lt, ← UInt8.toNat_inj, UInt8.toNat_ofNat]
  rw [if_neg (by omega)]
  obtain ha | ha := ha
  · rw [if_pos ha.2]
  · rw [if_neg (by omega), if_neg (by omega), if_neg (by omega), if_neg (by omega),
      if_neg (by omega), if_neg (by omega), if_neg (by omega), if_neg (by omega)]

theorem followers?_cases (a : UInt8) :
    a.toNat < 0x80 ∨ (0xC2 ≤ a.toNat ∧ a.toNat < 0xE0) ∨ (0xE0 ≤ a.toNat ∧ a.toNat < 0xF0) ∨
      (0xF0 ≤ a.toNat ∧ a.toNat ≤ 0xF4) ∨ followers? a = none := by
  by_cases h : (0x80 ≤ a.toNat ∧ a.toNat < 0xC2) ∨ 0xF4 < a.toNat
  · exact .inr (.inr (.inr (.inr (followers?_none h))))
  · omega

theorem low_le_iff {p : Prop} [Decidable p] {low : UInt8} {n : Nat} (hlow : 0x80 ≤ low.toNat) :
    (if p then low else 0x80).toNat ≤ n ↔ 0x80 ≤ n ∧ (p → low.toNat ≤ n) := by
  by_cases hp : p
  · rw [if_pos hp]
    exact ⟨fun h => ⟨Nat.le_trans hlow h, fun _ => h⟩, fun h => h.2 hp⟩
  · rw [if_neg hp]
    exact ⟨fun h => ⟨h, fun hp' => absurd hp' hp⟩, fun h => h.1⟩

theorem le_high_iff {p : Prop} [Decidable p] {high : UInt8} {n : Nat} (hhigh : high.toNat ≤ 0xBF) :
    n ≤ (if p then high else 0xBF).toNat ↔ n ≤ 0xBF ∧ (p → n ≤ high.toNat) := by
  by_cases hp : p
  · rw [if_pos hp]
    exact ⟨fun h => ⟨Nat.le_trans h hhigh, fun _ => h⟩, fun h => h.2 hp⟩
  · rw [if_neg hp]
    exact ⟨fun h => ⟨h, fun hp' => absurd hp' hp⟩, fun h => h.1⟩

theorem has_limited_iff {b low high : UInt8} {p q : Prop} [Decidable p] [Decidable q]
    (hlow : 0x80 ≤ low.toNat) (hhigh : high.toNat ≤ 0xBF) :
    (ByteRange.mk (if p then low else 0x80) (if q then high else 0xBF)).has b = true ↔
      tail.has b = true ∧ (p → low.toNat ≤ b.toNat) ∧ (q → b.toNat ≤ high.toNat) := by
  rw [has_iff, has_tail_iff, low_le_iff hlow, le_high_iff hhigh, and_and_and_comm]

end Followers

theorem form_iff {a : UInt8} {bs : List UInt8} : Form a bs ↔
    ∃ ranges, followers? a = some ranges ∧ Along ranges bs ∧ bs.length = ranges.length := by
  constructor
  · intro h
    cases h with
    | one ha => exact ⟨_, followers?_one ha, trivial, rfl⟩
    | two ha hb => exact ⟨_, followers?_two ha, ⟨hb, trivial⟩, rfl⟩
    | three ha hb hc hlow hhigh =>
      refine ⟨_, followers?_three ha, ⟨?_, hc, trivial⟩, rfl⟩
      exact (has_limited_iff (by decide) (by decide)).2 ⟨hb, hlow, hhigh⟩
    | four ha hb hc hd hlow hhigh =>
      refine ⟨_, followers?_four ha, ⟨?_, hc, hd, trivial⟩, rfl⟩
      exact (has_limited_iff (by decide) (by decide)).2 ⟨hb, hlow, hhigh⟩
  · rintro ⟨ranges, hf, hbs, hl⟩
    obtain ha | ha | ha | ha | ha := followers?_cases a
    · obtain rfl := Option.some.inj ((followers?_one ha).symm.trans hf)
      obtain rfl := List.length_eq_zero_iff.1 hl
      exact .one ha
    · obtain rfl := Option.some.inj ((followers?_two ha).symm.trans hf)
      obtain ⟨b, rfl⟩ := List.length_eq_one_iff.1 hl
      exact .two ha hbs.1
    · obtain rfl := Option.some.inj ((followers?_three ha).symm.trans hf)
      obtain ⟨b, c, rfl⟩ := List.length_eq_two.1 hl
      obtain ⟨hb, hlow, hhigh⟩ := (has_limited_iff (by decide) (by decide)).1 hbs.1
      exact .three ha hb hbs.2.1 hlow hhigh
    · obtain rfl := Option.some.inj ((followers?_four ha).symm.trans hf)
      obtain ⟨b, c, d, rfl⟩ := List.length_eq_three.1 hl
      obtain ⟨hb, hlow, hhigh⟩ := (has_limited_iff (by decide) (by decide)).1 hbs.1
      exact .four ha hb hbs.2.1 hbs.2.2.1 hlow hhigh
    · rw [ha] at hf
      cases hf


theorem Along.of_prefix {rs : List ByteRange} {bs cs : List UInt8} (h : Along rs bs)
    (hp : cs <+: bs) : Along rs cs := by
  induction cs generalizing rs bs with
  | nil => cases rs <;> trivial
  | cons c cs ih =>
    obtain ⟨bs, rfl, hcs⟩ := List.cons_prefix_iff.1 hp
    cases rs with
    | nil => exact h
    | cons r rs => exact ⟨h.1, ih h.2 hcs⟩

theorem Along.length_le {rs : List ByteRange} {bs : List UInt8} (h : Along rs bs) :
    bs.length ≤ rs.length := by
  induction bs generalizing rs with
  | nil => exact Nat.zero_le _
  | cons b bs ih =>
    cases rs with
    | nil => exact h.elim
    | cons r rs => exact Nat.succ_le_succ (ih h.2)

theorem Along.exists_append {rs : List ByteRange} {bs : List UInt8} (h : Along rs bs)
    (hr : ∀ r ∈ rs, r.has r.low = true) :
    ∃ more, Along rs (bs ++ more) ∧ (bs ++ more).length = rs.length := by
  induction rs generalizing bs with
  | nil => exact ⟨[], by simpa using h, by simpa using h.length_le⟩
  | cons r rs ih =>
    obtain ⟨hr, hrs⟩ := List.forall_mem_cons.1 hr
    cases bs with
    | nil =>
      have hnil : Along rs [] := by cases rs <;> trivial
      obtain ⟨more, ha, hl⟩ := ih hnil hrs
      exact ⟨r.low :: more, ⟨hr, ha⟩, congrArg (· + 1) hl⟩
    | cons b bs =>
      obtain ⟨more, ha, hl⟩ := ih h.2 hrs
      exact ⟨more, ⟨h.1, ha⟩, congrArg (· + 1) hl⟩

theorem has_low_of_followers? {a : UInt8} {ranges : List ByteRange}
    (h : followers? a = some ranges) : ∀ r ∈ ranges, r.has r.low = true := by
  have ht : tail.has tail.low = true := rfl
  obtain ha | ha | ha | ha | ha := followers?_cases a
  · obtain rfl := Option.some.inj ((followers?_one ha).symm.trans h)
    exact List.forall_mem_nil _
  · obtain rfl := Option.some.inj ((followers?_two ha).symm.trans h)
    exact List.forall_mem_singleton.2 ht
  · obtain rfl := Option.some.inj ((followers?_three ha).symm.trans h)
    refine List.forall_mem_cons.2 ⟨?_, List.forall_mem_singleton.2 ht⟩
    split_ifs with hlow hhigh
    · exact absurd (hlow.symm.trans hhigh) (by decide)
    all_goals rfl
  · obtain rfl := Option.some.inj ((followers?_four ha).symm.trans h)
    refine List.forall_mem_cons.2 ⟨?_, List.forall_mem_cons.2 ⟨ht, List.forall_mem_singleton.2 ht⟩⟩
    split_ifs with hlow hhigh
    · exact absurd (hlow.symm.trans hhigh) (by decide)
    all_goals rfl
  · rw [ha] at h
    cases h

theorem split_append (rs : List ByteRange) (bs : List UInt8) :
    (split rs bs).1 ++ (split rs bs).2 = bs := by
  fun_induction split rs bs with
  | case1 r rs b bs h ih => exact congrArg (b :: ·) ih
  | case2 => rfl
  | case3 => rfl

theorem along_split (rs : List ByteRange) (bs : List UInt8) : Along rs (split rs bs).1 := by
  fun_induction split rs bs with
  | case1 r rs b bs h ih => exact ⟨h, ih⟩
  | case2 => trivial
  | case3 rs => cases rs <;> trivial

theorem Along.length_le_split {rs : List ByteRange} {bs more : List UInt8} (h : Along rs more)
    (hp : more <+: bs) : more.length ≤ (split rs bs).1.length := by
  fun_induction split rs bs generalizing more with
  | case1 r rs b bs hb ih =>
    cases more with
    | nil => exact Nat.zero_le _
    | cons c more => exact Nat.succ_le_succ (ih h.2 (List.cons_prefix_cons.1 hp).2)
  | case2 r rs b bs hb =>
    cases more with
    | nil => exact Nat.zero_le _
    | cons c more =>
      obtain ⟨rfl, -⟩ := List.cons_prefix_cons.1 hp
      exact absurd h.1 hb
  | case3 rs bs hn =>
    cases more with
    | nil => exact Nat.zero_le _
    | cons c more =>
      cases rs with
      | nil => exact h.elim
      | cons r rs =>
        obtain ⟨bs, rfl, -⟩ := List.cons_prefix_iff.1 hp
        exact absurd rfl (hn r rs c bs rfl)

def Opens (bytes : List UInt8) : Prop := ∃ c : Char, bytes <+: String.utf8EncodeChar c

theorem opens_cons_iff {a : UInt8} {bs : List UInt8} :
    Opens (a :: bs) ↔ ∃ ranges, followers? a = some ranges ∧ Along ranges bs := by
  constructor
  · rintro ⟨c, hc⟩
    obtain ⟨a', bs', he, hf⟩ := exists_form c
    rw [he] at hc
    obtain ⟨rfl, hp⟩ := List.cons_prefix_cons.1 hc
    obtain ⟨ranges, hr, ha, -⟩ := form_iff.1 hf
    exact ⟨ranges, hr, ha.of_prefix hp⟩
  · rintro ⟨ranges, hr, ha⟩
    obtain ⟨more, ha, hl⟩ := ha.exists_append (has_low_of_followers? hr)
    refine ⟨scalar a (bs ++ more), ?_⟩
    rw [(form_iff.2 ⟨ranges, hr, ha, hl⟩).utf8EncodeChar]
    exact List.prefix_append (a :: bs) more

theorem utf8EncodeChar_prefix_cons {c : Char} {a : UInt8} {bs : List UInt8}
    (h : String.utf8EncodeChar c <+: a :: bs) : ∃ cs ranges, String.utf8EncodeChar c = a :: cs ∧
      cs <+: bs ∧ followers? a = some ranges ∧ Along ranges cs ∧ cs.length = ranges.length := by
  obtain ⟨a', cs, he, hf⟩ := exists_form c
  rw [he] at h
  obtain ⟨rfl, hp⟩ := List.cons_prefix_cons.1 h
  obtain ⟨ranges, hr, ha, hl⟩ := form_iff.1 hf
  exact ⟨cs, ranges, he, hp, hr, ha, hl⟩

theorem utf8EncodeChar_injective : Function.Injective String.utf8EncodeChar := by
  intro c d h
  have he : encode (String.singleton c) = encode (String.singleton d) := by
    rw [encode_eq_flatMap, encode_eq_flatMap, String.toList_singleton, String.toList_singleton,
      List.flatMap_singleton, List.flatMap_singleton, h]
  have hs := congrArg String.toList (encode_injective he)
  rw [String.toList_singleton, String.toList_singleton] at hs
  exact List.singleton_inj.1 hs

theorem utf8EncodeChar_unique {c d : Char} {bs cs : List UInt8}
    (h : String.utf8EncodeChar c ++ bs = String.utf8EncodeChar d ++ cs) : c = d := by
  obtain ⟨a, cs', he, hf⟩ := exists_form d
  obtain ⟨ranges, hr, -, hl⟩ := form_iff.1 hf
  have hp : String.utf8EncodeChar c <+: a :: (cs' ++ cs) := by
    rw [← List.cons_append, ← he, ← h]
    exact List.prefix_append ..
  obtain ⟨bs', ranges', he', -, hr', -, hl'⟩ := utf8EncodeChar_prefix_cons hp
  obtain rfl := Option.some.inj (hr.symm.trans hr')
  rw [he, he'] at h
  refine utf8EncodeChar_injective ?_
  rw [he, he', (List.append_inj h (by simp [hl, hl'])).1]

theorem Form.not_has_tail {a : UInt8} {bs : List UInt8} (h : Form a bs) : tail.has a = false := by
  refine Bool.eq_false_iff.2 fun ht => ?_
  rw [has_tail_iff] at ht
  cases h <;> omega

theorem Form.has_tail {a : UInt8} {bs : List UInt8} (h : Form a bs) :
    ∀ b ∈ bs, tail.has b = true := by
  cases h with
  | one => exact List.forall_mem_nil _
  | two ha hb => exact List.forall_mem_singleton.2 hb
  | three ha hb hc => exact List.forall_mem_cons.2 ⟨hb, List.forall_mem_singleton.2 hc⟩
  | four ha hb hc hd =>
    exact List.forall_mem_cons.2 ⟨hb, List.forall_mem_cons.2 ⟨hc, List.forall_mem_singleton.2 hd⟩⟩

theorem not_has_tail_of_encode {v : String} {b : UInt8} {rest : List UInt8}
    (h : encode v = b :: rest) : tail.has b = false := by
  rw [encode_eq_flatMap] at h
  cases hv : v.toList with
  | nil =>
    rw [hv] at h
    cases h
  | cons c cs =>
    obtain ⟨a, bs, he, hf⟩ := exists_form c
    rw [hv, List.flatMap_cons, he] at h
    rw [← (List.cons.inj h).1]
    exact hf.not_has_tail

/-- The bytes of a character do not go on into a text that stands behind some of them. -/
theorem prefix_of_prefix_append_encode {c : Char} {front bs : List UInt8} {v : String}
    (hne : front ≠ []) (hp : bs <+: front ++ encode v) (hc : bs <+: String.utf8EncodeChar c) :
    bs <+: front := by
  obtain ⟨rest, he⟩ := hp
  obtain ⟨more, rfl, -⟩ | ⟨more, rfl, hv⟩ := List.append_eq_append_iff.1 he
  · exact List.prefix_append ..
  · cases more with
    | nil => simp
    | cons b more =>
      obtain ⟨f, fs, rfl⟩ := List.exists_cons_of_ne_nil hne
      obtain ⟨a, cs, hcs, hf⟩ := exists_form c
      rw [hcs] at hc
      have hb := hf.has_tail b ((List.cons_prefix_cons.1 hc).2.subset (by simp))
      exact absurd hb (Bool.eq_false_iff.1 (not_has_tail_of_encode hv))

end MethodExtraction.Text.Utf8
