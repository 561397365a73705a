import Mathlib.Algebra.Order.Field.Power
import Mathlib.Algebra.Order.Floor.Semifield
import Mathlib.Data.Rat.Floor
import Mathlib.Tactic.FieldSimp
import Mathlib.Tactic.Linarith
import Mathlib.Tactic.LinearCombination
import Mathlib.Tactic.NormNum
import Mathlib.Tactic.Positivity
import Mathlib.Tactic.Ring
import MethodExtraction.Numeric.Binary

namespace MethodExtraction.Numeric

namespace Ratio

def value (r : Ratio) : ℚ := r.upper / r.lower

variable {r : Ratio}

theorem value_shift (r : Ratio) (e : ℤ) : (r.shift e).value = r.value * 2 ^ e := by
  obtain ⟨n, rfl | rfl⟩ := e.eq_nat_or_neg
  · simp only [value, shift, Int.toNat_natCast, Int.toNat_neg_natCast, Nat.shiftLeft_eq, pow_zero,
      mul_one, Nat.cast_mul, Nat.cast_pow, Nat.cast_ofNat, zpow_natCast]
    ring
  · simp only [value, shift, Int.toNat_natCast, Int.toNat_neg_natCast, Nat.shiftLeft_eq, pow_zero,
      mul_one, Nat.cast_mul, Nat.cast_pow, Nat.cast_ofNat, zpow_neg, zpow_natCast, neg_neg]
    rw [div_mul_eq_div_div]
    rfl

theorem lower_shift_pos (h : 0 < r.lower) (e : ℤ) : 0 < (r.shift e).lower := by
  change 0 < r.lower <<< (-e).toNat
  rw [Nat.shiftLeft_eq]
  exact Nat.mul_pos h (Nat.two_pow_pos _)

theorem upper_lt_lower_iff (h : 0 < r.lower) : r.upper < r.lower ↔ r.value < 1 := by
  rw [value, div_lt_one (by exact_mod_cast h), Nat.cast_lt]

theorem floor_eq (r : Ratio) : r.floor = ⌊r.value⌋₊ := (Nat.floor_div_eq_div r.upper r.lower).symm

theorem cast_log2_le {n : ℕ} (h : n ≠ 0) : (2 : ℚ) ^ (Nat.log2 n : ℤ) ≤ n := by
  rw [zpow_natCast]
  exact_mod_cast Nat.log2_self_le h

theorem lt_cast_log2 (n : ℕ) : (n : ℚ) < 2 ^ ((Nat.log2 n : ℤ) + 1) := by
  have h : n < 2 ^ (Nat.log2 n + 1) := Nat.lt_log2_self
  exact_mod_cast h

theorem log2_spec (h : 0 < r.lower) (hu : r.upper ≠ 0) :
    (2 : ℚ) ^ r.log2 ≤ r.value ∧ r.value < 2 ^ (r.log2 + 1) := by
  have hpos : (0 : ℚ) < r.lower := by exact_mod_cast h
  have hlow : (2 : ℚ) ^ ((Nat.log2 r.upper : ℤ) - Nat.log2 r.lower - 1) ≤ r.value := by
    rw [sub_sub, zpow_sub₀ two_ne_zero, value]
    exact div_le_div₀ (Nat.cast_nonneg _) (cast_log2_le hu) hpos (lt_cast_log2 _).le
  have hhigh : r.value < (2 : ℚ) ^ ((Nat.log2 r.upper : ℤ) - Nat.log2 r.lower + 1) := by
    rw [sub_add_eq_add_sub, zpow_sub₀ two_ne_zero, value]
    exact div_lt_div₀ (lt_cast_log2 _) (cast_log2_le h.ne') (by positivity) (by positivity)
  rw [log2]
  generalize (Nat.log2 r.upper : ℤ) - Nat.log2 r.lower = e at hlow hhigh
  have hs : (r.shift (-e)).upper < (r.shift (-e)).lower ↔ r.value < 2 ^ e := by
    rw [upper_lt_lower_iff (lower_shift_pos h _), value_shift, zpow_neg, ← div_eq_mul_inv,
      div_lt_one (by positivity)]
  by_cases hlt : (r.shift (-e)).upper < (r.shift (-e)).lower
  · rw [if_pos hlt, sub_add_cancel]
    exact ⟨hlow, hs.1 hlt⟩
  · rw [if_neg hlt]
    exact ⟨not_lt.1 (mt hs.2 hlt), hhigh⟩

theorem nearest_spec (h : 0 < r.lower) :
    |r.value - r.nearest| ≤ 1 / 2 ∧ (|r.value - r.nearest| = 1 / 2 → r.nearest % 2 = 0) := by
  have hpos : (0 : ℚ) < r.lower := by exact_mod_cast h
  have hrest : r.upper % r.lower < r.lower := Nat.mod_lt _ h
  have hv : r.value = (r.upper / r.lower : ℕ) + (r.upper % r.lower : ℕ) / (r.lower : ℚ) := by
    have hdiv : (r.upper : ℚ) = r.lower * (r.upper / r.lower : ℕ) + (r.upper % r.lower : ℕ) := by
      exact_mod_cast (Nat.div_add_mod r.upper r.lower).symm
    rw [value, hdiv]
    field_simp
  have hnonneg : 0 ≤ (r.upper % r.lower : ℕ) / (r.lower : ℚ) := by positivity
  have hlt : 2 * (r.upper % r.lower) < r.lower ↔
      (r.upper % r.lower : ℕ) / (r.lower : ℚ) < 1 / 2 := by
    rw [div_lt_iff₀ hpos, ← Nat.cast_lt (α := ℚ), Nat.cast_mul, Nat.cast_two]
    constructor <;> intro <;> linarith
  have hgt : r.lower < 2 * (r.upper % r.lower) ↔
      1 / 2 < (r.upper % r.lower : ℕ) / (r.lower : ℚ) := by
    rw [lt_div_iff₀ hpos, ← Nat.cast_lt (α := ℚ), Nat.cast_mul, Nat.cast_two]
    constructor <;> intro <;> linarith
  have hone : (r.upper % r.lower : ℕ) / (r.lower : ℚ) < 1 := by
    rw [div_lt_one hpos, Nat.cast_lt]
    exact hrest
  rw [nearest, hv]
  generalize ((r.upper % r.lower : ℕ) : ℚ) / r.lower = t at *
  generalize r.upper / r.lower = q
  by_cases h1 : 2 * (r.upper % r.lower) < r.lower
  · rw [if_pos h1, add_sub_cancel_left, abs_of_nonneg hnonneg]
    have h1 := hlt.1 h1
    exact ⟨h1.le, fun he => absurd he h1.ne⟩
  · by_cases h2 : r.lower < 2 * (r.upper % r.lower)
    · rw [if_neg h1, if_pos h2, Nat.cast_succ, add_sub_add_left_eq_sub,
        abs_of_neg (by linarith), neg_sub]
      have h2 := hgt.1 h2
      exact ⟨by linarith, fun he => absurd he (by linarith)⟩
    · have ht : t = 1 / 2 := le_antisymm (not_lt.1 (mt hgt.2 h2)) (not_lt.1 (mt hlt.2 h1))
      rw [if_neg h1, if_neg h2, ht]
      obtain hq | hq := Nat.mod_two_eq_zero_or_one q
      · rw [hq, add_zero, add_sub_cancel_left, abs_of_pos one_half_pos]
        exact ⟨le_refl _, fun _ => hq⟩
      · rw [hq, Nat.cast_succ, add_sub_add_left_eq_sub, abs_of_neg (by norm_num)]
        exact ⟨by norm_num, fun _ => by omega⟩

theorem nearest_mono {s : Ratio} (h : 0 < r.lower) (h' : 0 < s.lower) (hle : r.value ≤ s.value) :
    r.nearest ≤ s.nearest := by
  obtain ⟨hr, hreven⟩ := nearest_spec h
  obtain ⟨hs, hseven⟩ := nearest_spec h'
  obtain ⟨hrlow, hrhigh⟩ := abs_le.1 hr
  obtain ⟨hslow, hshigh⟩ := abs_le.1 hs
  by_contra hlt
  have hlt : (s.nearest : ℚ) + 1 ≤ r.nearest := by exact_mod_cast not_le.1 hlt
  -- Both lie in the middle between two whole numbers that follow each other, and both are even.
  have hrmid : r.value - r.nearest = -(1 / 2) := by linarith
  have hsmid : s.value - s.nearest = 1 / 2 := by linarith
  have hr2 := hreven (by rw [hrmid, abs_neg, abs_of_pos one_half_pos])
  have hs2 := hseven (by rw [hsmid, abs_of_pos one_half_pos])
  have hnext : r.nearest = s.nearest + 1 := by
    have hq : (r.nearest : ℚ) = s.nearest + 1 := by linarith
    exact_mod_cast hq
  omega

end Ratio

namespace Binary

def value (b : Binary) : ℚ := b.significand * 2 ^ b.exponent

theorem value_ratio (b : Binary) : b.ratio.value = b.value := by
  rw [ratio, Ratio.value_shift, Ratio.value, Nat.cast_one, div_one, value]

theorem lower_ratio_pos (b : Binary) : 0 < b.ratio.lower := Ratio.lower_shift_pos Nat.one_pos _

theorem value_nonneg (b : Binary) : 0 ≤ b.value := by
  rw [value]
  positivity

end Binary

namespace BinaryFormat

variable {f : BinaryFormat} {x y v w : ℚ}

/-- The numbers of a format, and more above all of them. -/
def Has (f : BinaryFormat) (b : Binary) : Prop :=
  b.significand < 2 ^ f.precision ∧ f.lowest ≤ b.exponent

def Normal (f : BinaryFormat) (b : Binary) : Prop :=
  f.Has b ∧ (b.exponent = f.lowest ∨ 2 ^ (f.precision - 1) ≤ b.significand)

/-- The value `v` is the number of a format nearest to `x`, and of two that are equally near the one
whose last bit is zero. Exponents have no upper bound here. -/
structure Nearest (f : BinaryFormat) (x v : ℚ) : Prop where
  number : ∃ b, f.Normal b ∧ b.value = v
  nearest : ∀ b, f.Has b → |x - v| ≤ |x - b.value|
  even : ∀ b, f.Has b → b.value ≠ v → |x - b.value| = |x - v| →
    ∃ c, f.Normal c ∧ c.value = v ∧ c.significand % 2 = 0

theorem value_of_le {b : Binary} {e : ℤ} (h : e ≤ b.exponent) :
    b.value = (b.significand * 2 ^ (b.exponent - e).toNat : ℕ) * 2 ^ e := by
  have he : ((b.exponent - e).toNat : ℤ) = b.exponent - e := Int.toNat_of_nonneg (by omega)
  rw [Binary.value, Nat.cast_mul, Nat.cast_pow, Nat.cast_ofNat, ← zpow_natCast, he, mul_assoc,
    ← zpow_add₀ two_ne_zero, sub_add_cancel]

theorem Has.value_lt {b : Binary} {e : ℤ} (hp : 1 ≤ f.precision) (h : f.Has b)
    (he : b.exponent < e) : b.value < 2 ^ (f.precision - 1) * 2 ^ e := by
  have hs : (b.significand : ℚ) < 2 ^ f.precision := by exact_mod_cast h.1
  have hpow : (2 : ℚ) ^ f.precision = 2 ^ (f.precision - 1) * 2 := by
    rw [← pow_succ, Nat.sub_add_cancel hp]
  calc b.value = b.significand * 2 ^ b.exponent := rfl
    _ < 2 ^ f.precision * 2 ^ b.exponent := by gcongr
    _ = 2 ^ (f.precision - 1) * 2 ^ (b.exponent + 1) := by
      rw [hpow, zpow_add_one₀ two_ne_zero]
      ring
    _ ≤ 2 ^ (f.precision - 1) * 2 ^ e := by
      gcongr
      · exact one_le_two
      · omega

theorem Normal.exponent_le {b c : Binary} (hp : 1 ≤ f.precision) (hb : f.Normal b) (hc : f.Has c)
    (h : b.value ≤ c.value) : b.exponent ≤ c.exponent := by
  by_contra he
  have hlow := hc.2
  have hlt := hc.value_lt hp (not_le.1 he)
  have hsig : (2 : ℚ) ^ (f.precision - 1) ≤ b.significand := by
    exact_mod_cast hb.2.resolve_left (by omega)
  have hle : (2 : ℚ) ^ (f.precision - 1) * 2 ^ b.exponent ≤ b.value := by
    rw [Binary.value]
    gcongr
  linarith

theorem Normal.add_le_of_lt {b c : Binary} (hp : 1 ≤ f.precision) (hb : f.Normal b) (hc : f.Has c)
    (h : b.value < c.value) : b.value + 2 ^ b.exponent ≤ c.value := by
  have hpos : (0 : ℚ) < 2 ^ b.exponent := by positivity
  have he := hb.exponent_le hp hc h.le
  rw [value_of_le he] at h ⊢
  generalize c.significand * 2 ^ (c.exponent - b.exponent).toNat = k at h ⊢
  rw [Binary.value] at h ⊢
  have hlt : b.significand + 1 ≤ k := by exact_mod_cast lt_of_mul_lt_mul_right h hpos.le
  calc (b.significand : ℚ) * 2 ^ b.exponent + 2 ^ b.exponent =
        (b.significand + 1 : ℕ) * 2 ^ b.exponent := by push_cast; ring
    _ ≤ k * 2 ^ b.exponent := by gcongr

theorem Normal.exists_next {b : Binary} (hp : 1 ≤ f.precision) (hb : f.Normal b) :
    ∃ c, f.Has c ∧ c.value = b.value + 2 ^ b.exponent := by
  have hlt : b.significand + 1 ≤ 2 ^ f.precision := hb.1.1
  obtain hlt | heq := Nat.lt_or_eq_of_le hlt
  · refine ⟨⟨b.significand + 1, b.exponent⟩, ⟨hlt, hb.1.2⟩, ?_⟩
    simp only [Binary.value]
    push_cast
    ring
  · have hpow : 2 ^ f.precision = 2 ^ (f.precision - 1) * 2 := by
      rw [← pow_succ, Nat.sub_add_cancel hp]
    refine ⟨⟨2 ^ (f.precision - 1), b.exponent + 1⟩, ⟨?_, by have := hb.1.2; simp only; omega⟩, ?_⟩
    · exact Nat.pow_lt_pow_right Nat.one_lt_two (by omega)
    · have hq : (b.significand : ℚ) + 1 = 2 ^ (f.precision - 1) * 2 := by
        exact_mod_cast heq.trans hpow
      simp only [Binary.value, zpow_add_one₀ (two_ne_zero (α := ℚ))]
      push_cast
      linear_combination (-(2 : ℚ) ^ b.exponent) * hq

namespace Nearest

theorem eq_of_has {b : Binary} (h : f.Nearest x v) (hb : f.Has b) (hx : b.value = x) : v = x := by
  have hn := h.nearest b hb
  rw [hx, sub_self, abs_zero] at hn
  exact (sub_eq_zero.1 (abs_nonpos_iff.1 hn)).symm

theorem not_lt_of_nearest (hp : 1 ≤ f.precision) (h : f.Nearest x v) (h' : f.Nearest x w) :
    ¬ v < w := by
  intro hlt
  obtain ⟨b, hb, hbv⟩ := h.number
  obtain ⟨c, hc, hcw⟩ := h'.number
  have heq : |x - v| = |x - w| := by
    apply le_antisymm
    · exact hcw ▸ h.nearest c hc.1
    · exact hbv ▸ h'.nearest b hb.1
  have hmid : x = (v + w) / 2 := by
    obtain he | he := abs_eq_abs.1 heq
    · linarith
    · linarith
  obtain ⟨b, hb, rfl, heven⟩ := h.even c hc.1 (hcw ▸ hlt.ne') (hcw ▸ heq.symm)
  obtain ⟨c, hc, rfl, heven'⟩ := h'.even b hb.1 hlt.ne heq
  have hle := hb.add_le_of_lt hp hc.1 hlt
  have hnext : c.value = b.value + 2 ^ b.exponent := by
    refine le_antisymm (not_lt.1 fun hgap => ?_) hle
    obtain ⟨d, hd, hdv⟩ := hb.exists_next hp
    have hn := h.nearest d hd
    have hpos : (0 : ℚ) < 2 ^ b.exponent := by positivity
    rw [hdv, hmid, abs_of_pos (by linarith)] at hn
    have hcloser : |(b.value + c.value) / 2 - (b.value + 2 ^ b.exponent)| <
        (b.value + c.value) / 2 - b.value := abs_lt.2 ⟨by linarith, by linarith⟩
    linarith
  rw [value_of_le (hb.exponent_le hp hc.1 hlt.le), Binary.value, ← add_one_mul] at hnext
  have hsig : c.significand * 2 ^ (c.exponent - b.exponent).toNat = b.significand + 1 := by
    exact_mod_cast mul_right_cancel₀ (by positivity) hnext
  obtain ⟨k, hk⟩ := Nat.dvd_of_mod_eq_zero heven'
  rw [hk, mul_assoc] at hsig
  omega

theorem unique (hp : 1 ≤ f.precision) (h : f.Nearest x v) (h' : f.Nearest x w) : v = w :=
  le_antisymm (not_lt.1 (h'.not_lt_of_nearest hp h)) (not_lt.1 (h.not_lt_of_nearest hp h'))

theorem mid_le {x v w : ℚ} (h : |x - v| ≤ |x - w|) (hlt : w < v) : (v + w) / 2 ≤ x := by
  have hsq : (x - v) ^ 2 ≤ (x - w) ^ 2 := sq_le_sq.2 h
  by_contra hx
  have hpos : 0 < (v - w) * ((v + w) / 2 - x) := mul_pos (sub_pos.2 hlt) (sub_pos.2 (not_le.1 hx))
  linarith

theorem le_mid {y v w : ℚ} (h : |y - w| ≤ |y - v|) (hlt : w < v) : y ≤ (v + w) / 2 := by
  have hsq : (y - w) ^ 2 ≤ (y - v) ^ 2 := sq_le_sq.2 h
  by_contra hy
  have hpos : 0 < (v - w) * (y - (v + w) / 2) := mul_pos (sub_pos.2 hlt) (sub_pos.2 (not_le.1 hy))
  linarith

theorem mono (hp : 1 ≤ f.precision) (h : f.Nearest x v) (h' : f.Nearest y w) (hxy : x ≤ y) :
    v ≤ w := by
  obtain ⟨b, hb, hbv⟩ := h.number
  obtain ⟨c, hc, hcw⟩ := h'.number
  have hx : |x - v| ≤ |x - w| := hcw ▸ h.nearest c hc.1
  have hy : |y - w| ≤ |y - v| := hbv ▸ h'.nearest b hb.1
  by_contra hlt
  have hlt := not_le.1 hlt
  obtain rfl : x = y := le_antisymm hxy ((le_mid hy hlt).trans (mid_le hx hlt))
  exact hlt.ne (h'.unique hp h)

end Nearest

/-- The exponent for a ratio: such that it has as many bits as the format, unless that is below the
lowest. -/
def exponentFor (f : BinaryFormat) (r : Ratio) : ℤ :=
  if r.log2 - (f.precision - 1) < f.lowest then f.lowest else r.log2 - (f.precision - 1)

def candidate (f : BinaryFormat) (r : Ratio) : Binary :=
  ⟨(r.shift (-f.exponentFor r)).nearest, f.exponentFor r⟩

theorem round?_eq (f : BinaryFormat) (r : Ratio) :
    f.round? r = if (f.candidate r).value < 2 ^ f.top then some (f.candidate r) else none := by
  have hs : ((f.candidate r).ratio.shift (-f.top)).upper <
      ((f.candidate r).ratio.shift (-f.top)).lower ↔ (f.candidate r).value < 2 ^ f.top := by
    rw [Ratio.upper_lt_lower_iff (Ratio.lower_shift_pos (Binary.lower_ratio_pos _) _),
      Ratio.value_shift, Binary.value_ratio, zpow_neg, ← div_eq_mul_inv,
      div_lt_one (by positivity)]
  exact ite_congr (propext hs) (fun _ => rfl) (fun _ => rfl)

theorem nearest_zero : f.Nearest 0 0 := by
  have hz : f.Normal ⟨0, f.lowest⟩ := ⟨⟨Nat.two_pow_pos _, le_refl _⟩, .inl rfl⟩
  have hv : (Binary.mk 0 f.lowest).value = 0 := by rw [Binary.value, Nat.cast_zero, zero_mul]
  refine ⟨⟨_, hz, hv⟩, fun b _ => ?_, fun _ _ _ _ => ⟨_, hz, hv, rfl⟩⟩
  rw [sub_zero, abs_zero]
  exact abs_nonneg _

section

variable {r : Ratio}

theorem lowest_le_exponentFor : f.lowest ≤ f.exponentFor r := by
  rw [exponentFor]
  split_ifs <;> omega

/-- In units of its exponent a ratio has no more bits than the format, and as many if there is a
smaller exponent. -/
theorem scaled_bounds (hp : 1 ≤ f.precision) (hl : 0 < r.lower) (hu : r.upper ≠ 0) :
    r.value * 2 ^ (-f.exponentFor r) < 2 ^ f.precision ∧
      (f.exponentFor r ≠ f.lowest →
        2 ^ (f.precision - 1) ≤ r.value * 2 ^ (-f.exponentFor r)) := by
  obtain ⟨hlow, hhigh⟩ := Ratio.log2_spec hl hu
  have hpos : (0 : ℚ) < 2 ^ (-f.exponentFor r) := by positivity
  constructor
  · calc r.value * 2 ^ (-f.exponentFor r) < 2 ^ (r.log2 + 1) * 2 ^ (-f.exponentFor r) := by gcongr
      _ = 2 ^ (r.log2 + 1 - f.exponentFor r) := by rw [← zpow_add₀ two_ne_zero, sub_eq_add_neg]
      _ ≤ 2 ^ (f.precision : ℤ) := by
        gcongr
        · exact one_le_two
        · rw [exponentFor]
          split_ifs <;> omega
      _ = 2 ^ f.precision := zpow_natCast ..
  · intro he
    have he : f.exponentFor r = r.log2 - (f.precision - 1) := by
      rw [exponentFor] at he ⊢
      rw [if_neg fun h => he (if_pos h)]
    calc (2 : ℚ) ^ (f.precision - 1) = 2 ^ ((f.precision - 1 : ℕ) : ℤ) := (zpow_natCast ..).symm
      _ = 2 ^ r.log2 * 2 ^ (-f.exponentFor r) := by
        rw [← zpow_add₀ two_ne_zero, he, Nat.cast_sub hp]
        congr 1
        push_cast
        ring
      _ ≤ r.value * 2 ^ (-f.exponentFor r) := by gcongr

end

theorem abs_sub_le_of_half {q : ℚ} {m : ℕ} (hm : |q - m| ≤ 1 / 2) (k : ℕ) (hk : k ≠ m) :
    1 / 2 ≤ |q - k| := by
  have hone : (1 : ℚ) ≤ |(k : ℚ) - m| := by
    have h : 1 ≤ |(k : ℤ) - m| := Int.one_le_abs (by omega)
    exact_mod_cast h
  have htri := abs_sub_le (k : ℚ) q m
  rw [abs_sub_comm (k : ℚ) q] at htri
  linarith

theorem exists_has {m : ℕ} {e : ℤ} (hp : 1 ≤ f.precision) (hm : m ≤ 2 ^ f.precision)
    (he : f.lowest ≤ e) : ∃ b, f.Has b ∧ b.value = m * 2 ^ e := by
  obtain hlt | rfl := Nat.lt_or_eq_of_le hm
  · exact ⟨⟨m, e⟩, ⟨hlt, he⟩, rfl⟩
  · refine ⟨⟨1, e + f.precision⟩, ⟨Nat.one_lt_two_pow (by omega), ?_⟩, ?_⟩
    · simp only
      omega
    · rw [Binary.value, zpow_add₀ two_ne_zero, zpow_natCast]
      push_cast
      ring

theorem exists_normal {m : ℕ} {e : ℤ} (hp : 2 ≤ f.precision) (hm : m ≤ 2 ^ f.precision)
    (he : f.lowest ≤ e) (hn : e ≠ f.lowest → 2 ^ (f.precision - 1) ≤ m) :
    ∃ b, f.Normal b ∧ b.value = m * 2 ^ e ∧ (m % 2 = 0 → b.significand % 2 = 0) := by
  obtain hlt | rfl := Nat.lt_or_eq_of_le hm
  · refine ⟨⟨m, e⟩, ⟨⟨hlt, he⟩, ?_⟩, rfl, id⟩
    by_cases h : e = f.lowest
    · exact .inl h
    · exact .inr (hn h)
  · obtain ⟨k, hk⟩ : ∃ k, f.precision = k + 2 := ⟨f.precision - 2, by omega⟩
    have hpred : f.precision - 1 = k + 1 := by omega
    refine ⟨⟨2 ^ (f.precision - 1), e + 1⟩, ⟨⟨?_, ?_⟩, .inr (le_refl _)⟩, ?_, fun _ => ?_⟩
    · exact Nat.pow_lt_pow_right Nat.one_lt_two (by omega)
    · exact he.trans (by simp)
    · simp only [Binary.value, zpow_add_one₀ (two_ne_zero (α := ℚ)), hk]
      push_cast
      ring
    · rw [hpred, pow_succ, Nat.mul_mod_left]

theorem abs_sub_mul_zpow (q k : ℚ) (e : ℤ) : |q * 2 ^ e - k * 2 ^ e| = |q - k| * 2 ^ e := by
  rw [← sub_mul, abs_mul, abs_of_pos (by positivity : (0 : ℚ) < 2 ^ e)]

theorem abs_sub_lt_of_exponent_lt {q : ℚ} {m : ℕ} {e : ℤ} {b : Binary} (hp : 1 ≤ f.precision)
    (hfull : 2 ^ (f.precision - 1) ≤ q) (hm : |q - m| ≤ 1 / 2) (hb : f.Has b)
    (hbe : b.exponent < e) : |q - m| * 2 ^ e < |q * 2 ^ e - b.value| := by
  have hlt := hb.value_lt hp hbe
  have hle : |q - m| ≤ |q - (2 ^ (f.precision - 1) : ℕ)| := by
    by_cases hk : 2 ^ (f.precision - 1) = m
    · rw [hk]
    · exact hm.trans (abs_sub_le_of_half hm _ hk)
  rw [Nat.cast_pow, Nat.cast_ofNat, abs_of_nonneg (sub_nonneg.2 hfull)] at hle
  calc |q - m| * 2 ^ e ≤ (q - 2 ^ (f.precision - 1)) * 2 ^ e := by gcongr
    _ < q * 2 ^ e - b.value := by linarith
    _ ≤ |q * 2 ^ e - b.value| := le_abs_self _

/-- What is nearest among the multiples of a unit is nearest among all numbers of the format, if
there are no more bits than it has, and as many unless the unit is the smallest. -/
theorem nearest_of_scaled {q : ℚ} {m : ℕ} {e : ℤ} (hp : 2 ≤ f.precision) (he : f.lowest ≤ e)
    (hq : q < 2 ^ f.precision) (hfull : e ≠ f.lowest → 2 ^ (f.precision - 1) ≤ q)
    (hm : |q - m| ≤ 1 / 2) (heven : |q - m| = 1 / 2 → m % 2 = 0) :
    f.Nearest (q * 2 ^ e) (m * 2 ^ e) := by
  have hpos : (0 : ℚ) < 2 ^ e := by positivity
  obtain ⟨hlow, hhigh⟩ := abs_le.1 hm
  have hmle : m ≤ 2 ^ f.precision := by
    have h : (m : ℚ) < 2 ^ f.precision + 1 := by linarith
    exact Nat.lt_succ_iff.1 (by exact_mod_cast h)
  have hmge : e ≠ f.lowest → 2 ^ (f.precision - 1) ≤ m := by
    intro hne
    have h : (2 : ℚ) ^ (f.precision - 1) < m + 1 := by linarith [hfull hne]
    exact Nat.lt_succ_iff.1 (by exact_mod_cast h)
  obtain ⟨c, hc, hcv, hceven⟩ := exists_normal hp hmle he hmge
  have hbelow : ∀ b, f.Has b → b.exponent < e → |q - m| * 2 ^ e < |q * 2 ^ e - b.value| :=
    fun b hb hbe => abs_sub_lt_of_exponent_lt (by omega)
      (hfull (by have := hb.2; omega)) hm hb hbe
  refine ⟨⟨c, hc, hcv⟩, fun b hb => ?_, fun b hb hne heq => ⟨c, hc, hcv, hceven ?_⟩⟩
  · rw [abs_sub_mul_zpow]
    by_cases hbe : b.exponent < e
    · exact (hbelow b hb hbe).le
    · rw [value_of_le (not_lt.1 hbe), abs_sub_mul_zpow]
      generalize b.significand * 2 ^ (b.exponent - e).toNat = k
      by_cases hk : k = m
      · rw [hk]
      · exact mul_le_mul_of_nonneg_right (hm.trans (abs_sub_le_of_half hm k hk)) hpos.le
  · rw [abs_sub_mul_zpow] at heq
    by_cases hbe : b.exponent < e
    · exact absurd heq (hbelow b hb hbe).ne'
    · rw [value_of_le (not_lt.1 hbe)] at hne heq
      rw [abs_sub_mul_zpow] at heq
      generalize b.significand * 2 ^ (b.exponent - e).toNat = k at hne heq
      have hk : k ≠ m := fun h => hne (by rw [h])
      have hhalf := abs_sub_le_of_half hm k hk
      rw [mul_right_cancel₀ hpos.ne' heq] at hhalf
      exact heven (le_antisymm hm hhalf)

theorem nearest_candidate {r : Ratio} (hp : 2 ≤ f.precision) (hl : 0 < r.lower) :
    f.Nearest r.value (f.candidate r).value := by
  by_cases hu : r.upper = 0
  · have hr : r.value = 0 := by rw [Ratio.value, hu, Nat.cast_zero, zero_div]
    have hupper : (r.shift (-f.exponentFor r)).upper = 0 := by
      change r.upper <<< (-f.exponentFor r).toNat = 0
      rw [hu, Nat.zero_shiftLeft]
    have hs : (r.shift (-f.exponentFor r)).nearest = 0 := by
      rw [Ratio.nearest, hupper, Nat.zero_div, Nat.zero_mod, mul_zero,
        if_pos (Ratio.lower_shift_pos hl _)]
    rw [hr, candidate, hs, Binary.value, Nat.cast_zero, zero_mul]
    exact nearest_zero
  · obtain ⟨hq, hfull⟩ := scaled_bounds (f := f) (by omega) hl hu
    obtain ⟨hm, heven⟩ := Ratio.nearest_spec (Ratio.lower_shift_pos hl (-f.exponentFor r))
    rw [Ratio.value_shift] at hm heven
    have h := nearest_of_scaled hp lowest_le_exponentFor hq hfull hm heven
    rwa [mul_assoc, ← zpow_add₀ two_ne_zero, neg_add_cancel, zpow_zero, mul_one] at h

/-- A ratio is rounded to the nearest number, unless that is too large. -/
theorem round?_spec {r : Ratio} (hp : 2 ≤ f.precision) (hl : 0 < r.lower) :
    ∃ b, f.Nearest r.value b.value ∧ f.round? r = if b.value < 2 ^ f.top then some b else none :=
  ⟨_, nearest_candidate hp hl, round?_eq f r⟩

end BinaryFormat

end MethodExtraction.Numeric
