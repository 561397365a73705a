import MethodExtraction.Numeric.Duration
import MethodExtraction.Proofs.Numeric.Spelling

namespace MethodExtraction.Numeric

inductive Shown where
  | milliseconds (n : ℕ)
  | seconds (whole tenths : ℕ)
  | minutes (whole left : ℕ)
  deriving DecidableEq

namespace Shown

def text : Shown → String
  | milliseconds n => toString n ++ "ms"
  | seconds whole tenths => toString whole ++ "." ++ toString tenths ++ "s"
  | minutes whole left => toString whole ++ "m " ++ toString left ++ "s"

def time : Shown → ℚ
  | milliseconds n => n / 1000
  | seconds whole tenths => whole + tenths / 10
  | minutes whole left => 60 * whole + left

def lastPlace : Shown → ℚ
  | milliseconds _ => 1 / 1000
  | seconds .. => 1 / 10
  | minutes .. => 1

def InRange : Shown → Prop
  | milliseconds n => n < 1000
  | seconds whole tenths => 1 ≤ whole ∧ whole < 60 ∧ tenths < 10
  | minutes whole left => 1 ≤ whole ∧ left < 60

def first : Shown → ℕ
  | milliseconds n => n
  | seconds whole _ => whole
  | minutes whole _ => whole

def behind : Shown → List Char
  | milliseconds _ => ['m', 's']
  | seconds _ tenths => '.' :: ((toString tenths).toList ++ ['s'])
  | minutes _ left => 'm' :: ' ' :: ((toString left).toList ++ ['s'])

theorem toList_text (s : Shown) : s.text.toList = (toString s.first).toList ++ s.behind := by
  cases s <;> simp [text, first, behind]

theorem noDigitFirst_cons {c : Char} (h : c.isDigit = false) (cs : List Char) :
    NoDigitFirst (c :: cs) := by
  intro d hd
  obtain rfl := Option.some.inj hd
  exact h

theorem noDigitFirst_behind (s : Shown) : NoDigitFirst s.behind := by
  cases s <;> exact noDigitFirst_cons rfl _

theorem eq_of_behind {s s' : Shown} (hf : s.first = s'.first) (hb : s.behind = s'.behind) :
    s = s' := by
  have hs : NoDigitFirst ['s'] := noDigitFirst_cons rfl []
  cases s <;> cases s' <;> simp only [first, behind, List.cons.injEq, false_and, and_false,
    Char.reduceEq, true_and] at hf hb
  case milliseconds.milliseconds => rw [hf]
  case seconds.seconds => rw [hf, (toString_append_inj hs hs hb).1]
  case minutes.minutes => rw [hf, (toString_append_inj hs hs hb).1]

theorem text_injective : Function.Injective text := by
  intro s s' h
  have h := congrArg String.toList h
  rw [toList_text, toList_text] at h
  obtain ⟨hf, hb⟩ := toString_append_inj s.noDigitFirst_behind s'.noDigitFirst_behind h
  exact eq_of_behind hf hb

end Shown

namespace Binary

def tenths (b : Binary) : ℕ := Ratio.nearest ⟨10 * b.ratio.upper, b.ratio.lower⟩

theorem oneDecimal_eq (b : Binary) :
    b.oneDecimal = toString (b.tenths / 10) ++ "." ++ toString (b.tenths % 10) := rfl

theorem value_tenfold (b : Binary) :
    (Ratio.mk (10 * b.ratio.upper) b.ratio.lower).value = 10 * b.value := by
  rw [← value_ratio, Ratio.value, Ratio.value, Nat.cast_mul, mul_div_assoc, Nat.cast_ofNat]

theorem abs_sub_tenths_le (b : Binary) : |10 * b.value - b.tenths| ≤ 1 / 2 := by
  have h := Ratio.nearest_spec (r := ⟨10 * b.ratio.upper, b.ratio.lower⟩) b.lower_ratio_pos
  rw [value_tenfold] at h
  exact h.1

theorem tenths_mono {b c : Binary} (h : b.value ≤ c.value) : b.tenths ≤ c.tenths := by
  refine Ratio.nearest_mono (r := ⟨_, b.ratio.lower⟩) (s := ⟨_, c.ratio.lower⟩)
    b.lower_ratio_pos c.lower_ratio_pos ?_
  rw [value_tenfold, value_tenfold]
  linarith

end Binary

namespace Duration

def seconds (d : Duration) : ℚ := d.nanoseconds / 10 ^ 9

/-- So many milliseconds in seconds, as a floating-point number. -/
def rounded (ms : ℕ) : Binary := double.candidate ⟨ms, 1000⟩

section

variable {ms ms' : ℕ}

theorem nearest_rounded (ms : ℕ) : double.Nearest (ms / 1000) (rounded ms).value := by
  have h := double.nearest_candidate (r := ⟨ms, 1000⟩) (by decide) (show 0 < 1000 by decide)
  rwa [Ratio.value, Nat.cast_ofNat] at h

theorem tenths_rounded_mono (h : ms ≤ ms') : (rounded ms).tenths ≤ (rounded ms').tenths := by
  apply Binary.tenths_mono
  apply (nearest_rounded ms).mono (by decide) (nearest_rounded ms')
  gcongr

theorem abs_sub_rounded_le (h : ms < 60000) : |ms / 1000 - (rounded ms).value| ≤ 1 / 1024 := by
  have hfloor : ms * 1024 / 1000 ≤ 2 ^ 53 := by omega
  obtain ⟨b, hb, hv⟩ := double.exists_has (e := -10) (by decide) hfloor (by decide)
  have hlow : (1000 : ℚ) * (ms * 1024 / 1000 : ℕ) ≤ ms * 1024 := by
    exact_mod_cast Nat.mul_div_le (ms * 1024) 1000
  have hhigh : (ms : ℚ) * 1024 < 1000 * ((ms * 1024 / 1000 : ℕ) + 1) := by
    exact_mod_cast Nat.lt_mul_div_succ (ms * 1024) (by decide)
  have hten : (2 : ℚ) ^ (-10 : ℤ) = 1 / 1024 := by norm_num
  rw [hten] at hv
  calc |ms / 1000 - (rounded ms).value| ≤ |ms / 1000 - b.value| := (nearest_rounded ms).nearest b hb
    _ ≤ 1 / 1024 := by
      rw [hv, abs_le]
      constructor <;> linarith

theorem abs_sub_tenths_le (h : ms < 60000) :
    |(ms : ℚ) / 1000 - (rounded ms).tenths / 10| ≤ 3 / 50 := by
  obtain ⟨hlow, hhigh⟩ := abs_le.1 (abs_sub_rounded_le h)
  obtain ⟨hlow', hhigh'⟩ := abs_le.1 (rounded ms).abs_sub_tenths_le
  rw [abs_le]
  constructor <;> linarith

theorem decimal_eq (h : ms < 60000) :
    decimal double ⟨ms, 1000⟩ =
      toString ((rounded ms).tenths / 10) ++ "." ++ toString ((rounded ms).tenths % 10) := by
  have hms : (ms : ℚ) < 60000 := by exact_mod_cast h
  have hlow := (abs_le.1 (abs_sub_rounded_le h)).1
  have hfinite : (rounded ms).value < 2 ^ double.top := by
    calc (rounded ms).value < 2 ^ (7 : ℤ) := by norm_num; linarith
      _ ≤ 2 ^ double.top := zpow_le_zpow_right₀ one_le_two (by decide)
  rw [decimal, BinaryFormat.round?_eq, ← rounded, if_pos hfinite]
  exact Binary.oneDecimal_eq _

theorem tenths_bounds (hlow : 1000 ≤ ms) (hhigh : ms < 60000) :
    10 ≤ (rounded ms).tenths ∧ (rounded ms).tenths ≤ 600 ∧
      (ms < 59950 → (rounded ms).tenths < 600) ∧ (59950 ≤ ms → (rounded ms).tenths = 600) := by
  have hone : (rounded 1000).tenths = 10 := by decide +kernel
  have hbefore : (rounded 59949).tenths = 599 := by decide +kernel
  have hfrom : (rounded 59950).tenths = 600 := by decide +kernel
  have hminute : (rounded 60000).tenths = 600 := by decide +kernel
  have hup := tenths_rounded_mono hhigh.le
  refine ⟨hone ▸ tenths_rounded_mono hlow, hminute ▸ hup, fun h => ?_, fun h => ?_⟩
  · have hle := tenths_rounded_mono (Nat.le_of_lt_succ h)
    omega
  · have hge := tenths_rounded_mono h
    omega

end

end Duration

namespace Shown

def ofMilliseconds (ms : ℕ) : Shown :=
  if ms < 1000 then .milliseconds ms
  else if ms < 60000 then
    .seconds ((Duration.rounded ms).tenths / 10) ((Duration.rounded ms).tenths % 10)
  else .minutes (ms / 60000) (ms % 60000 / 1000)

variable {ms ms' : ℕ}

theorem ofMilliseconds_of_lt_second (h : ms < 1000) : ofMilliseconds ms = .milliseconds ms :=
  if_pos h

theorem ofMilliseconds_of_lt_minute (hlow : 1000 ≤ ms) (hhigh : ms < 60000) :
    ofMilliseconds ms =
      .seconds ((Duration.rounded ms).tenths / 10) ((Duration.rounded ms).tenths % 10) := by
  rw [ofMilliseconds, if_neg (by omega), if_pos hhigh]

theorem ofMilliseconds_of_minute_le (h : 60000 ≤ ms) :
    ofMilliseconds ms = .minutes (ms / 60000) (ms % 60000 / 1000) := by
  rw [ofMilliseconds, if_neg (by omega), if_neg (by omega)]

theorem time_of_lt_second (h : ms < 1000) : (ofMilliseconds ms).time = ms / 1000 := by
  rw [ofMilliseconds_of_lt_second h, time]

theorem time_of_lt_minute (hlow : 1000 ≤ ms) (hhigh : ms < 60000) :
    (ofMilliseconds ms).time = (Duration.rounded ms).tenths / 10 := by
  have h : (Duration.rounded ms).tenths = 10 * ((Duration.rounded ms).tenths / 10 : ℕ) +
      (Duration.rounded ms).tenths % 10 := (Nat.div_add_mod _ 10).symm
  have hq : ((Duration.rounded ms).tenths : ℚ) = 10 * ((Duration.rounded ms).tenths / 10 : ℕ) +
      ((Duration.rounded ms).tenths % 10 : ℕ) := by exact_mod_cast h
  rw [ofMilliseconds_of_lt_minute hlow hhigh, time]
  linarith

theorem time_of_minute_le (h : 60000 ≤ ms) : (ofMilliseconds ms).time = (ms / 1000 : ℕ) := by
  have hsum : 60 * (ms / 60000) + ms % 60000 / 1000 = ms / 1000 := by omega
  rw [ofMilliseconds_of_minute_le h, time]
  exact_mod_cast hsum

theorem time_lt_one (h : ms < 1000) : (ofMilliseconds ms).time < 1 := by
  have hq : (ms : ℚ) < 1000 := by exact_mod_cast h
  rw [time_of_lt_second h]
  linarith

theorem one_le_time (hlow : 1000 ≤ ms) (hhigh : ms < 60000) :
    1 ≤ (ofMilliseconds ms).time ∧ (ofMilliseconds ms).time ≤ 60 := by
  obtain ⟨hten, hall, -⟩ := Duration.tenths_bounds hlow hhigh
  have hten : (10 : ℚ) ≤ (Duration.rounded ms).tenths := by exact_mod_cast hten
  have hall : ((Duration.rounded ms).tenths : ℚ) ≤ 600 := by exact_mod_cast hall
  rw [time_of_lt_minute hlow hhigh]
  constructor <;> linarith

theorem sixty_le_time (h : 60000 ≤ ms) : 60 ≤ (ofMilliseconds ms).time := by
  have hsixty : 60 ≤ ms / 1000 := by omega
  rw [time_of_minute_le h]
  exact_mod_cast hsixty

theorem time_mono (h : ms ≤ ms') : (ofMilliseconds ms).time ≤ (ofMilliseconds ms').time := by
  obtain hs' | hs' := Nat.lt_or_ge ms' 1000
  · rw [time_of_lt_second (by omega), time_of_lt_second hs']
    gcongr
  obtain hm' | hm' := Nat.lt_or_ge ms' 60000
  · obtain hs | hs := Nat.lt_or_ge ms 1000
    · exact (time_lt_one hs).le.trans (one_le_time hs' hm').1
    · rw [time_of_lt_minute hs (by omega), time_of_lt_minute hs' hm']
      have htenths := Duration.tenths_rounded_mono h
      gcongr
  have hsixty := sixty_le_time hm'
  obtain hs | hs := Nat.lt_or_ge ms 1000
  · have hone := time_lt_one hs
    linarith
  obtain hm | hm := Nat.lt_or_ge ms 60000
  · exact (one_le_time hs hm).2.trans hsixty
  · rw [time_of_minute_le hm, time_of_minute_le hm']
    exact_mod_cast Nat.div_le_div_right h

/-- The numbers are in range, but for seconds that are rounded up to a minute. -/
theorem inRange_ofMilliseconds_iff (ms : ℕ) :
    (ofMilliseconds ms).InRange ↔ ¬ (59950 ≤ ms ∧ ms < 60000) := by
  obtain hs | hs := Nat.lt_or_ge ms 1000
  · rw [ofMilliseconds_of_lt_second hs]
    exact ⟨fun _ => by omega, fun _ => hs⟩
  obtain hm | hm := Nat.lt_or_ge ms 60000
  · obtain ⟨hten, -, hlt, hall⟩ := Duration.tenths_bounds hs hm
    rw [ofMilliseconds_of_lt_minute hs hm]
    constructor
    · rintro ⟨-, hrange, -⟩ ⟨hlate, -⟩
      rw [hall hlate] at hrange
      exact absurd hrange (by decide)
    · intro hearly
      have hlt := hlt (by omega)
      refine ⟨?_, ?_, Nat.mod_lt _ (by decide)⟩
      · omega
      · omega
  · rw [ofMilliseconds_of_minute_le hm]
    refine ⟨fun _ => by omega, fun _ => ⟨?_, ?_⟩⟩
    · omega
    · omega

theorem ofMilliseconds_of_late (h : 59950 ≤ ms) (h' : ms < 60000) :
    ofMilliseconds ms = .seconds 60 0 := by
  obtain ⟨-, -, -, hall⟩ := Duration.tenths_bounds (by omega) h'
  rw [ofMilliseconds_of_lt_minute (by omega) h', hall h]

end Shown

namespace Duration

theorem text_ofMilliseconds (d : Duration) : (Shown.ofMilliseconds d.milliseconds).text = d.text := by
  rw [Duration.text, Shown.ofMilliseconds]
  split_ifs with hs hm
  · rfl
  · rw [decimal_eq hm, Shown.text]
  · rfl

variable {d d' : Duration}

theorem milliseconds_le (d : Duration) :
    (d.milliseconds : ℚ) / 1000 ≤ d.seconds ∧ d.seconds < (d.milliseconds + 1) / 1000 := by
  have hlow : 1000000 * d.milliseconds ≤ d.nanoseconds := Nat.mul_div_le _ _
  have hhigh : d.nanoseconds < 1000000 * (d.milliseconds + 1) := Nat.lt_mul_div_succ _ (by decide)
  have hlow : (1000000 : ℚ) * d.milliseconds ≤ d.nanoseconds := by exact_mod_cast hlow
  have hhigh : (d.nanoseconds : ℚ) < 1000000 * (d.milliseconds + 1) := by exact_mod_cast hhigh
  rw [seconds]
  constructor <;> linarith

/-- The parts of a millisecond that are dropped, and what rounding changes, are less than one in the
last place. -/
theorem abs_time_sub_seconds_lt (d : Duration) :
    |(Shown.ofMilliseconds d.milliseconds).time - d.seconds| <
      (Shown.ofMilliseconds d.milliseconds).lastPlace := by
  obtain ⟨hlow, hhigh⟩ := d.milliseconds_le
  generalize d.milliseconds = ms at *
  obtain hs | hs := Nat.lt_or_ge ms 1000
  · rw [Shown.time_of_lt_second hs, Shown.ofMilliseconds_of_lt_second hs, Shown.lastPlace, abs_lt]
    constructor <;> linarith
  obtain hm | hm := Nat.lt_or_ge ms 60000
  · obtain ⟨htlow, hthigh⟩ := abs_le.1 (abs_sub_tenths_le hm)
    rw [Shown.time_of_lt_minute hs hm, Shown.ofMilliseconds_of_lt_minute hs hm, Shown.lastPlace,
      abs_lt]
    constructor <;> linarith
  · have hdown : 1000 * (ms / 1000) ≤ ms := Nat.mul_div_le _ _
    have hup : ms + 1 ≤ 1000 * (ms / 1000 + 1) := Nat.lt_mul_div_succ _ (by decide)
    have hdown : (1000 : ℚ) * (ms / 1000 : ℕ) ≤ ms := by exact_mod_cast hdown
    have hup : (ms : ℚ) + 1 ≤ 1000 * ((ms / 1000 : ℕ) + 1) := by exact_mod_cast hup
    rw [Shown.time_of_minute_le hm, Shown.ofMilliseconds_of_minute_le hm, Shown.lastPlace, abs_lt]
    constructor <;> linarith

structure Shows (d : Duration) (s : Shown) : Prop where
  text : s.text = d.text
  only : ∀ s' : Shown, s'.text = d.text → s' = s
  near : |s.time - d.seconds| < s.lastPlace
  mono : ∀ (d' : Duration) (s' : Shown), s'.text = d'.text → d.seconds ≤ d'.seconds →
    s.time ≤ s'.time
  inRange_iff : s.InRange ↔ ¬ (59950 ≤ d.milliseconds ∧ d.milliseconds < 60000)
  late : 59950 ≤ d.milliseconds → d.milliseconds < 60000 → s = .seconds 60 0

theorem milliseconds_mono (h : d.seconds ≤ d'.seconds) : d.milliseconds ≤ d'.milliseconds := by
  have hten : (0 : ℚ) < 10 ^ 9 := by positivity
  rw [seconds, seconds, div_le_div_iff_of_pos_right hten, Nat.cast_le] at h
  exact Nat.div_le_div_right h

/-- The text of a duration shows one time, which is as near to the duration as its last place tells
and keeps the order. Its numbers are in range if and only if the duration is not one of the last 50
milliseconds before a minute, which are shown as 60 seconds. -/
theorem exists_shows (d : Duration) : ∃ s, d.Shows s := by
  have honly : ∀ (d : Duration) s, s.text = d.text → s = Shown.ofMilliseconds d.milliseconds :=
    fun d s hs => Shown.text_injective (hs.trans d.text_ofMilliseconds.symm)
  refine ⟨.ofMilliseconds d.milliseconds, d.text_ofMilliseconds, honly d, d.abs_time_sub_seconds_lt,
    ?_, Shown.inRange_ofMilliseconds_iff _, Shown.ofMilliseconds_of_late⟩
  intro d' s' hs' h
  rw [honly d' s' hs']
  exact Shown.time_mono (milliseconds_mono h)

theorem not_inRange_late :
    Duration.text ⟨59950000000⟩ = "60.0s" ∧
      ¬ ∃ s : Shown, s.text = Duration.text ⟨59950000000⟩ ∧ s.InRange := by
  have hshown : (Shown.seconds 60 0).text = "60.0s" := rfl
  have htext : Duration.text ⟨59950000000⟩ = "60.0s" := by decide +kernel
  refine ⟨htext, ?_⟩
  rintro ⟨s, hs, hrange⟩
  obtain rfl := Shown.text_injective (hs.trans (htext.trans hshown.symm))
  exact absurd hrange.2.1 (by decide)

end Duration

end MethodExtraction.Numeric
