import MethodExtraction.Proofs.Text.Forms

namespace MethodExtraction.Text.Utf8

/-- The maximal invalid part of some bytes that stands before `rest`: no character is there, and it
is as much as the bytes of a character may begin with, or one byte. -/
structure Damaged (bytes rest : List UInt8) : Prop where
  ne_nil : bytes ≠ []
  no_char : ∀ c, ¬ String.utf8EncodeChar c <+: bytes ++ rest
  opens : bytes.length = 1 ∨ Opens bytes
  longest : ∀ more, more <+: bytes ++ rest → bytes.length < more.length → ¬ Opens more

inductive Part where
  | char (c : Char)
  | invalid (bytes : List UInt8)
  deriving DecidableEq

namespace Part

def bytes : Part → List UInt8
  | char c => String.utf8EncodeChar c
  | invalid bytes => bytes

def text : Part → Char
  | char c => c
  | invalid _ => '\uFFFD'

def isInvalid : Part → Bool
  | char _ => false
  | invalid _ => true

def Before : Part → List UInt8 → Prop
  | char _, _ => True
  | invalid bytes, rest => Damaged bytes rest

end Part

inductive Parted : List UInt8 → List Part → Prop where
  | nil : Parted [] []
  | cons {p : Part} {rest : List UInt8} {ps : List Part} (hp : p.Before rest)
      (h : Parted rest ps) : Parted (p.bytes ++ rest) (p :: ps)

theorem damaged_of_followers?_eq_none {lead : UInt8} (h : followers? lead = none)
    (rest : List UInt8) : Damaged [lead] rest where
  ne_nil := List.cons_ne_nil _ _
  no_char c hc := by
    obtain ⟨_, _, -, -, hr, -⟩ := utf8EncodeChar_prefix_cons hc
    exact absurd (hr.symm.trans h) (Option.some_ne_none _)
  opens := .inl rfl
  longest more hp hl ho := by
    cases more with
    | nil => cases hl
    | cons a more =>
      obtain ⟨rfl, -⟩ := List.cons_prefix_cons.1 hp
      obtain ⟨_, hr, -⟩ := opens_cons_iff.1 ho
      exact absurd (hr.symm.trans h) (Option.some_ne_none _)

/-- The bytes of a character are damage, as far as they are right, if others are missing. -/
theorem damaged_split {lead : UInt8} {ranges : List ByteRange} (h : followers? lead = some ranges)
    {bytes : List UInt8} (hl : (split ranges bytes).1.length ≠ ranges.length) :
    Damaged (lead :: (split ranges bytes).1) (split ranges bytes).2 := by
  have ha := along_split ranges bytes
  have hb : lead :: (split ranges bytes).1 ++ (split ranges bytes).2 = lead :: bytes :=
    congrArg (lead :: ·) (split_append ranges bytes)
  refine ⟨List.cons_ne_nil _ _, fun c hc => ?_, .inr (opens_cons_iff.2 ⟨ranges, h, ha⟩), ?_⟩
  · rw [hb] at hc
    obtain ⟨cs, ranges', -, hp, hr, hcs, hlen⟩ := utf8EncodeChar_prefix_cons hc
    obtain rfl := Option.some.inj (h.symm.trans hr)
    exact hl (Nat.le_antisymm ha.length_le (hlen ▸ hcs.length_le_split hp))
  · intro more hp hlen ho
    rw [hb] at hp
    cases more with
    | nil => cases hlen
    | cons a more =>
      obtain ⟨rfl, hmore⟩ := List.cons_prefix_cons.1 hp
      obtain ⟨ranges', hr, hm⟩ := opens_cons_iff.1 ho
      obtain rfl := Option.some.inj (h.symm.trans hr)
      exact absurd (hm.length_le_split hmore) (Nat.not_le.2 (Nat.lt_of_succ_lt_succ hlen))

theorem exists_part (lead : UInt8) (bytes : List UInt8) : ∃ p : Part,
    p.bytes ++ (next lead bytes).2 = lead :: bytes ∧ p.text = (next lead bytes).1 ∧
      p.Before (next lead bytes).2 := by
  cases hf : followers? lead with
  | none =>
    have hn : next lead bytes = ('\uFFFD', bytes) := by simp only [next, hf]
    rw [hn]
    exact ⟨.invalid [lead], rfl, rfl, damaged_of_followers?_eq_none hf bytes⟩
  | some ranges =>
    have hs := split_append ranges bytes
    have hn : next lead bytes =
        (if (split ranges bytes).1.length = ranges.length then scalar lead (split ranges bytes).1
          else '\uFFFD', (split ranges bytes).2) := by simp only [next, hf]
    rw [hn]
    by_cases hl : (split ranges bytes).1.length = ranges.length
    · refine ⟨.char (scalar lead (split ranges bytes).1), ?_, (if_pos hl).symm, trivial⟩
      have hform := form_iff.2 ⟨ranges, hf, along_split ranges bytes, hl⟩
      rw [Part.bytes, hform.utf8EncodeChar, List.cons_append, hs]
    · exact ⟨.invalid (lead :: (split ranges bytes).1), congrArg (lead :: ·) hs, (if_neg hl).symm,
        damaged_split hf hl⟩

theorem Damaged.length_le {bs cs rest rest' : List UInt8} (h : Damaged bs rest)
    (h' : Damaged cs rest') (he : bs ++ rest = cs ++ rest') : cs.length ≤ bs.length := by
  by_contra hl
  have hlen := Nat.not_le.1 hl
  obtain hone | ho := h'.opens
  · rw [hone, Nat.lt_one_iff] at hlen
    exact h.ne_nil (List.length_eq_zero_iff.1 hlen)
  · exact h.longest cs (he ▸ List.prefix_append ..) hlen ho

theorem Part.Before.unique {p q : Part} {rest rest' : List UInt8} (h : p.Before rest)
    (h' : q.Before rest') (he : p.bytes ++ rest = q.bytes ++ rest') : p = q := by
  cases p with
  | char c =>
    cases q with
    | char d => rw [utf8EncodeChar_unique he]
    | invalid cs => exact absurd (he ▸ List.prefix_append ..) (h'.no_char c)
  | invalid bs =>
    cases q with
    | char d => exact absurd (he.symm ▸ List.prefix_append ..) (h.no_char d)
    | invalid cs =>
      have hl := Nat.le_antisymm (h'.length_le h he.symm) (h.length_le h' he)
      exact congrArg Part.invalid (List.append_inj he hl).1

theorem Parted.unique {bytes : List UInt8} {ps qs : List Part} (h : Parted bytes ps)
    (h' : Parted bytes qs) : ps = qs := by
  have hne : ∀ {p : Part} {rest : List UInt8}, p.Before rest → p.bytes ++ rest ≠ [] := by
    intro p rest hp he
    cases p with
    | char c => exact String.utf8EncodeChar_ne_nil (List.append_eq_nil_iff.1 he).1
    | invalid bs => exact hp.ne_nil (List.append_eq_nil_iff.1 he).1
  induction h generalizing qs with
  | nil =>
    generalize hb : ([] : List UInt8) = bytes at h'
    cases h' with
    | nil => rfl
    | cons hp h' => exact absurd hb.symm (hne hp)
  | @cons p rest ps hp h ih =>
    generalize hb : p.bytes ++ rest = bytes at h'
    cases h' with
    | nil => exact absurd hb (hne hp)
    | cons hq h' =>
      obtain rfl := hp.unique hq hb
      obtain rfl := List.append_cancel_left hb
      rw [ih h']

theorem exists_parted_onto (text : String) (bytes : List UInt8) : ∃ ps, Parted bytes ps ∧
    decodeOnto text bytes = text ++ String.ofList (ps.map Part.text) := by
  fun_induction decodeOnto text bytes with
  | case1 text => exact ⟨[], .nil, by simp⟩
  | case2 text lead bytes ih =>
    obtain ⟨ps, hps, hd⟩ := ih
    obtain ⟨p, hb, ht, hp⟩ := exists_part lead bytes
    refine ⟨p :: ps, hb ▸ .cons hp hps, ?_⟩
    rw [hd, ← String.toList_inj]
    simp [ht]

theorem exists_parted (bytes : List UInt8) : ∃ ps, Parted bytes ps ∧
    decode bytes = String.ofList (ps.map Part.text) := by
  obtain ⟨ps, hps, hd⟩ := exists_parted_onto "" bytes
  exact ⟨ps, hps, by rw [decode, hd, String.empty_append]⟩

theorem Parted.decode_eq {bytes : List UInt8} {ps : List Part} (h : Parted bytes ps) :
    decode bytes = String.ofList (ps.map Part.text) := by
  obtain ⟨qs, hqs, hd⟩ := exists_parted bytes
  rw [hd, h.unique hqs]

theorem Damaged.append_encode {bs rest : List UInt8} (h : Damaged bs rest) (v : String) :
    Damaged bs (rest ++ encode v) := by
  have hne : bs ++ rest ≠ [] := List.append_ne_nil_of_left_ne_nil h.ne_nil _
  refine ⟨h.ne_nil, fun c hc => ?_, h.opens, fun more hp hl => ?_⟩
  · rw [← List.append_assoc] at hc
    exact h.no_char c (prefix_of_prefix_append_encode hne hc (List.prefix_refl _))
  · rintro ⟨c, hc⟩
    rw [← List.append_assoc] at hp
    exact h.longest more (prefix_of_prefix_append_encode hne hp hc) hl ⟨c, hc⟩

theorem Part.Before.append_encode {p : Part} {rest : List UInt8} (h : p.Before rest) (v : String) :
    p.Before (rest ++ encode v) := by
  cases p with
  | char c => trivial
  | invalid bs => exact Damaged.append_encode h v

theorem parted_chars (cs : List Char) {x : List UInt8} {ps : List Part} (h : Parted x ps) :
    Parted (cs.flatMap String.utf8EncodeChar ++ x) (cs.map .char ++ ps) := by
  induction cs with
  | nil => exact h
  | cons c cs ih =>
    rw [List.flatMap_cons, List.append_assoc]
    exact .cons (p := .char c) trivial ih

theorem Parted.encode_append {x : List UInt8} {ps : List Part} (h : Parted x ps) (u : String) :
    Parted (encode u ++ x) (u.toList.map .char ++ ps) := by
  rw [encode_eq_flatMap]
  exact parted_chars u.toList h

theorem parted_encode (u : String) : Parted (encode u) (u.toList.map .char) := by
  have h := Parted.nil.encode_append u
  rwa [List.append_nil, List.append_nil] at h

theorem Parted.append_encode {x : List UInt8} {ps : List Part} (h : Parted x ps) (v : String) :
    Parted (x ++ encode v) (ps ++ v.toList.map .char) := by
  induction h with
  | nil => exact parted_encode v
  | cons hp h ih =>
    rw [List.append_assoc]
    exact .cons (hp.append_encode v) ih

theorem map_text_char (cs : List Char) : (cs.map Part.char).map Part.text = cs := by
  rw [List.map_map]
  exact List.map_id _

/-- A text on either side of some bytes is read as it is, and does not change how they are read. -/
theorem decode_between (u v : String) (x : List UInt8) :
    decode (encode u ++ x ++ encode v) = u ++ decode x ++ v := by
  obtain ⟨ps, hps, hd⟩ := exists_parted x
  rw [((hps.encode_append u).append_encode v).decode_eq, hd, ← String.toList_inj]
  simp only [String.toList_append, String.toList_ofList, List.map_append, map_text_char]

theorem decode_append_encode (x : List UInt8) (v : String) :
    decode (x ++ encode v) = decode x ++ v := by
  have h := decode_between "" v x
  rwa [String.empty_append] at h

theorem decode_encode (u : String) : decode (encode u) = u := by
  rw [(parted_encode u).decode_eq, map_text_char, String.ofList_toList]

theorem Parted.flatMap_bytes {x : List UInt8} {ps : List Part} (h : Parted x ps) :
    ps.flatMap Part.bytes = x := by
  induction h with
  | nil => rfl
  | cons hp h ih => rw [List.flatMap_cons, ih]

theorem Parted.exists_encode_iff {x : List UInt8} {ps : List Part} (h : Parted x ps) :
    (∃ u, x = encode u) ↔ ps.countP Part.isInvalid = 0 := by
  rw [List.countP_eq_zero]
  constructor
  · rintro ⟨u, rfl⟩ p hp
    rw [h.unique (parted_encode u)] at hp
    obtain ⟨c, -, rfl⟩ := List.mem_map.1 hp
    exact Bool.false_ne_true
  · intro hps
    refine ⟨String.ofList (ps.map Part.text), ?_⟩
    rw [← h.flatMap_bytes, encode_eq_flatMap, String.toList_ofList, List.flatMap_map]
    refine List.flatMap_congr fun p hp => ?_
    cases p with
    | char c => rfl
    | invalid bs => exact absurd rfl (hps _ hp)

theorem count_replacement (ps : List Part) : (ps.map Part.text).count '\uFFFD' =
    ps.count (.char '\uFFFD') + ps.countP Part.isInvalid := by
  induction ps with
  | nil => rfl
  | cons p ps ih =>
    rw [List.map_cons, List.count_cons, List.count_cons, List.countP_cons, ih]
    cases p with
    | char c =>
      simp only [Part.text, Part.isInvalid, beq_iff_eq, Part.char.injEq, Bool.false_eq_true,
        if_false]
      omega
    | invalid bs =>
      simp only [Part.text, Part.isInvalid, beq_iff_eq, reduceCtorEq, if_true, if_false]
      omega

theorem Damaged.le_toNat {bs rest : List UInt8} (h : Damaged bs rest) :
    ∀ b ∈ bs, 0x80 ≤ b.toNat := by
  obtain ⟨a, bs, rfl⟩ := List.exists_cons_of_ne_nil h.ne_nil
  have ha : 0x80 ≤ a.toNat := by
    by_contra ha
    have hf : Form a [] := .one (Nat.not_le.1 ha)
    refine h.no_char (scalar a []) ?_
    rw [hf.utf8EncodeChar]
    exact ⟨bs ++ rest, rfl⟩
  obtain hone | ⟨c, hc⟩ := h.opens
  · obtain rfl : bs = [] := List.length_eq_zero_iff.1 (Nat.succ.inj hone)
    exact List.forall_mem_singleton.2 ha
  · obtain ⟨a', cs, he, hf⟩ := exists_form c
    rw [he] at hc
    obtain ⟨rfl, hp⟩ := List.cons_prefix_cons.1 hc
    refine List.forall_mem_cons.2 ⟨ha, fun b hb => ?_⟩
    exact (has_tail_iff.1 (hf.has_tail b (hp.subset hb))).1

def isAscii (n : Nat) : Bool := n < 0x80

theorem filter_isAscii_eq_nil {bs : List UInt8} (h : ∀ b ∈ bs, 0x80 ≤ b.toNat) :
    (bs.map UInt8.toNat).filter isAscii = [] := by
  rw [List.filter_eq_nil_iff]
  intro n hn
  obtain ⟨b, hb, rfl⟩ := List.mem_map.1 hn
  simpa [isAscii] using h b hb

theorem Part.Before.filter_isAscii {p : Part} {rest : List UInt8} (h : p.Before rest) :
    [p.text.toNat].filter isAscii = (p.bytes.map UInt8.toNat).filter isAscii := by
  cases p with
  | char c =>
    by_cases hc : 0x80 ≤ c.toNat
    · rw [Part.bytes, filter_isAscii_eq_nil (le_toNat_of_mem_utf8EncodeChar hc), Part.text,
        List.filter_cons_of_neg (by simpa [isAscii] using hc), List.filter_nil]
    · have hv : c.val.toNat < 0x80 := Nat.not_le.1 hc
      have hb : (UInt8.ofNat c.val.toNat).toNat = c.toNat := by
        rw [UInt8.toNat_ofNat', Nat.mod_eq_of_lt (by omega)]
        rfl
      rw [Part.bytes, String.utf8EncodeChar, if_pos (by omega), List.map_singleton, hb, Part.text]
  | invalid bs => exact (filter_isAscii_eq_nil (Damaged.le_toNat h)).symm

theorem Parted.filter_isAscii {x : List UInt8} {ps : List Part} (h : Parted x ps) :
    ((ps.map Part.text).map Char.toNat).filter isAscii = (x.map UInt8.toNat).filter isAscii := by
  induction h with
  | nil => rfl
  | @cons p rest ps hp h ih =>
    rw [List.map_append, List.filter_append, ← ih, ← hp.filter_isAscii, ← List.filter_append]
    rfl

end MethodExtraction.Text.Utf8
