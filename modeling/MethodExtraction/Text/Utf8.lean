namespace MethodExtraction.Text.Utf8

structure ByteRange where
  low : UInt8
  high : UInt8
  deriving DecidableEq, Repr

def ByteRange.has (r : ByteRange) (b : UInt8) : Bool := r.low ≤ b && b ≤ r.high

/-- The bytes that continue a character, where the byte before puts no further limit on them. -/
def tail : ByteRange := ⟨0x80, 0xBF⟩

/-- What has to follow the first byte of a character. Limits on the second byte keep out overlong
forms, surrogates and what lies beyond U+10FFFF. -/
def followers? (lead : UInt8) : Option (List ByteRange) :=
  if lead < 0x80 then some []
  else if lead < 0xC2 then none
  else if lead < 0xE0 then some [tail]
  else if lead = 0xE0 then some [⟨0xA0, 0xBF⟩, tail]
  else if lead = 0xED then some [⟨0x80, 0x9F⟩, tail]
  else if lead < 0xF0 then some [tail, tail]
  else if lead = 0xF0 then some [⟨0x90, 0xBF⟩, tail, tail]
  else if lead < 0xF4 then some [tail, tail, tail]
  else if lead = 0xF4 then some [⟨0x80, 0x8F⟩, tail, tail]
  else none

/-- The bytes at the front that lie in the ranges one after the other, and what is behind them. -/
def split : List ByteRange → List UInt8 → List UInt8 × List UInt8
  | r :: rs, b :: bs => if r.has b then ((split rs bs).map (b :: ·) id) else ([], b :: bs)
  | _, bs => ([], bs)

theorem length_split (rs : List ByteRange) (bs : List UInt8) :
    (split rs bs).2.length ≤ bs.length := by
  fun_induction split rs bs with
  | case1 r rs b bs h ih => simpa using Nat.le_succ_of_le ih
  | case2 => simp
  | case3 => simp

def payload (lead : UInt8) : Nat → Nat
  | 0 => lead.toNat
  | 1 => lead.toNat % 32
  | 2 => lead.toNat % 16
  | _ => lead.toNat % 8

def scalar (lead : UInt8) (followers : List UInt8) : Char :=
  Char.ofNat (followers.foldl (fun n b => n * 64 + b.toNat % 64)
    (payload lead followers.length))

/-- What is read from the front of some bytes, and the bytes behind it: a character, or U+FFFD for
the maximal invalid part that is there, which is a byte that starts no character, or the bytes of
one as far as they are right. -/
def next (lead : UInt8) (bytes : List UInt8) : Char × List UInt8 :=
  match followers? lead with
  | none => ('\uFFFD', bytes)
  | some ranges =>
    let (followers, rest) := split ranges bytes
    (if followers.length = ranges.length then scalar lead followers else '\uFFFD', rest)

theorem length_next (lead : UInt8) (bytes : List UInt8) :
    (next lead bytes).2.length ≤ bytes.length := by
  unfold next
  split
  · simp
  · exact length_split _ _

def decodeOnto (text : String) : List UInt8 → String
  | [] => text
  | lead :: bytes => decodeOnto (text.push (next lead bytes).1) (next lead bytes).2
termination_by bytes => bytes.length
decreasing_by exact Nat.lt_succ_of_le (length_next _ _)

def decode (bytes : List UInt8) : String := decodeOnto "" bytes

def encode (text : String) : List UInt8 := text.toUTF8.data.toList

end MethodExtraction.Text.Utf8
