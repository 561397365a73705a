import Mathlib.Data.List.Basic
import MethodExtraction.Output.Json
import MethodExtraction.Proofs.Text.Encoding

namespace MethodExtraction.Output.Json

inductive Value where
  | null
  | bool (b : Bool)
  | number (text : List Char)
  | string (text : String)
  | array (elements : List Value)
  | object (members : List (String × Value))
  deriving Inhabited

/-- An array or an object that is still open, by what stands in it before the place of reading: an
element, a key, or the value of a key. -/
inductive Frame where
  | element (before : List Value)
  | key (before : List (String × Value))
  | member (before : List (String × Value)) (key : String)

inductive NumberPart where
  | minus
  | zero
  | whole
  | point
  | fraction
  | e
  | sign
  | exponent
  deriving DecidableEq

/-- What is due next in a string: a plain character, the character after a backslash, some digits of
a code unit, or the other half of a surrogate pair. -/
inductive Escape where
  | plain
  | backslash (high : Option Nat)
  | digits (high : Option Nat) (left code : Nat)
  | half (high : Nat)
  deriving DecidableEq

/-- What is due next, or what is being read. -/
inductive Mode where
  | value
  | key
  | first
  | colon
  | next
  | word (rest : List Char) (v : Value)
  | number (part : NumberPart) (text : List Char)
  | string (text : List Char) (escape : Escape)
  | done (v : Value)

/-- A reader takes one character at a time, so a text that breaks off is a state that is not final.
The frames that are open come inmost first. -/
structure State where
  frames : List Frame
  mode : Mode

def isBlank (c : Char) : Bool := c = ' ' || c = '\t' || c = '\n' || c = '\r'

def hexValue? (c : Char) : Option Nat :=
  if '0' ≤ c ∧ c ≤ '9' then some (c.toNat - 48)
  else if 'a' ≤ c ∧ c ≤ 'f' then some (c.toNat - 87)
  else if 'A' ≤ c ∧ c ≤ 'F' then some (c.toNat - 55)
  else none

def unescape? (c : Char) : Option Char :=
  if c = '"' || c = '\\' || c = '/' then some c
  else if c = 'b' then some '\x08'
  else if c = 'f' then some '\x0c'
  else if c = 'n' then some '\n'
  else if c = 'r' then some '\r'
  else if c = 't' then some '\t'
  else none

def isHigh (code : Nat) : Bool := 0xD800 ≤ code && code < 0xDC00

def isLow (code : Nat) : Bool := 0xDC00 ≤ code && code < 0xE000

def Escape.unit? (text : List Char) (high : Option Nat) (code : Nat) :
    Option (List Char × Escape) :=
  match high with
  | none =>
    if isHigh code then some (text, .half code)
    else if isLow code then none
    else some (text ++ [Char.ofNat code], .plain)
  | some high =>
    if isLow code then
      some (text ++ [Char.ofNat (0x10000 + (high - 0xD800) * 0x400 + (code - 0xDC00))], .plain)
    else none

def Escape.step (text : List Char) (escape : Escape) (c : Char) : Option (List Char × Escape) :=
  match escape with
  | .plain =>
    if c = '\\' then some (text, .backslash none)
    else if c.toNat < 0x20 then none
    else some (text ++ [c], .plain)
  | .backslash high =>
    if c = 'u' then some (text, .digits high 4 0)
    else if high.isSome then none
    else (unescape? c).map fun d => (text ++ [d], .plain)
  | .digits high left code =>
    (hexValue? c).bind fun d =>
      if left = 1 then unit? text high (code * 16 + d)
      else some (text, .digits high (left - 1) (code * 16 + d))
  | .half high => if c = '\\' then some (text, .backslash (some high)) else none

def NumberPart.step (part : NumberPart) (c : Char) : Option NumberPart :=
  match part with
  | .minus => if c = '0' then some .zero else if c.isDigit then some .whole else none
  | .zero => if c = '.' then some .point else if c = 'e' || c = 'E' then some .e else none
  | .whole =>
    if c.isDigit then some .whole
    else if c = '.' then some .point
    else if c = 'e' || c = 'E' then some .e
    else none
  | .point => if c.isDigit then some .fraction else none
  | .fraction =>
    if c.isDigit then some .fraction else if c = 'e' || c = 'E' then some .e else none
  | .e =>
    if c.isDigit then some .exponent else if c = '+' || c = '-' then some .sign else none
  | .sign | .exponent => if c.isDigit then some .exponent else none

def NumberPart.isLast : NumberPart → Bool
  | .zero | .whole | .fraction | .exponent => true
  | .minus | .point | .e | .sign => false

namespace State

def enter (frames : List Frame) (c : Char) : Option State :=
  if c = '"' then some ⟨frames, .string [] .plain⟩
  else if c = '[' then some ⟨.element [] :: frames, .first⟩
  else if c = '\x7b' then some ⟨.key [] :: frames, .first⟩
  else if c = 't' then some ⟨frames, .word ['r', 'u', 'e'] (.bool true)⟩
  else if c = 'f' then some ⟨frames, .word ['a', 'l', 's', 'e'] (.bool false)⟩
  else if c = 'n' then some ⟨frames, .word ['u', 'l', 'l'] .null⟩
  else if c = '-' then some ⟨frames, .number .minus [c]⟩
  else (NumberPart.minus.step c).map fun part => ⟨frames, .number part [c]⟩

/-- A value has been read; where a key is due it must be a string. -/
def leave : List Frame → Value → Option State
  | [], v => some ⟨[], .done v⟩
  | .element before :: frames, v => some ⟨.element (before ++ [v]) :: frames, .next⟩
  | .member before key :: frames, v => some ⟨.key (before ++ [(key, v)]) :: frames, .next⟩
  | .key before :: frames, .string key => some ⟨.member before key :: frames, .colon⟩
  | .key _ :: _, _ => none

def behind (s : State) (c : Char) : Option State :=
  if isBlank c then some s
  else
    match s with
    | ⟨.element before :: frames, .next⟩ =>
      if c = ',' then some ⟨.element before :: frames, .value⟩
      else if c = ']' then leave frames (.array before)
      else none
    | ⟨.key before :: frames, .next⟩ =>
      if c = ',' then some ⟨.key before :: frames, .key⟩
      else if c = '\x7d' then leave frames (.object before)
      else none
    | _ => none

def step (s : State) (c : Char) : Option State :=
  match s with
  | ⟨frames, .value⟩ => if isBlank c then some ⟨frames, .value⟩ else enter frames c
  | ⟨frames, .key⟩ =>
    if isBlank c then some ⟨frames, .key⟩
    else if c = '"' then some ⟨frames, .string [] .plain⟩
    else none
  | ⟨.key before :: frames, .first⟩ =>
    if isBlank c then some ⟨.key before :: frames, .first⟩
    else if c = '"' then some ⟨.key before :: frames, .string [] .plain⟩
    else if c = '\x7d' then leave frames (.object before)
    else none
  | ⟨.element before :: frames, .first⟩ =>
    if isBlank c then some ⟨.element before :: frames, .first⟩
    else if c = ']' then leave frames (.array before)
    else enter (.element before :: frames) c
  | ⟨frames, .colon⟩ =>
    if isBlank c then some ⟨frames, .colon⟩
    else if c = ':' then some ⟨frames, .value⟩
    else none
  | ⟨frames, .word rest v⟩ =>
    if rest = [c] then leave frames v
    else if rest.head? = some c then some ⟨frames, .word rest.tail v⟩
    else none
  | ⟨frames, .number part text⟩ =>
    match part.step c with
    | some part => some ⟨frames, .number part (text ++ [c])⟩
    | none => if part.isLast then (leave frames (.number text)).bind (behind · c) else none
  | ⟨frames, .string text escape⟩ =>
    if escape = .plain ∧ c = '"' then leave frames (.string (String.ofList text))
    else (escape.step text c).map fun (text, escape) => ⟨frames, .string text escape⟩
  | s => behind s c

def run (s : State) (text : List Char) : Option State := text.foldlM step s

def value? : State → Option Value
  | ⟨[], .done v⟩ => some v
  | ⟨[], .number part text⟩ => if part.isLast then some (.number text) else none
  | _ => none

end State

def read? (text : List Char) : Option Value := (State.run ⟨[], .value⟩ text).bind State.value?

def readBytes? (bytes : List UInt8) : Option Value :=
  (Text.Utf8.ofBytes? bytes).bind fun text => read? text.toList

theorem readBytes?_encode (text : String) :
    readBytes? (Text.Utf8.encode text) = read? text.toList := by
  rw [readBytes?, Text.Utf8.ofBytes?_eq_some_iff.2 rfl, Option.bind_some]

namespace State

@[simp] theorem run_nil (s : State) : s.run [] = some s := rfl

@[simp] theorem run_cons (s : State) (c : Char) (text : List Char) :
    s.run (c :: text) = (s.step c).bind (·.run text) := rfl

@[simp] theorem run_append (s : State) (a b : List Char) :
    s.run (a ++ b) = (s.run a).bind (·.run b) :=
  List.foldlM_append ..

theorem run_done {v : Value} {text : List Char} {s : State}
    (h : State.run ⟨[], .done v⟩ text = some s) :
    s = ⟨[], .done v⟩ ∧ ∀ c ∈ text, isBlank c = true := by
  induction text with
  | nil =>
    cases h
    exact ⟨rfl, List.forall_mem_nil _⟩
  | cons c text ih =>
    by_cases hc : isBlank c = true
    · have hs : State.step ⟨[], .done v⟩ c = some ⟨[], .done v⟩ := by simp [step, behind, hc]
      rw [run_cons, hs, Option.bind_some] at h
      obtain ⟨he, hb⟩ := ih h
      exact ⟨he, List.forall_mem_cons.2 ⟨hc, hb⟩⟩
    · have hs : State.step ⟨[], .done v⟩ c = none := by simp [step, behind, hc]
      rw [run_cons, hs] at h
      cases h

theorem eq_done_of_value? {s : State} {members : List (String × Value)}
    (h : s.value? = some (.object members)) : s = ⟨[], .done (.object members)⟩ := by
  obtain ⟨frames, mode⟩ := s
  cases frames with
  | cons frame frames => simp [value?] at h
  | nil =>
    cases mode with
    | done v => simpa [value?] using h
    | number part text => simp [value?] at h
    | _ => simp [value?] at h

end State

theorem isBlank_of_read?_object {a b : List Char} {members : List (String × Value)}
    (ha : read? a = some (.object members)) (hab : (read? (a ++ b)).isSome) :
    ∀ c ∈ b, isBlank c = true := by
  obtain ⟨s, hs, hv⟩ := Option.bind_eq_some_iff.1 ha
  rw [State.eq_done_of_value? hv] at hs
  rw [read?, State.run_append, hs, Option.bind_some] at hab
  cases hb : State.run ⟨[], .done (.object members)⟩ b with
  | none => simp [hb] at hab
  | some s' => exact (State.run_done hb).2

end MethodExtraction.Output.Json
