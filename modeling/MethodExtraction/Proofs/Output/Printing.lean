import MethodExtraction.Output.Json
import MethodExtraction.Proofs.Output.Reading

namespace MethodExtraction.Output

namespace Json

/-- Wherever a value is due, the text is read as this one. -/
def Reads (text : List Char) (v : Value) : Prop :=
  ∀ frames, State.run ⟨frames, .value⟩ text = State.leave frames v

theorem Reads.read? {text : List Char} {v : Value} (h : Reads text v) : read? text = some v := by
  rw [Json.read?, h]
  rfl

theorem hexValue?_hexDigit {n : Nat} (h : n < 16) : hexValue? (hexDigit n) = some n := by
  have hall : ∀ k : Fin 16, hexValue? (hexDigit k.val) = some k.val := by decide
  exact hall ⟨n, h⟩

theorem hexDigit_printable {n : Nat} (h : n < 16) : 0x20 ≤ (hexDigit n).toNat := by
  have hall : ∀ k : Fin 16, 0x20 ≤ (hexDigit k.val).toNat := by decide
  exact hall ⟨n, h⟩

/-- The forms in which a character stands in a string: itself, a backslash and a letter, or the
digits of a control character. -/
theorem escapeChar_cases (c : Char) :
    (escapeChar c = [c] ∧ c ≠ '"' ∧ c ≠ '\\' ∧ 0x20 ≤ c.toNat) ∨
      (∃ d, escapeChar c = ['\\', d] ∧ unescape? d = some c ∧ d ≠ 'u' ∧ 0x20 ≤ d.toNat) ∨
      (escapeChar c =
          ['\\', 'u', '0', '0', hexDigit (c.toNat / 16), hexDigit (c.toNat % 16)] ∧
        c.toNat < 0x20) := by
  by_cases hq : c = '"'
  · exact .inr (.inl ⟨'"', by subst hq; decide⟩)
  by_cases hb : c = '\\'
  · exact .inr (.inl ⟨'\\', by subst hb; decide⟩)
  by_cases h8 : c = '\x08'
  · exact .inr (.inl ⟨'b', by subst h8; decide⟩)
  by_cases hf : c = '\x0c'
  · exact .inr (.inl ⟨'f', by subst hf; decide⟩)
  by_cases hn : c = '\n'
  · exact .inr (.inl ⟨'n', by subst hn; decide⟩)
  by_cases hr : c = '\r'
  · exact .inr (.inl ⟨'r', by subst hr; decide⟩)
  by_cases ht : c = '\t'
  · exact .inr (.inl ⟨'t', by subst ht; decide⟩)
  rw [escapeChar, if_neg hq, if_neg hb, if_neg h8, if_neg hf, if_neg hn, if_neg hr, if_neg ht]
  by_cases hc : c.toNat < 0x20
  · exact .inr (.inr ⟨if_pos hc, hc⟩)
  · exact .inl ⟨if_neg hc, hq, hb, Nat.not_lt.1 hc⟩

namespace State

variable (frames : List Frame) (text : List Char)

theorem run_control {c : Char} (h : c.toNat < 0x20) :
    State.run ⟨frames, .string text (.digits none 4 0)⟩
        ['0', '0', hexDigit (c.toNat / 16), hexDigit (c.toNat % 16)] =
      some ⟨frames, .string (text ++ [c]) .plain⟩ := by
  have hhigh := hexValue?_hexDigit (n := c.toNat / 16) (by omega)
  have hlow := hexValue?_hexDigit (n := c.toNat % 16) (by omega)
  have hz : hexValue? '0' = some 0 := by decide
  have hcode : c.toNat / 16 * 16 + c.toNat % 16 = c.toNat := Nat.div_add_mod' ..
  have hs : isHigh c.toNat = false := by simp [isHigh]; omega
  have hl : isLow c.toNat = false := by simp [isLow]; omega
  simp [step, Escape.step, Escape.unit?, hhigh, hlow, hz, hcode, hs, hl, Char.ofNat_toNat]

theorem run_escapeChar (c : Char) :
    State.run ⟨frames, .string text .plain⟩ (escapeChar c) =
      some ⟨frames, .string (text ++ [c]) .plain⟩ := by
  obtain ⟨he, hq, hb, hc⟩ | ⟨d, he, hd, hu, _⟩ | ⟨he, hc⟩ := escapeChar_cases c
  · rw [he]
    simp [step, Escape.step, hq, hb, Nat.not_lt.2 hc]
  · rw [he]
    simp [step, Escape.step, hd, hu]
  · rw [he]
    exact run_control frames text hc

theorem run_flatMap_escapeChar (cs : List Char) :
    State.run ⟨frames, .string text .plain⟩ (cs.flatMap escapeChar) =
      some ⟨frames, .string (text ++ cs) .plain⟩ := by
  induction cs generalizing text with
  | nil => simp
  | cons c cs ih =>
    rw [List.flatMap_cons, run_append, run_escapeChar, Option.bind_some, ih, List.append_assoc,
      List.singleton_append]

theorem run_string_body (t : String) :
    State.run ⟨frames, .string [] .plain⟩ (t.toList.flatMap escapeChar ++ ['"']) =
      leave frames (.string t) := by
  rw [run_append, run_flatMap_escapeChar, Option.bind_some, List.nil_append, run_cons]
  simp [step, String.ofList_toList]

end State

theorem toList_string (t : String) :
    (string t).toList = '"' :: (t.toList.flatMap escapeChar ++ ['"']) := by
  simp [string]

theorem reads_string (t : String) : Reads (string t).toList (.string t) := by
  intro frames
  rw [toList_string, State.run_cons]
  exact State.run_string_body frames t

theorem reads_bool (b : Bool) : Reads (bool b).toList (.bool b) := by
  intro frames
  cases b <;> simp [bool, State.step, State.enter, isBlank]

def memberText (m : String × String) : String := string m.1 ++ ":" ++ m.2

theorem toList_intercalate_cons (t : String) (ts : List String) :
    (",".intercalate (t :: ts)).toList = t.toList ++ ts.flatMap fun u => ',' :: u.toList := by
  induction ts generalizing t with
  | nil => simp
  | cons u ts ih =>
    rw [String.intercalate_cons_cons, String.toList_append, String.toList_append, ih,
      List.flatMap_cons]
    simp

namespace State

theorem run_member {k text : String} {v : Value} (h : Reads text.toList v) (frames : List Frame)
    (before : List (String × Value)) (mode : Mode) (hm : mode = .first ∨ mode = .key) :
    State.run ⟨.key before :: frames, mode⟩ (memberText (k, text)).toList =
      some ⟨.key (before ++ [(k, v)]) :: frames, .next⟩ := by
  have hs : State.step ⟨.key before :: frames, mode⟩ '"' =
      some ⟨.key before :: frames, .string [] .plain⟩ := by
    obtain rfl | rfl := hm <;> simp [step, isBlank]
  have hc : State.step ⟨.member before k :: frames, .colon⟩ ':' =
      some ⟨.member before k :: frames, .value⟩ := by
    simp [step, isBlank]
  have hk : State.run ⟨.key before :: frames, mode⟩ (string k).toList =
      some ⟨.member before k :: frames, .colon⟩ := by
    rw [toList_string, run_cons, hs]
    exact run_string_body _ k
  rw [memberText, String.toList_append, String.toList_append, run_append, run_append, hk,
    Option.bind_some]
  simp only [String.reduceToList, run_cons, hc, Option.bind_some, run_nil, h _]
  rfl

theorem run_members (members : List (String × String × Value))
    (h : ∀ m ∈ members, Reads m.2.1.toList m.2.2) (frames : List Frame)
    (before : List (String × Value)) :
    State.run ⟨.key before :: frames, .next⟩
        (members.flatMap fun m => ',' :: (memberText (m.1, m.2.1)).toList) =
      some ⟨.key (before ++ members.map fun m => (m.1, m.2.2)) :: frames, .next⟩ := by
  induction members generalizing before with
  | nil => simp
  | cons m members ih =>
    obtain ⟨hm, hms⟩ := List.forall_mem_cons.1 h
    have hc : State.step ⟨.key before :: frames, .next⟩ ',' =
        some ⟨.key before :: frames, .key⟩ := by
      simp [step, behind, isBlank]
    rw [List.flatMap_cons, run_append, run_cons, hc, Option.bind_some,
      run_member hm frames before .key (.inr rfl), Option.bind_some, ih hms, List.map_cons,
      List.append_assoc, List.singleton_append]

end State

theorem toList_object (members : List (String × String)) :
    (object members).toList =
      '\x7b' :: ((",".intercalate (members.map memberText)).toList ++ ['\x7d']) := by
  rw [object, String.toList_append, String.toList_append]
  rfl

theorem reads_object (members : List (String × String × Value))
    (h : ∀ m ∈ members, Reads m.2.1.toList m.2.2) :
    Reads (object (members.map fun m => (m.1, m.2.1))).toList
      (.object (members.map fun m => (m.1, m.2.2))) := by
  intro frames
  have ho : State.step ⟨frames, .value⟩ '\x7b' = some ⟨.key [] :: frames, .first⟩ := by
    simp [State.step, State.enter, isBlank]
  rw [toList_object, State.run_cons, ho, Option.bind_some, State.run_append]
  cases members with
  | nil => simp [State.step, isBlank]
  | cons m members =>
    obtain ⟨hm, hms⟩ := List.forall_mem_cons.1 h
    rw [List.map_cons, List.map_cons, toList_intercalate_cons, List.map_map, List.flatMap_map,
      State.run_append, State.run_member hm frames [] .first (.inl rfl), Option.bind_some]
    have hr := State.run_members members hms frames [(m.1, m.2.2)]
    simp only [List.nil_append, Function.comp_def, hr, Option.bind_some, State.run_cons,
      State.run_nil, Option.bind_fun_some]
    simp [State.step, State.behind, isBlank]

def Printable (text : List Char) : Prop := ∀ c ∈ text, 0x20 ≤ c.toNat

theorem Printable.append {a b : List Char} (ha : Printable a) (hb : Printable b) :
    Printable (a ++ b) := by
  intro c hc
  obtain hc | hc := List.mem_append.1 hc
  · exact ha c hc
  · exact hb c hc

theorem Printable.cons {c : Char} {a : List Char} (hc : 0x20 ≤ c.toNat) (ha : Printable a) :
    Printable (c :: a) :=
  List.forall_mem_cons.2 ⟨hc, ha⟩

theorem Printable.flatMap {α : Type} {f : α → List Char} {l : List α}
    (h : ∀ x ∈ l, Printable (f x)) : Printable (l.flatMap f) := by
  intro c hc
  obtain ⟨x, hx, hc⟩ := List.mem_flatMap.1 hc
  exact h x hx c hc

theorem printable_nil : Printable [] := List.forall_mem_nil _

theorem printable_escapeChar (c : Char) : Printable (escapeChar c) := by
  obtain ⟨he, _, _, hc⟩ | ⟨d, he, _, _, hd⟩ | ⟨he, hc⟩ := escapeChar_cases c
  · rw [he]
    exact .cons hc printable_nil
  · rw [he]
    exact .cons (by decide) (.cons hd printable_nil)
  · have hhigh := hexDigit_printable (n := c.toNat / 16) (by omega)
    have hlow := hexDigit_printable (n := c.toNat % 16) (by omega)
    rw [he]
    exact .append (a := ['\\', 'u', '0', '0']) (by simp [Printable])
      (.cons hhigh (.cons hlow printable_nil))

theorem printable_string (t : String) : Printable (string t).toList := by
  rw [toList_string]
  exact .cons (by decide) (.append (.flatMap fun c _ => printable_escapeChar c)
    (.cons (by decide) printable_nil))

theorem printable_bool (b : Bool) : Printable (bool b).toList := by
  cases b <;> simp [bool, Printable]

theorem printable_memberText {m : String × String} (h : Printable m.2.toList) :
    Printable (memberText m).toList := by
  rw [memberText, String.toList_append, String.toList_append]
  exact .append (.append (printable_string _) (.cons (by decide) printable_nil)) h

theorem printable_intercalate {ts : List String} (h : ∀ t ∈ ts, Printable t.toList) :
    Printable (",".intercalate ts).toList := by
  cases ts with
  | nil => exact printable_nil
  | cons t ts =>
    obtain ⟨ht, hts⟩ := List.forall_mem_cons.1 h
    rw [toList_intercalate_cons]
    exact .append ht (.flatMap fun u hu => .cons (by decide) (hts u hu))

theorem printable_object {members : List (String × String)}
    (h : ∀ m ∈ members, Printable m.2.toList) : Printable (object members).toList := by
  rw [toList_object]
  refine .cons (by decide) (.append (printable_intercalate ?_) (.cons (by decide) printable_nil))
  intro t ht
  obtain ⟨m, hm, rfl⟩ := List.mem_map.1 ht
  exact printable_memberText (h m hm)

end Json

end MethodExtraction.Output
