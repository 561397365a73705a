import MethodExtraction.Proofs.Output.Rounds

namespace MethodExtraction.Output

open Files Java Text

def counting {δ : Type} (target : ByteSink δ) : ByteSink (δ × Nat) where
  writeAll bytes := fun (d, n) =>
    match target.writeAll bytes d with
    | .ok () d => .ok () (d, n)
    | .error e d => .error e (d, n)
  flush := fun (d, n) =>
    match target.flush d with
    | .ok () d => .ok () (d, n + 1)
    | .error e d => .error e (d, n + 1)

def seenThrough {σ τ : Type} (f : σ → τ) :
    EStateM.Result IoError σ Unit → EStateM.Result IoError τ Unit
  | .ok () s => .ok () (f s)
  | .error e s => .error e (f s)

/-- One target does, as a function sees it, what another one does. -/
structure Mimics {δ δ' : Type} (f : δ → δ') (target : ByteSink δ) (target' : ByteSink δ') :
    Prop where
  writeAll : ∀ bytes d, target'.writeAll bytes (f d) = seenThrough f (target.writeAll bytes d)
  flush : ∀ d, target'.flush (f d) = seenThrough f (target.flush d)

theorem FaultyBuffer.writeAll_cases (bytes : ByteArray) (b : FaultyBuffer) :
    (∃ plan, writeAll bytes b = .ok () ⟨plan, b.flushFailure, b.bytes ++ bytes⟩) ∨
      ∃ e plan taken rest, writeAll bytes b = .error e ⟨plan, b.flushFailure, b.bytes ++ taken⟩ ∧
        taken.data.toList ++ rest = bytes.data.toList ∧ rest ≠ [] := by
  have hd := deliver_of bytes b.plan
  simp only [writeAll]
  generalize deliver bytes b.plan = d at hd ⊢
  cases hd with
  | whole hf ht =>
    have ht : d.taken = bytes := by
      rw [ByteArray.ext_iff, ← Array.toList_inj]
      exact ht
    refine .inl ⟨d.plan, ?_⟩
    simp only [hf, ht]
  | torn hf ht hr =>
    simp only [hf]
    exact .inr ⟨_, d.plan, d.taken, _, rfl, ht, hr⟩

namespace ArrayWriter

inductive Request where
  | start
  | write (r : MethodRecord)
  | finish
  deriving DecidableEq, Repr

namespace Request

def isWrite : Request → Bool
  | write _ => true
  | start | finish => false

def piece (format : OutputFormat) (before : List Request) : Request → String
  | start => "[\n"
  | write r =>
    match format with
    | .legacy => formatRecord .legacy r ++ ",\n"
    | .strict =>
      if before.any isWrite then ",\n" ++ formatRecord .strict r else formatRecord .strict r
  | finish => if format = .strict ∧ before.any isWrite then "\n]" else "]"

def action {δ : Type} (target : ByteSink δ) : Request → EStateM IoError (ArrayWriter δ) Unit
  | start => ArrayWriter.start target
  | write r => ArrayWriter.write target r
  | finish => ArrayWriter.finish target

def text {δ : Type} (w : ArrayWriter δ) : Request → String
  | start => opening
  | write r => w.piece r
  | finish => w.closing

end Request

section

variable {δ : Type} (target : ByteSink δ) (w : ArrayWriter δ) (request : Request)

def handle (requests : List Request) (w : ArrayWriter δ) : ArrayWriter δ :=
  requests.foldl (fun w request => after (request.action target) w) w

def failure? : Option IoError :=
  match request.action target w with
  | .ok () _ => none
  | .error e _ => some e

def countWritten : List Request → ArrayWriter δ → Nat
  | [], _ => 0
  | request :: requests, w =>
    (if request.isWrite ∧ failure? target w request = none then 1 else 0) +
      countWritten requests (after (request.action target) w)

/-- The writer once its target has been offered what there is to put for a request. -/
def served (whole : Bool) (d : δ) : ArrayWriter δ where
  format := w.format
  recordsWritten := if whole && request.isWrite then w.recordsWritten + 1 else w.recordsWritten
  emitted := w.emitted || request.isWrite
  target := d

variable {target w request}

theorem put_of_ok {text : String} {d : δ} (h : target.writeAll text.toUTF8 w.target = .ok () d) :
    put target text w = .ok () { w with target := d } := by
  simp only [put, onTarget, h]

theorem put_of_error {text : String} {e : IoError} {d : δ}
    (h : target.writeAll text.toUTF8 w.target = .error e d) :
    put target text w = .error e { w with target := d } := by
  simp only [put, onTarget, h]

theorem served_of_not_isWrite (h : request.isWrite = false) (whole : Bool) (d : δ) :
    w.served request whole d = { w with target := d } := by
  simp [served, h]

theorem served_finish (whole : Bool) (d : δ) : w.served .finish whole d = { w with target := d } :=
  served_of_not_isWrite rfl whole d

theorem action_of_error {e : IoError} {d : δ}
    (h : target.writeAll (request.text w).toUTF8 w.target = .error e d) :
    request.action target w = .error e (w.served request false d) := by
  cases request with
  | start =>
    rw [served_of_not_isWrite rfl]
    exact put_of_error h
  | write r =>
    have hp : put target (w.piece r) { w with emitted := true } =
        .error e ⟨w.format, w.recordsWritten, true, d⟩ := put_of_error h
    simp [Request.action, write_eq, hp, served, Request.isWrite]
  | finish =>
    have hp : put target w.closing w = .error e { w with target := d } := put_of_error h
    rw [served_finish, Request.action, finish_eq, hp]

theorem action_of_ok {d : δ}
    (h : target.writeAll (request.text w).toUTF8 w.target = .ok () d) :
    request.action target w =
      if request = .finish then onTarget target.flush (w.served request true d)
      else .ok () (w.served request true d) := by
  cases request with
  | start =>
    rw [served_of_not_isWrite rfl]
    exact put_of_ok h
  | write r =>
    have hp : put target (w.piece r) { w with emitted := true } =
        .ok () ⟨w.format, w.recordsWritten, true, d⟩ := put_of_ok h
    simp [Request.action, write_eq, hp, served, Request.isWrite]
  | finish =>
    have hp : put target w.closing w = .ok () { w with target := d } := put_of_ok h
    rw [served_finish, Request.action, finish_eq, hp, if_pos rfl]

variable (target w request) in
/-- A request leaves nothing open but what becomes of the target. -/
theorem after_action : ∃ d, after (request.action target) w =
    w.served request (failure? target w request).isNone d := by
  cases h : target.writeAll (request.text w).toUTF8 w.target with
  | error e d =>
    have ha := action_of_error h
    refine ⟨d, ?_⟩
    simp only [after, failure?, ha, Option.isNone_some]
  | ok u d =>
    have ha := action_of_ok h
    by_cases hq : request = .finish
    · subst hq
      rw [if_pos rfl] at ha
      rw [after, ha, served_finish]
      simp only [served_finish, onTarget]
      cases target.flush d with
      | ok u d' => exact ⟨d', rfl⟩
      | error e d' => exact ⟨d', rfl⟩
    · rw [if_neg hq] at ha
      refine ⟨d, ?_⟩
      simp only [after, failure?, ha, Option.isNone_none]

theorem handle_eq (target : ByteSink δ) (requests : List Request) (w : ArrayWriter δ) :
    (handle target requests w).format = w.format ∧
      (handle target requests w).emitted = (w.emitted || requests.any Request.isWrite) ∧
      (handle target requests w).recordsWritten =
        w.recordsWritten + countWritten target requests w := by
  induction requests generalizing w with
  | nil => exact ⟨rfl, (Bool.or_false _).symm, rfl⟩
  | cons request requests ih =>
    obtain ⟨hf, he, hn⟩ := ih (after (request.action target) w)
    obtain ⟨d, ha⟩ := after_action target w request
    refine ⟨hf.trans (by rw [ha]; rfl), he.trans ?_, hn.trans ?_⟩
    · rw [ha, List.any_cons, ← Bool.or_assoc]
      rfl
    · rw [countWritten, ← Nat.add_assoc]
      congr 1
      rw [ha, served]
      cases request.isWrite <;> cases failure? target w request <;> simp

theorem text_handle (target : ByteSink δ) (format : OutputFormat) (d : δ) (before : List Request)
    (request : Request) :
    request.text (handle target before (new format d)) = request.piece format before := by
  obtain ⟨hf, he, -⟩ := handle_eq target before (new format d)
  have he : (handle target before (new format d)).emitted = before.any Request.isWrite := he
  have hf : (handle target before (new format d)).format = format := hf
  cases request with
  | start => rfl
  | write r =>
    rw [Request.text, ArrayWriter.piece, hf, he]
    rfl
  | finish =>
    rw [Request.text, closing, hf, he]
    cases format <;> simp [Request.piece]

def retarget {δ' : Type} (f : δ → δ') (w : ArrayWriter δ) : ArrayWriter δ' :=
  ⟨w.format, w.recordsWritten, w.emitted, f w.target⟩

theorem onTarget_retarget {δ' : Type} {f : δ → δ'} {act : EStateM IoError δ Unit}
    {act' : EStateM IoError δ' Unit} (h : act' (f w.target) = seenThrough f (act w.target)) :
    onTarget act' (w.retarget f) = seenThrough (retarget f) (onTarget act w) := by
  simp only [onTarget, retarget, h]
  cases act w.target <;> rfl

section

variable {δ' : Type} {target' : ByteSink δ'} {f : δ → δ'} (h : Mimics f target target')
include h

theorem action_retarget (request : Request) (w : ArrayWriter δ) :
    request.action target' (w.retarget f) =
      seenThrough (retarget f) (request.action target w) := by
  have ht : request.text (w.retarget f) = request.text w := by
    cases request <;> rfl
  have hs : ∀ whole d, (w.retarget f).served request whole (f d) =
      (w.served request whole d).retarget f := fun _ _ => rfl
  have hw := h.writeAll (request.text w).toUTF8 w.target
  rw [← ht] at hw
  cases ho : target.writeAll (request.text w).toUTF8 w.target with
  | error e d =>
    rw [action_of_error ho, action_of_error (hw.trans (by rw [ht, ho]; rfl)), hs]
    rfl
  | ok u d =>
    rw [action_of_ok ho, action_of_ok (hw.trans (by rw [ht, ho]; rfl)), hs]
    split
    · exact onTarget_retarget (h.flush _)
    · rfl

theorem handle_retarget (requests : List Request) (w : ArrayWriter δ) :
    handle target' requests (w.retarget f) = (handle target requests w).retarget f := by
  induction requests generalizing w with
  | nil => rfl
  | cons request requests ih =>
    have ha : after (request.action target') (w.retarget f) =
        (after (request.action target) w).retarget f := by
      rw [after, after, action_retarget h]
      cases request.action target w <;> rfl
    have hh : ∀ {δ : Type} {target : ByteSink δ} (w : ArrayWriter δ),
        handle target (request :: requests) w =
          handle target requests (after (request.action target) w) := fun _ => rfl
    rw [hh, hh, ha, ih]

theorem failure?_retarget : failure? target' (w.retarget f) request = failure? target w request := by
  rw [failure?, failure?, action_retarget h]
  cases request.action target w <;> rfl

end

end

end ArrayWriter

def FaultyBuffer.calm (b : FaultyBuffer) : FaultyBuffer :=
  { b with plan := b.plan.filter (· ≠ .interrupt) }

theorem deliver_filter (bytes : ByteArray) (plan : List Fault) :
    deliver bytes (plan.filter (· ≠ .interrupt)) =
      ⟨(deliver bytes plan).failure, (deliver bytes plan).taken,
        (deliver bytes plan).plan.filter (· ≠ .interrupt)⟩ := by
  induction plan generalizing bytes with
  | nil => rfl
  | cons fault plan ih =>
    by_cases he : bytes.isEmpty
    · rw [deliver_of_isEmpty he, deliver_of_isEmpty he]
    cases fault with
    | interrupt =>
      have hd : deliver bytes (.interrupt :: plan) = deliver bytes plan := by
        simp only [deliver, if_neg he]
      rw [List.filter_cons_of_neg (by decide), hd, ih]
    | none =>
      rw [List.filter_cons_of_pos (by decide)]
      simp only [deliver, if_neg he]
    | failure text =>
      rw [List.filter_cons_of_pos (by simp)]
      simp only [deliver, if_neg he]
    | limit count =>
      rw [List.filter_cons_of_pos (by simp)]
      cases count with
      | zero => simp only [deliver, if_neg he]
      | succ count => simp only [deliver, if_neg he, ih]

theorem FaultyBuffer.mimics_calm : Mimics calm sink sink where
  writeAll bytes b := by
    simp only [sink, writeAll, calm, deliver_filter]
    cases (deliver bytes b.plan).failure <;> rfl
  flush b := by
    obtain ⟨plan, flushFailure, bytes⟩ := b
    cases flushFailure <;> rfl

namespace ArrayWriter

section

variable (piece : String) (request : Request) (w : ArrayWriter FaultyBuffer)

/-- The whole of a piece is put for a request. -/
def PutsWhole : Prop :=
  (after (request.action FaultyBuffer.sink) w).output = w.output ++ Utf8.encode piece

instance : Decidable (PutsWhole piece request w) :=
  inferInstanceAs (Decidable (_ = _))

structure Fares : Prop where
  ends : ∃ n ≤ w.target.plan.length + 1,
    FaultyBuffer.EndsAfter n piece.toUTF8 w.target
      (FaultyBuffer.writeAll piece.toUTF8 w.target) ∧
    (after (request.action FaultyBuffer.sink) w).target =
      after (FaultyBuffer.writeAll piece.toUTF8) w.target
  puts : ∃ taken, taken <+: Utf8.encode piece ∧
    (after (request.action FaultyBuffer.sink) w).output = w.output ++ taken
  succeeds : request ≠ .finish →
    (failure? FaultyBuffer.sink w request = none ↔ PutsWhole piece request w)
  finishes : request = .finish →
    (failure? FaultyBuffer.sink w request = none ↔
      PutsWhole piece request w ∧ w.target.flushFailure = none)
  flushes : ∀ n, after (request.action (counting FaultyBuffer.sink)) (w.retarget (·, n)) =
    (after (request.action FaultyBuffer.sink) w).retarget
      (·, if request = .finish ∧ PutsWhole piece request w then n + 1 else n)

variable {piece request w}

theorem counting_of_ok {bytes : ByteArray} {b d : FaultyBuffer}
    (h : FaultyBuffer.sink.writeAll bytes b = .ok () d) (n : Nat) :
    (counting FaultyBuffer.sink).writeAll bytes (b, n) = .ok () (d, n) := by
  simp only [counting, h]

theorem counting_of_error {bytes : ByteArray} {b d : FaultyBuffer} {e : IoError}
    (h : FaultyBuffer.sink.writeAll bytes b = .error e d) (n : Nat) :
    (counting FaultyBuffer.sink).writeAll bytes (b, n) = .error e (d, n) := by
  simp only [counting, h]

theorem fares_of_error (hp : request.text w = piece) {e : IoError} {plan : List Fault}
    {taken : ByteArray} {rest : List UInt8}
    (h : FaultyBuffer.writeAll piece.toUTF8 w.target =
      .error e ⟨plan, w.target.flushFailure, w.target.bytes ++ taken⟩)
    (ht : taken.data.toList ++ rest = Utf8.encode piece) (hr : rest ≠ []) :
    Fares piece request w := by
  subst hp
  have ha : request.action FaultyBuffer.sink w = _ := action_of_error h
  have ho : (after (request.action FaultyBuffer.sink) w).output =
      w.output ++ taken.data.toList := by
    rw [after, ha, output, output, served, ByteArray.data_append, Array.toList_append]
  have hf : failure? FaultyBuffer.sink w request ≠ none := by
    rw [failure?, ha]
    exact Option.some_ne_none e
  have hn : ¬ PutsWhole (request.text w) request w := by
    intro hw
    rw [PutsWhole, ho, ← ht, List.append_cancel_left_eq, eq_comm, List.append_right_eq_self] at hw
    exact hr hw
  obtain ⟨n, hle, hends⟩ := FaultyBuffer.endsAfter_writeAll (request.text w).toUTF8 w.target
  refine ⟨⟨n, hle, hends, ?_⟩, ⟨_, ⟨rest, ht⟩, ho⟩, fun _ => iff_of_false hf hn,
    fun _ => iff_of_false hf fun hw => hn hw.1, fun n => ?_⟩
  · rw [after, after, ha, h]
    rfl
  · have hc : request.action (counting FaultyBuffer.sink) (w.retarget (·, n)) = _ :=
      action_of_error (counting_of_error h n)
    rw [after, after, ha, hc, if_neg fun hw => hn hw.2]
    rfl

theorem putsWhole_of_bytes {w' : ArrayWriter FaultyBuffer}
    (ha : after (request.action FaultyBuffer.sink) w = w')
    (hb : w'.target.bytes = w.target.bytes ++ piece.toUTF8) : PutsWhole piece request w := by
  rw [PutsWhole, ha, output, hb, ByteArray.data_append, Array.toList_append]
  rfl

theorem after_flush : after (onTarget FaultyBuffer.sink.flush) w = w := by
  obtain h | ⟨e, h⟩ := flush_cases w
  · rw [after, h]
  · rw [after, h]

theorem after_flush_counting (n : Nat) :
    after (onTarget (counting FaultyBuffer.sink).flush) (w.retarget (·, n)) =
      w.retarget (·, n + 1) := by
  obtain ⟨format, recordsWritten, emitted, plan, flushFailure, bytes⟩ := w
  cases flushFailure <;> rfl

theorem isOk_flush_iff :
    (∃ w', onTarget FaultyBuffer.sink.flush w = .ok () w') ↔ w.target.flushFailure = none := by
  obtain ⟨format, recordsWritten, emitted, plan, flushFailure, bytes⟩ := w
  cases flushFailure with
  | none => exact iff_of_true ⟨_, rfl⟩ rfl
  | some text => exact iff_of_false (fun ⟨_, h⟩ => nomatch h) (Option.some_ne_none text)

theorem failure?_eq_none_iff {δ : Type} {target : ByteSink δ} {w : ArrayWriter δ} :
    failure? target w request = none ↔ ∃ w', request.action target w = .ok () w' := by
  rw [failure?]
  cases request.action target w with
  | ok u w' => exact iff_of_true rfl ⟨w', rfl⟩
  | error e w' => exact iff_of_false (Option.some_ne_none e) fun ⟨_, h⟩ => nomatch h

theorem fares_of_ok (hp : request.text w = piece) {plan : List Fault}
    (h : FaultyBuffer.writeAll piece.toUTF8 w.target =
      .ok () ⟨plan, w.target.flushFailure, w.target.bytes ++ piece.toUTF8⟩) :
    Fares piece request w := by
  subst hp
  have ha : request.action FaultyBuffer.sink w = _ := action_of_ok h
  have hc : ∀ n, request.action (counting FaultyBuffer.sink) (w.retarget (·, n)) = _ := fun n =>
    action_of_ok (counting_of_ok h n)
  obtain ⟨n, hle, hends⟩ := FaultyBuffer.endsAfter_writeAll (request.text w).toUTF8 w.target
  have hafter : after (request.action FaultyBuffer.sink) w = w.served request true
      ⟨plan, w.target.flushFailure, w.target.bytes ++ (request.text w).toUTF8⟩ := by
    rw [after, ha]
    by_cases hq : request = .finish
    · rw [if_pos hq]
      exact after_flush
    · rw [if_neg hq]
  have hw := putsWhole_of_bytes hafter rfl
  refine ⟨⟨n, hle, hends, by rw [hafter, after, h]; rfl⟩, ⟨_, List.prefix_refl _, hw⟩, ?_, ?_, ?_⟩
  · intro hq
    rw [failure?_eq_none_iff, ha, if_neg hq]
    exact iff_of_true ⟨_, rfl⟩ hw
  · intro hq
    rw [failure?_eq_none_iff, ha, if_pos hq, isOk_flush_iff]
    exact (and_iff_right hw).symm
  · intro n
    rw [hafter, after, hc]
    by_cases hq : request = .finish
    · rw [if_pos hq, if_pos ⟨hq, hw⟩]
      exact after_flush_counting (w := w.served request true _) n
    · rw [if_neg hq, if_neg fun h => hq h.1]
      rfl

theorem fares_of_text (hp : request.text w = piece) : Fares piece request w := by
  obtain ⟨plan, h⟩ | ⟨e, plan, taken, rest, h, ht, hr⟩ :=
    FaultyBuffer.writeAll_cases piece.toUTF8 w.target
  · exact fares_of_ok hp h
  · exact fares_of_error hp h ht hr

end

/-- Every request to a writer, after any others, puts its piece or the front of it and fails
accordingly, and interrupts are as if they were not. -/
theorem requests_fare (format : OutputFormat) (b : FaultyBuffer) (before : List Request)
    (request : Request) :
    let w := handle FaultyBuffer.sink before (new format b)
    let calm := handle FaultyBuffer.sink before (new format b.calm)
    Fares (request.piece format before) request w ∧
      w.recordsWritten = countWritten FaultyBuffer.sink before (new format b) ∧
      calm = w.retarget FaultyBuffer.calm ∧
      failure? FaultyBuffer.sink calm request = failure? FaultyBuffer.sink w request := by
  have hcalm : handle FaultyBuffer.sink before (new format b.calm) =
      (handle FaultyBuffer.sink before (new format b)).retarget FaultyBuffer.calm :=
    handle_retarget FaultyBuffer.mimics_calm before (new format b)
  obtain ⟨-, -, hn⟩ := handle_eq FaultyBuffer.sink before (new format b)
  refine ⟨fares_of_text (text_handle FaultyBuffer.sink format b before request),
    hn.trans (Nat.zero_add _), hcalm, ?_⟩
  rw [hcalm]
  exact failure?_retarget FaultyBuffer.mimics_calm

end ArrayWriter

end MethodExtraction.Output
