import MethodExtraction.Output.Sink

namespace MethodExtraction.Output

open Files Java

variable {σ : Type}

def after (action : EStateM IoError σ Unit) (s : σ) : σ :=
  match action s with
  | .ok _ s => s
  | .error _ s => s

namespace RecordSink

variable (sink : RecordSink σ)

def writeEach : List MethodRecord → σ → List MethodRecord × σ
  | [], s => ([], s)
  | r :: records, s =>
    match sink.write r s with
    | .ok _ s => ((writeEach records s).map (r :: ·) id)
    | .error _ s => writeEach records s

def Failing (related : σ → σ → Prop) : List MethodRecord → σ → Prop
  | [], _ => True
  | r :: records, s =>
    match sink.write r s with
    | .ok _ s' => Failing related records s'
    | .error _ s' => related s s' ∧ Failing related records s'

theorem failing_true (records : List MethodRecord) (s : σ) :
    sink.Failing (fun _ _ => True) records s := by
  induction records generalizing s with
  | nil => trivial
  | cons r records ih =>
    rw [Failing]
    cases sink.write r s with
    | ok _ s' => exact ih s'
    | error e s' => exact ⟨trivial, ih s'⟩

/-- What every attempt preserves, of the records written before it and the state, holds in the
end. -/
theorem writeEach_invariant {holds : List MethodRecord → σ → Prop} {related : σ → σ → Prop}
    (hok : ∀ {written s r s'}, holds written s → sink.write r s = .ok () s' →
      holds (written ++ [r]) s')
    (herror : ∀ {written s r e s'}, holds written s → sink.write r s = .error e s' →
      related s s' → holds written s')
    {records written : List MethodRecord} {s : σ} (hs : holds written s)
    (hf : sink.Failing related records s) :
    holds (written ++ (sink.writeEach records s).1) (sink.writeEach records s).2 := by
  induction records generalizing written s with
  | nil =>
    rw [writeEach, List.append_nil]
    exact hs
  | cons r records ih =>
    rw [Failing] at hf
    rw [writeEach]
    cases hw : sink.write r s with
    | ok _ s' =>
      rw [hw] at hf
      have := ih (hok hs hw) hf
      rwa [List.append_assoc, List.singleton_append] at this
    | error e s' =>
      rw [hw] at hf
      exact ih (herror hs hw hf.1) hf.2

end RecordSink

end MethodExtraction.Output
