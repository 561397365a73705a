import MethodExtraction.Parse.Search

namespace MethodExtraction.Parse

variable {σ α β : Type}

/-- A program from a state with `P` ends in a state with `Q`, which may speak of the result too. -/
def Ensures (P : σ → Prop) (m : StateM σ α) (Q : α → σ → Prop) : Prop :=
  ∀ s, P s → Q (m.run s).1 (m.run s).2

namespace Ensures

variable {P P' : σ → Prop} {Q Q' : α → σ → Prop} {m : StateM σ α}

theorem mono (h : Ensures P m Q) (hp : ∀ s, P' s → P s) (hq : ∀ a s, Q a s → Q' a s) :
    Ensures P' m Q' := fun s hs => hq _ _ (h s (hp s hs))

theorem pure {a : α} (h : ∀ s, P s → Q a s) : Ensures P (pure a) Q := h

theorem bind {R : β → σ → Prop} {n : StateM σ β} {f : β → StateM σ α} (h : Ensures P n R)
    (hf : ∀ b, Ensures (R b) (f b) Q) : Ensures P (n >>= f) Q :=
  fun s hs => hf _ _ (h s hs)

theorem set {Q : PUnit → σ → Prop} {s' : σ} (h : ∀ s, P s → Q ⟨⟩ s') :
    Ensures P (set s' : StateM σ PUnit) Q := h

theorem modify {Q : PUnit → σ → Prop} {f : σ → σ} (h : ∀ s, P s → Q ⟨⟩ (f s)) :
    Ensures P (modify f : StateM σ PUnit) Q := h

theorem modifyGet {f : σ → α × σ} (h : ∀ s, P s → Q (f s).1 (f s).2) :
    Ensures P (modifyGet f : StateM σ α) Q := h

end Ensures

end MethodExtraction.Parse
