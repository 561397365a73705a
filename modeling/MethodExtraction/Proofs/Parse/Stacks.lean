import Mathlib.Data.List.InsertIdx
import MethodExtraction.Parse.Stack
import MethodExtraction.Proofs.Parse.Lying
import MethodExtraction.Proofs.Parse.Steps

namespace MethodExtraction.Parse

open Grammar

variable {B : Nat → Prop} {t : Table}

/-- A tree on the stack; an error is made up of its children, so that it can be taken apart. -/
structure Sits (B : Nat → Prop) (t : Table) (p : Nat) (x : Tree) : Prop where
  lies : Lies B t p x
  whole : x.head.code = errorCode t → Row B t p x.children.toList (p + x.stretch.bytes)

theorem mem_modify {α : Type} {l : List α} {i : Nat} {f : α → α} {a : α} (h : a ∈ l.modify i f) :
    a ∈ l ∨ ∃ b, l[i]? = some b ∧ a = f b := by
  obtain ⟨j, hj⟩ := List.mem_iff_getElem?.1 h
  rw [List.getElem?_modify, Option.map_eq_map, Option.map_eq_some_iff] at hj
  obtain ⟨b, hb, rfl⟩ := hj
  by_cases hij : i = j
  · rw [hij]
    exact .inr ⟨b, hb, if_pos rfl⟩
  · rw [if_neg hij]
    exact .inl (List.mem_of_getElem? hb)

theorem map_modify {α β : Type} {l : List α} {i : Nat} {f : α → α} {g : α → β} (f' : β → β)
    (h : ∀ a, g (f a) = f' (g a)) : (l.modify i f).map g = (l.map g).modify i f' := by
  refine List.ext_getElem? fun j => ?_
  rw [List.getElem?_map, List.getElem?_modify, List.getElem?_modify, List.getElem?_map]
  by_cases hij : i = j
  · simp [hij, h, Function.comp_def]
  · simp [hij]

namespace Stack

def placeAt (s : Stack) (i : Nat) : Nat := (s.nodes[i]!).place.bytes

end Stack

def Link.bytes (l : Link) : Nat := (l.tree.map fun x => x.stretch.bytes).getD 0

structure Link.Joins (B : Nat → Prop) (t : Table) (s : Stack) (l : Link) (place : Nat) : Prop where
  node : l.node < s.nodes.size
  tree : ∀ x, l.tree = some x → Sits B t (s.placeAt l.node) x
  place : s.placeAt l.node + l.bytes = place

/-- A version stands on a node, and the token for which it waits lies there. -/
structure Version.Stands (B : Nat → Prop) (t : Table) (s : Stack) (h : Version) : Prop where
  top : h.top < s.nodes.size
  token : ∀ x, h.status = .paused x → Lies B t (s.placeAt h.top) x

namespace Stack

structure Sound (B : Nat → Prop) (t : Table) (s : Stack) : Prop where
  nonempty : 0 < s.nodes.size
  links : ∀ i < s.nodes.size, ∀ l ∈ (s.nodes[i]!).links, l.Joins B t s (s.placeAt i)
  bottom : ∀ i < s.nodes.size, (s.nodes[i]!).links = #[] → s.placeAt i = 0
  places : ∀ i < s.nodes.size, B (s.placeAt i)
  versions : ∀ h ∈ s.versions, h.Stands B t s

def mark (s : Stack) (h : Version) : Nat × Bool := (s.placeAt h.top, h.status.isPaused)

def marks (s : Stack) : List (Nat × Bool) := s.versions.toList.map s.mark

structure Marked (B : Nat → Prop) (t : Table) (M : List (Nat × Bool)) (s : Stack) : Prop where
  sound : s.Sound B t
  marks : s.marks = M

variable {s s' : Stack} {M : List (Nat × Bool)} {m : Nat × Bool} {v p : Nat}

theorem getElem?_marks (s : Stack) (v : Nat) : s.marks[v]? = (s.versions[v]?).map s.mark := by
  rw [marks, List.getElem?_map, Array.getElem?_toList]

namespace Sound

theorem withVersions {vs : Array Version} (h : s.Sound B t) (hv : ∀ k ∈ vs, k.Stands B t s) :
    ({ s with versions := vs } : Stack).Sound B t :=
  ⟨h.nonempty, fun i hi l hl => ⟨(h.links i hi l hl).node, (h.links i hi l hl).tree,
    (h.links i hi l hl).place⟩, h.bottom, h.places, fun k hk => ⟨(hv k hk).top, (hv k hk).token⟩⟩

end Sound

/-- The nodes of a stack are still there, at their places. -/
structure Grows (s s' : Stack) : Prop where
  size : s.nodes.size ≤ s'.nodes.size
  place : ∀ i < s.nodes.size, s'.placeAt i = s.placeAt i

namespace Grows

theorem mark {k : Version} (h : Grows s s') (hk : k.Stands B t s) : s'.mark k = s.mark k := by
  rw [Stack.mark, h.place k.top hk.top, Stack.mark]

end Grows

theorem Grows.marked (h : Grows s s') (hs : s.Marked B t M) (hs' : s'.Sound B t)
    (hv : s'.versions = s.versions) : s'.Marked B t M := by
  refine ⟨hs', ?_⟩
  rw [← hs.marks, marks, marks, hv]
  exact List.map_congr_left fun k hk =>
    h.mark (hs.sound.versions k (Array.mem_toList_iff.1 hk))

theorem Grows.refl (s : Stack) : Grows s s := ⟨Nat.le_refl _, fun _ _ => rfl⟩

theorem Grows.trans {s₁ s₂ s₃ : Stack} (h : Grows s₁ s₂) (h' : Grows s₂ s₃) : Grows s₁ s₃ :=
  ⟨Nat.le_trans h.size h'.size, fun i hi =>
    (h'.place i (Nat.lt_of_lt_of_le hi h.size)).trans (h.place i hi)⟩

/-- A stack is sound still, and its versions stand where they stood. -/
structure Keeps (B : Nat → Prop) (t : Table) (s s' : Stack) : Prop where
  grows : Grows s s'
  sound : s'.Sound B t
  versions : s'.versions = s.versions

theorem Sound.keeps (h : s.Sound B t) : Keeps B t s s := ⟨.refl s, h, rfl⟩

theorem Keeps.trans {s₁ s₂ s₃ : Stack} (h : Keeps B t s₁ s₂) (h' : Keeps B t s₂ s₃) :
    Keeps B t s₁ s₃ :=
  ⟨h.grows.trans h'.grows, h'.sound, h'.versions.trans h.versions⟩

theorem Marked.withVersions {M' : List (Nat × Bool)} {vs : Array Version} (h : s.Marked B t M)
    (hv : ∀ k ∈ vs, k.Stands B t s) (hm : vs.toList.map s.mark = M') :
    ({ s with versions := vs } : Stack).Marked B t M' := ⟨h.sound.withVersions hv, hm⟩

theorem Marked.map_mark (h : s.Marked B t M) : s.versions.toList.map s.mark = M := h.marks

theorem Marked.modifyVersion {f : Version → Version} (g : Nat × Bool → Nat × Bool)
    (h : s.Marked B t M)
    (hstands : ∀ k, s.versions[v]? = some k → k.Stands B t s → (f k).Stands B t s)
    (hmark : ∀ k, s.mark (f k) = g (s.mark k)) :
    ({ s with versions := s.versions.modify v f } : Stack).Marked B t (M.modify v g) := by
  refine h.withVersions (fun k hk => ?_) ?_
  · rw [← Array.mem_toList_iff, Array.toList_modify] at hk
    obtain hk | ⟨k', hk', rfl⟩ := mem_modify hk
    · exact h.sound.versions k (Array.mem_toList_iff.1 hk)
    · rw [Array.getElem?_toList] at hk'
      exact hstands k' hk' (h.sound.versions k' (Array.mem_of_getElem? hk'))
  · rw [Array.toList_modify, map_modify g hmark, h.map_mark]

theorem Marked.exists_version (h : s.Marked B t M) (hm : M[v]? = some m) :
    s.versions[v]? = some (s.version v) ∧ s.mark (s.version v) = m ∧
      (s.version v).Stands B t s := by
  rw [← h.marks, getElem?_marks, Option.map_eq_some_iff] at hm
  obtain ⟨k, hk, rfl⟩ := hm
  have hversion : s.version v = k := by rw [version, hk, Option.getD_some]
  rw [hversion]
  exact ⟨hk, rfl, h.sound.versions k (Array.mem_of_getElem? hk)⟩

theorem Marked.placeOf (h : s.Marked B t M) (hm : M[v]? = some m) :
    (s.placeOf v).bytes = m.1 := by
  rw [← (h.exists_version hm).2.1]
  rfl

theorem Marked.exists_getElem? (h : s.Marked B t M) (hv : ¬ (s.statusOf v).isHalted = true) :
    M[v]? = some (s.mark (s.version v)) ∧ (s.version v).Stands B t s := by
  cases hk : s.versions[v]? with
  | none =>
    rw [statusOf, version, hk] at hv
    exact absurd rfl hv
  | some k =>
    have hversion : s.version v = k := by rw [version, hk, Option.getD_some]
    rw [← h.marks, getElem?_marks, hk, hversion]
    exact ⟨rfl, h.sound.versions k (Array.mem_of_getElem? hk)⟩

theorem Marked.paused {x : Tree} (h : s.Marked B t M) (hx : s.statusOf v = .paused x) :
    ∃ p, M[v]? = some (p, true) ∧ Lies B t p x := by
  obtain ⟨hm, hstands⟩ := h.exists_getElem? (v := v) (by rw [hx]; exact Bool.false_ne_true)
  have hpaused : (s.version v).status.isPaused = true := congrArg Status.isPaused hx
  rw [mark, hpaused] at hm
  exact ⟨_, hm, hstands.token x hx⟩

theorem Marked.active (h : s.Marked B t M) (hv : (s.statusOf v).isActive = true) :
    ∃ p, M[v]? = some (p, false) := by
  have hstatus : s.statusOf v = .active := by
    cases hs : s.statusOf v with
    | active => rfl
    | paused x => rw [hs] at hv; cases hv
    | halted => rw [hs] at hv; cases hv
  obtain ⟨hm, -⟩ := h.exists_getElem? (v := v) (by rw [hstatus]; exact Bool.false_ne_true)
  have hpaused : (s.version v).status.isPaused = false := congrArg Status.isPaused hstatus
  rw [mark, hpaused] at hm
  exact ⟨_, hm⟩

theorem Marked.place (h : s.Marked B t M) (hm : M[v]? = some m) : B m.1 := by
  rw [← (h.exists_version hm).2.1]
  exact h.sound.places _ (h.exists_version hm).2.2.top

end Stack

namespace StackM

open Stack

variable {M : List (Nat × Bool)} {m : Nat × Bool} {v p : Nat}

section Nodes

variable {tree : Option Tree} {state : Nat} {s : Stack}

end Nodes

end StackM

end MethodExtraction.Parse
