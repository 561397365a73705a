import MethodExtraction.Proofs.Parse.Stacks

namespace MethodExtraction.Parse

open Grammar Stack

variable {B : Nat → Prop} {t : Table}

def Follows : Nat → List Nat → Nat → Prop
  | c, [], m => m = c + 1
  | c, k :: ks, m => (k = c ∨ k = c + 1) ∧ Follows k ks m

/-- The numbers go up one by one from `n` and end before `m`, each as often as it likes. -/
def Climbs : Nat → List Nat → Nat → Prop
  | n, [], m => m = n
  | n, k :: ks, m => k = n ∧ Follows k ks m

namespace Climbs

variable {c n m a : Nat} {ks ls : List Nat}

theorem follows_twice (h : Follows c (ks ++ a :: ls) m) : Follows c (ks ++ a :: a :: ls) m := by
  induction ks generalizing c with
  | nil => exact ⟨h.1, .inl rfl, h.2⟩
  | cons k ks ih => exact ⟨h.1, ih h.2⟩

theorem follows_push (h : Follows c ks m) : Follows c (ks ++ [m]) (m + 1) := by
  induction ks generalizing c with
  | nil => exact ⟨.inr h, rfl⟩
  | cons k ks ih => exact ⟨h.1, ih h.2⟩

theorem twice (h : Climbs n (ks ++ a :: ls) m) : Climbs n (ks ++ a :: a :: ls) m := by
  cases ks with
  | nil => exact ⟨h.1, .inl rfl, h.2⟩
  | cons k ks => exact ⟨h.1, follows_twice h.2⟩

theorem push (h : Climbs n ks m) : Climbs n (ks ++ [m]) (m + 1) := by
  cases ks with
  | nil => exact ⟨h, rfl⟩
  | cons k ks => exact ⟨h.1, follows_push h.2⟩

theorem le_of_follows (h : Follows c ks m) : ∀ k ∈ ks, c ≤ k := by
  induction ks generalizing c with
  | nil => exact List.forall_mem_nil _
  | cons k ks ih =>
    have hk : c ≤ k := by
      have := h.1
      omega
    exact List.forall_mem_cons.2 ⟨hk, fun j hj => Nat.le_trans hk (ih h.2 j hj)⟩

theorem pairwise_of_follows (h : Follows c ks m) : ks.Pairwise (· ≤ ·) := by
  induction ks generalizing c with
  | nil => exact List.Pairwise.nil
  | cons k ks ih => exact .cons (le_of_follows h.2) (ih h.2)

theorem pairwise (h : Climbs n ks m) : ks.Pairwise (· ≤ ·) := by
  cases ks with
  | nil => exact List.Pairwise.nil
  | cons k ks => exact .cons (le_of_follows h.2) (pairwise_of_follows h.2)

end Climbs

/-- What a walk has taken off: new versions at the places `news`, and for each slice what holds of
the place that is left and of the trees. -/
structure Cut (M : List (Nat × Bool)) (T : Nat → List Tree → Prop) (news : List Nat)
    (slices : Array Slice) : Prop where
  climbs : Climbs M.length (slices.toList.map Slice.version) (M.length + news.length)
  slices : ∀ x ∈ slices, ∃ i q, x.version = M.length + i ∧ news[i]? = some q ∧ T q x.trees

def withNews (M : List (Nat × Bool)) (news : List Nat) : List (Nat × Bool) :=
  M ++ news.map fun q => (q, false)

variable {M : List (Nat × Bool)} {T : Nat → List Tree → Prop}

theorem insertIdx_split {α : Type} {l : List α} {i : Nat} {a : α} (h : l[i]? = some a) (b : α) :
    ∃ l₁ l₂, l = l₁ ++ a :: l₂ ∧ l.insertIdx (i + 1) b = l₁ ++ a :: b :: l₂ := by
  induction l generalizing i with
  | nil => cases h
  | cons c l ih =>
    cases i with
    | zero =>
      obtain rfl := Option.some.inj h
      exact ⟨[], l, rfl, rfl⟩
    | succ i =>
      obtain ⟨l₁, l₂, hl, hb⟩ := ih h
      exact ⟨c :: l₁, l₂, congrArg (c :: ·) hl, congrArg (c :: ·) hb⟩

namespace Cut

theorem again {news : List Nat} {slices : Array Slice} {i : Nat} {trees : List Tree}
    (h : Cut M T news slices) (hi : i < slices.size)
    (hq : ∀ k q, (slices[i]!).version = M.length + k → news[k]? = some q → T q trees) :
    Cut M T news (slices.insertIdxIfInBounds (i + 1) ⟨(slices[i]!).version, trees⟩) := by
  have hget : slices.toList[i]? = some slices[i]! := by
    rw [Array.getElem?_toList, Array.getElem?_eq_getElem hi, getElem!_pos slices i hi]
  obtain ⟨l₁, l₂, hl, hnew⟩ := insertIdx_split hget ⟨(slices[i]!).version, trees⟩
  have hnew : (slices.insertIdxIfInBounds (i + 1) ⟨(slices[i]!).version, trees⟩).toList =
      l₁ ++ slices[i]! :: ⟨(slices[i]!).version, trees⟩ :: l₂ := by
    rw [Array.insertIdxIfInBounds, dif_pos (Nat.succ_le_of_lt hi), Array.toList_insertIdx, hnew]
  refine ⟨?_, fun x hx => ?_⟩
  · have hclimbs := h.climbs
    rw [hl, List.map_append, List.map_cons] at hclimbs
    rw [hnew, List.map_append, List.map_cons, List.map_cons]
    exact hclimbs.twice
  · have hold : ∀ x ∈ l₁ ++ slices[i]! :: l₂, ∃ i q, x.version = M.length + i ∧
        news[i]? = some q ∧ T q x.trees := by
      intro x hx
      exact h.slices x (Array.mem_toList_iff.1 (hl ▸ hx))
    obtain ⟨k, q, hk, hk', -⟩ := hold _ (List.mem_append_right _ List.mem_cons_self)
    rw [← Array.mem_toList_iff, hnew] at hx
    simp only [List.mem_append, List.mem_cons] at hx
    obtain hx | rfl | rfl | hx := hx
    · exact hold x (List.mem_append_left _ hx)
    · exact hold _ (List.mem_append_right _ List.mem_cons_self)
    · exact ⟨k, q, hk, hk', hq k q hk hk'⟩
    · exact hold x (List.mem_append_right _ (List.mem_cons_of_mem _ hx))

theorem push {news : List Nat} {slices : Array Slice} {q : Nat} {trees : List Tree}
    (h : Cut M T news slices) (hq : T q trees) :
    Cut M T (news ++ [q]) (slices.push ⟨M.length + news.length, trees⟩) := by
  refine ⟨?_, fun x hx => ?_⟩
  · rw [Array.toList_push, List.map_append, List.length_append]
    exact h.climbs.push
  · obtain hx | rfl := Array.mem_push.1 hx
    · obtain ⟨i, q', hi, hq', htrees⟩ := h.slices x hx
      exact ⟨i, q', hi, by rw [List.getElem?_append_left (List.getElem?_eq_some_iff.1 hq').1, hq'],
        htrees⟩
    · exact ⟨news.length, q, rfl, List.getElem?_concat_length, hq⟩

end Cut

namespace StackM

variable {v : Nat} {s₀ : Stack}

/-- The state of a walk through the nodes of `s₀`. -/
def Walks (B : Nat → Prop) (t : Table) (M : List (Nat × Bool)) (T : Nat → List Tree → Prop)
    (s₀ : Stack) (slices : Array Slice) (s : Stack) : Prop :=
  s.nodes = s₀.nodes ∧ ∃ news, s.Marked B t (withNews M news) ∧ Cut M T news slices

variable {p : Nat} {b : Bool}

theorem node_follow (w : Walker) (keep : Bool) (l : Link) : (w.follow keep l).node = l.node := by
  rw [Walker.follow]
  split <;> rfl

theorem follow_of_joins {s : Stack} {l : Link} {place : Nat} (h : l.Joins B t s place)
    (w : Walker) :
    ((w.follow true l).trees = w.trees ∧ s.placeAt l.node = place) ∨
      ∃ x, (w.follow true l).trees = x :: w.trees ∧ Sits B t (s.placeAt l.node) x ∧
        s.placeAt l.node + x.stretch.bytes = place := by
  have hplace := h.place
  rw [Link.bytes] at hplace
  rw [Walker.follow]
  cases htree : l.tree with
  | none =>
    rw [htree, Option.map_none, Option.getD_none, Nat.add_zero] at hplace
    exact .inl ⟨rfl, hplace⟩
  | some x =>
    rw [htree, Option.map_some, Option.getD_some] at hplace
    exact .inr ⟨x, rfl, h.tree x htree, hplace⟩

def Passed (B : Nat → Prop) (t : Table) (s : Stack) (p : Nat) (w : Walker) : Prop :=
  w.node < s.nodes.size ∧ Row B t (s.placeAt w.node) w.trees p

theorem Passed.follow {w : Walker} {l : Link} (h : Passed B t s₀ p w) (hs : s₀.Sound B t)
    (hl : l ∈ (s₀.nodes[w.node]!).links) : Passed B t s₀ p (w.follow true l) := by
  have hjoins := hs.links w.node h.1 l hl
  rw [Passed, node_follow]
  obtain ⟨htrees, hplace⟩ | ⟨x, htrees, hx, hplace⟩ := follow_of_joins hjoins w
  · rw [htrees, hplace]
    exact ⟨hjoins.node, h.2⟩
  · rw [htrees]
    exact ⟨hjoins.node, .cons hx.lies (hplace.symm ▸ h.2)⟩

theorem Walks.marked {slices : Array Slice} {s : Stack}
    (h : Walks B t M (fun _ _ => False) s₀ slices s) : s.Marked B t M := by
  obtain ⟨-, news, hmarked, hcut⟩ := h
  have hnone : slices = #[] := by
    refine Array.eq_empty_iff_forall_not_mem.2 fun x hx => ?_
    obtain ⟨-, -, -, -, hx⟩ := hcut.slices x hx
    exact hx
  have hclimbs := hcut.climbs
  rw [hnone] at hclimbs
  have hnews : news = [] := List.eq_nil_of_length_eq_zero (Nat.add_left_cancel hclimbs)
  rw [hnews, withNews, List.map_nil, List.append_nil] at hmarked
  exact hmarked

def PassedTop (B : Nat → Prop) (t : Table) (s : Stack) (p : Nat) (w : Walker) : Prop :=
  w.node < s.nodes.size ∧ (w.trees = [] ∧ s.placeAt w.node = p ∨
    ∃ x, w.trees = [x] ∧ Sits B t (s.placeAt w.node) x ∧ s.placeAt w.node + x.stretch.bytes = p)

theorem PassedTop.follow {w : Walker} {l : Link} (h : PassedTop B t s₀ p w) (hs : s₀.Sound B t)
    (htrees : w.trees = []) (hl : l ∈ (s₀.nodes[w.node]!).links) :
    PassedTop B t s₀ p (w.follow true l) := by
  have hjoins := hs.links w.node h.1 l hl
  have hp : s₀.placeAt w.node = p := by
    obtain ⟨-, ⟨-, hp⟩ | ⟨x, hx, -⟩⟩ := h
    · exact hp
    · rw [hx] at htrees
      cases htrees
  rw [PassedTop, node_follow, ← hp]
  refine ⟨hjoins.node, (follow_of_joins hjoins w).imp ?_ ?_⟩
  · exact fun ⟨hf, hplace⟩ => ⟨hf.trans htrees, hplace⟩
  · exact fun ⟨x, hf, hx, hplace⟩ => ⟨x, hf.trans (congrArg (x :: ·) htrees), hx, hplace⟩

end StackM

end MethodExtraction.Parse
