import Mathlib
import MethodExtraction.Parse.Tree

namespace MethodExtraction.Parse

open Grammar

variable {B : Nat → Prop} {t : Table}

mutual

/-- A tree laid at a place begins and ends where `B` allows it, and so do the trees below it. No
tree is shorter than its children are together, and those of an error that stands beside the rules
make up all of it. -/
inductive Lies (B : Nat → Prop) (t : Table) : Nat → Tree → Prop where
  | node {p q : Nat} {h : TreeHead} {children : Array Tree} (start : B (p + h.padding.bytes))
      (stop : B (p + (h.padding.bytes + h.extent.bytes))) (row : Row B t p children.toList q)
      (within : q ≤ p + (h.padding.bytes + h.extent.bytes))
      (filled : h.extra = true → h.code = errorCode t →
        q = p + (h.padding.bytes + h.extent.bytes)) :
      Lies B t p (.node h children)

inductive Row (B : Nat → Prop) (t : Table) : Nat → List Tree → Nat → Prop where
  | nil (p : Nat) : Row B t p [] p
  | cons {p q : Nat} {x : Tree} {xs : List Tree} (head : Lies B t p x)
      (tail : Row B t (p + x.stretch.bytes) xs q) : Row B t p (x :: xs) q

end

variable {p q r : Nat} {x : Tree} {xs ys : List Tree}

theorem Tree.stretch_bytes (x : Tree) :
    x.stretch.bytes = x.head.padding.bytes + x.head.extent.bytes := rfl

namespace Lies

theorem start (h : Lies B t p x) : B (p + x.head.padding.bytes) := by
  cases h with
  | node start => exact start

theorem stop (h : Lies B t p x) : B (p + x.stretch.bytes) := by
  cases h with
  | node _ stop => exact stop

theorem row (h : Lies B t p x) :
    ∃ q ≤ p + x.stretch.bytes, Row B t p x.children.toList q := by
  cases h with
  | node _ _ row within => exact ⟨_, within, row⟩

theorem filled (h : Lies B t p x) (he : x.head.extra = true) (hc : x.head.code = errorCode t) :
    Row B t p x.children.toList (p + x.stretch.bytes) := by
  cases h with
  | node _ _ row _ filled => exact filled he hc ▸ row

theorem withHead {f : TreeHead → TreeHead} (h : Lies B t p x)
    (hp : (f x.head).padding = x.head.padding) (he : (f x.head).extent = x.head.extent)
    (hf : (f x.head).extra = true → (f x.head).code = errorCode t →
      Row B t p x.children.toList (p + x.stretch.bytes)) : Lies B t p (x.withHead f) := by
  have hstart := h.start
  have hstop := h.stop
  rw [Tree.stretch_bytes] at hstop
  rw [← hp] at hstart
  rw [← hp, ← he] at hstop
  by_cases hc : (f x.head).extra = true ∧ (f x.head).code = errorCode t
  · have hq : p + x.stretch.bytes =
        p + ((f x.head).padding.bytes + (f x.head).extent.bytes) := by
      rw [Tree.stretch_bytes, hp, he]
    exact .node hstart hstop (hf hc.1 hc.2) (Nat.le_of_eq hq) fun _ _ => hq
  · obtain ⟨q, hq, hrow⟩ := h.row
    rw [Tree.stretch_bytes, ← hp, ← he] at hq
    exact .node hstart hstop hrow hq fun h1 h2 => absurd ⟨h1, h2⟩ hc

end Lies

namespace Row

theorem append (h : Row B t p xs q) (h' : Row B t q ys r) : Row B t p (xs ++ ys) r := by
  induction xs generalizing p with
  | nil =>
    cases h
    exact h'
  | cons x xs ih =>
    cases h with
    | cons head tail => exact .cons head (ih tail)

theorem of_append (h : Row B t p (xs ++ ys) r) : ∃ q, Row B t p xs q ∧ Row B t q ys r := by
  induction xs generalizing p with
  | nil => exact ⟨p, .nil p, h⟩
  | cons x xs ih =>
    cases h with
    | cons head tail =>
      obtain ⟨q, h1, h2⟩ := ih tail
      exact ⟨q, .cons head h1, h2⟩

theorem single (h : Lies B t p x) : Row B t p [x] (p + x.stretch.bytes) := .cons h (.nil _)

theorem stop (hp : B p) (h : Row B t p xs q) : B q := by
  induction xs generalizing p with
  | nil =>
    cases h
    exact hp
  | cons x xs ih =>
    cases h with
    | cons head tail => exact ih head.stop tail

end Row

mutual

/-- A tree that lies between places of the text still lies in the text when it is laid further to
the front. -/
theorem Lies.shift {p n d : Nat} {x : Tree} (hB : ∀ k, B k → k ≤ n)
    (h : Lies B t (p + d) x) : Lies (· ≤ n) t p x := by
  match x, h with
  | .node _ _, .node start stop row within filled =>
    obtain ⟨q, hq, hrow⟩ := Row.shift hB row
    refine .node ?_ ?_ hrow ?_ fun he hc => ?_
    · exact Nat.le_trans (by omega) (hB _ start)
    · exact Nat.le_trans (by omega) (hB _ stop)
    · omega
    · have := filled he hc
      omega

theorem Row.shift {p q n d : Nat} {xs : List Tree} (hB : ∀ k, B k → k ≤ n)
    (h : Row B t (p + d) xs q) : ∃ q', q = q' + d ∧ Row (· ≤ n) t p xs q' := by
  match xs, h with
  | [], .nil _ => exact ⟨p, rfl, .nil p⟩
  | x :: xs, .cons head tail =>
    rw [Nat.add_right_comm] at tail
    obtain ⟨q', hq, hrow⟩ := Row.shift hB tail
    exact ⟨q', hq, .cons (Lies.shift hB head) hrow⟩

end

namespace Tree

end Tree

end MethodExtraction.Parse
