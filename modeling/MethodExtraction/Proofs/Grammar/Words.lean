import Mathlib.Data.List.Basic
import MethodExtraction.Grammar.Regex

namespace MethodExtraction.Grammar.Regex

variable {α β : Type} {hit : α → β → Bool} {r s t : Regex α} {a : α} {x : β} {w : List β}

@[simp] theorem not_matches_never : ¬ Matches hit never w := by
  intro h
  cases h

@[simp] theorem matches_empty_iff : Matches hit empty w ↔ w = [] := by
  constructor
  · intro h
    cases h
    rfl
  · rintro rfl
    exact .empty

@[simp] theorem matches_atom_iff : Matches hit (atom a) w ↔ ∃ x, w = [x] ∧ hit a x = true := by
  constructor
  · intro h
    cases h with
    | atom h => exact ⟨_, rfl, h⟩
  · rintro ⟨x, rfl, h⟩
    exact .atom h

theorem matches_seq_iff :
    Matches hit (seq r s) w ↔ ∃ u v, w = u ++ v ∧ Matches hit r u ∧ Matches hit s v := by
  constructor
  · intro h
    cases h with
    | seq hr hs => exact ⟨_, _, rfl, hr, hs⟩
  · rintro ⟨u, v, rfl, hr, hs⟩
    exact .seq hr hs

@[simp] theorem matches_alt_iff :
    Matches hit (alt r s) w ↔ Matches hit r w ∨ Matches hit s w := by
  constructor
  · intro h
    cases h with
    | left h => exact .inl h
    | right h => exact .inr h
  · rintro (h | h)
    · exact .left h
    · exact .right h

theorem matches_seq_assoc :
    Matches hit (seq (seq r s) t) w ↔ Matches hit (seq r (seq s t)) w := by
  simp only [matches_seq_iff]
  constructor
  · rintro ⟨_, v, rfl, ⟨u, u', rfl, hr, hs⟩, ht⟩
    exact ⟨u, u' ++ v, List.append_assoc .., hr, u', v, rfl, hs, ht⟩
  · rintro ⟨u, _, rfl, hr, v, v', rfl, hs, ht⟩
    exact ⟨u ++ v, v', (List.append_assoc ..).symm, ⟨u, v, rfl, hr, hs⟩, ht⟩

theorem matches_seq_cons_iff :
    Matches hit (seq r s) (x :: w) ↔
      (∃ u v, w = u ++ v ∧ Matches hit r (x :: u) ∧ Matches hit s v) ∨
        (Matches hit r [] ∧ Matches hit s (x :: w)) := by
  rw [matches_seq_iff]
  constructor
  · rintro ⟨u, v, he, hr, hs⟩
    cases u with
    | nil => exact .inr ⟨hr, he ▸ hs⟩
    | cons y u =>
      obtain ⟨rfl, rfl⟩ := List.cons.inj he
      exact .inl ⟨u, v, rfl, hr, hs⟩
  · rintro (⟨u, v, rfl, hr, hs⟩ | ⟨hr, hs⟩)
    · exact ⟨x :: u, v, rfl, hr, hs⟩
    · exact ⟨[], x :: w, rfl, hr, hs⟩

/-- A first letter belongs to the first round that is not empty. -/
theorem matches_star_cons_iff :
    Matches hit (star r) (x :: w) ↔
      ∃ u v, w = u ++ v ∧ Matches hit r (x :: u) ∧ Matches hit (star r) v := by
  constructor
  · intro h
    generalize hq : star r = q at h
    generalize hw : x :: w = y at h
    induction h with
    | done => cases hw
    | @more r' u v hr hs _ ih =>
      cases hq
      cases u with
      | nil => exact ih rfl hw
      | cons z u =>
        obtain ⟨rfl, rfl⟩ := List.cons.inj hw
        exact ⟨u, v, rfl, hr, hs⟩
    | _ => cases hq
  · rintro ⟨u, v, rfl, hr, hs⟩
    exact .more hr hs

theorem nullable_iff : r.nullable = true ↔ Matches hit r [] := by
  induction r with
  | never => simp [nullable]
  | empty => simp [nullable]
  | atom a => simp [nullable]
  | seq r s ihr ihs =>
    rw [nullable, Bool.and_eq_true, ihr, ihs, matches_seq_iff]
    constructor
    · rintro ⟨hr, hs⟩
      exact ⟨[], [], rfl, hr, hs⟩
    · rintro ⟨u, v, he, hr, hs⟩
      obtain ⟨rfl, rfl⟩ := List.append_eq_nil_iff.1 he.symm
      exact ⟨hr, hs⟩
  | alt r s ihr ihs => rw [nullable, Bool.or_eq_true, ihr, ihs, matches_alt_iff]
  | star r _ => exact iff_of_true rfl .done

theorem matches_mkSeq_iff : Matches hit (mkSeq r s) w ↔ Matches hit (seq r s) w := by
  fun_induction mkSeq r s generalizing w with
  | case1 s => simp [matches_seq_iff]
  | case2 s => simp [matches_seq_iff]
  | case3 r t s iht ihr =>
    rw [ihr, matches_seq_assoc]
    simp only [matches_seq_iff (r := r), iht]
  | case4 r => simp [matches_seq_iff]
  | case5 r => simp [matches_seq_iff]
  | case6 r s => rfl

section Normal

variable [DecidableEq α]

theorem matches_of_isChoiceOf (h : r.isChoiceOf s = true) (hr : Matches hit r w) :
    Matches hit s w := by
  induction s with
  | alt s t _ ih =>
    rw [isChoiceOf, Bool.or_eq_true, decide_eq_true_iff] at h
    obtain rfl | h := h
    · exact .left hr
    · exact .right (ih h)
  | _ => exact of_decide_eq_true h ▸ hr

theorem matches_mkAlt_iff : Matches hit (mkAlt r s) w ↔ Matches hit r w ∨ Matches hit s w := by
  fun_induction mkAlt r s generalizing w with
  | case1 s => simp
  | case2 r t s iht ihr => rw [ihr, iht, matches_alt_iff, or_assoc]
  | case3 r => simp
  | case4 r s _ _ _ h =>
    refine ⟨.inr, ?_⟩
    rintro (hr | hs)
    · exact matches_of_isChoiceOf h hr
    · exact hs
  | case5 r s => exact matches_alt_iff

theorem matches_deriv_iff :
    Matches hit (r.deriv fun a => hit a x) w ↔ Matches hit r (x :: w) := by
  induction r generalizing w with
  | never => simp [deriv]
  | empty => simp [deriv]
  | atom a =>
    by_cases h : hit a x = true
    · simp [deriv, h]
    · simp [deriv, h]
  | seq r s ihr ihs =>
    have hr : Matches hit (mkSeq (r.deriv fun a => hit a x) s) w ↔
        ∃ u v, w = u ++ v ∧ Matches hit r (x :: u) ∧ Matches hit s v := by
      simp only [matches_mkSeq_iff, matches_seq_iff, ihr]
    rw [deriv, matches_seq_cons_iff, ← nullable_iff, ← hr]
    by_cases h : r.nullable = true
    · rw [if_pos h, matches_mkAlt_iff, ihs, and_iff_right h]
    · rw [if_neg h, or_iff_left (h ·.1)]
  | alt r s ihr ihs => rw [deriv, matches_mkAlt_iff, matches_alt_iff, ihr, ihs]
  | star r ih =>
    rw [deriv, matches_mkSeq_iff, matches_seq_iff, matches_star_cons_iff]
    simp only [ih]

theorem accepts_iff_matches : r.accepts hit w = true ↔ Matches hit r w := by
  induction w generalizing r with
  | nil => exact nullable_iff
  | cons x w ih => rw [accepts, ih, matches_deriv_iff]

end Normal

def atoms : Regex α → List α
  | never | empty => []
  | atom a => [a]
  | seq r s | alt r s => r.atoms ++ s.atoms
  | star r => r.atoms

theorem Matches.exists_atom (h : Matches hit r w) : ∀ x ∈ w, ∃ a ∈ r.atoms, hit a x = true := by
  induction h with
  | empty | done => exact List.forall_mem_nil _
  | atom h => exact List.forall_mem_singleton.2 ⟨_, List.mem_singleton_self _, h⟩
  | seq _ _ ihr ihs =>
    refine List.forall_mem_append.2 ⟨fun x hx => ?_, fun x hx => ?_⟩
    · obtain ⟨a, ha, h⟩ := ihr x hx
      exact ⟨a, List.mem_append_left _ ha, h⟩
    · obtain ⟨a, ha, h⟩ := ihs x hx
      exact ⟨a, List.mem_append_right _ ha, h⟩
  | left _ ih =>
    intro x hx
    obtain ⟨a, ha, h⟩ := ih x hx
    exact ⟨a, List.mem_append_left _ ha, h⟩
  | right _ ih =>
    intro x hx
    obtain ⟨a, ha, h⟩ := ih x hx
    exact ⟨a, List.mem_append_right _ ha, h⟩
  | more _ _ ihr ihs => exact List.forall_mem_append.2 ⟨ihr, ihs⟩

theorem Matches.exists_first (h : Matches hit r (x :: w)) : ∃ a ∈ r.firsts, hit a x = true := by
  induction r generalizing w with
  | never => exact absurd h not_matches_never
  | empty => cases matches_empty_iff.1 h
  | atom a =>
    obtain ⟨y, he, hy⟩ := matches_atom_iff.1 h
    obtain ⟨rfl, -⟩ := List.cons.inj he
    exact ⟨a, List.mem_singleton_self a, hy⟩
  | seq r s ihr ihs =>
    rw [firsts]
    obtain ⟨u, v, -, hr, -⟩ | ⟨hr, hs⟩ := matches_seq_cons_iff.1 h
    · obtain ⟨a, ha, hx⟩ := ihr hr
      refine ⟨a, ?_, hx⟩
      split
      · exact List.mem_append_left _ ha
      · exact ha
    · obtain ⟨a, ha, hx⟩ := ihs hs
      rw [if_pos (nullable_iff.2 hr)]
      exact ⟨a, List.mem_append_right _ ha, hx⟩
  | alt r s ihr ihs =>
    obtain hr | hs := matches_alt_iff.1 h
    · obtain ⟨a, ha, hx⟩ := ihr hr
      exact ⟨a, List.mem_append_left _ ha, hx⟩
    · obtain ⟨a, ha, hx⟩ := ihs hs
      exact ⟨a, List.mem_append_right _ ha, hx⟩
  | star r ih =>
    obtain ⟨u, v, -, hr, -⟩ := matches_star_cons_iff.1 h
    exact ih hr

def isLetter : Regex α → Bool
  | atom _ => true
  | alt r s => r.isLetter && s.isLetter
  | never | empty | seq _ _ | star _ => false

theorem Matches.eq_singleton (h : Matches hit r w) (hr : r.isLetter = true) : ∃ x, w = [x] := by
  induction h with
  | atom h => exact ⟨_, rfl⟩
  | left _ ih => exact ih (Bool.and_eq_true_iff.1 hr).1
  | right _ ih => exact ih (Bool.and_eq_true_iff.1 hr).2
  | _ => cases hr

end MethodExtraction.Grammar.Regex
