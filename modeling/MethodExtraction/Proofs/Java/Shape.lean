import Mathlib.Data.List.Find
import MethodExtraction.Java.Derivation
import MethodExtraction.Proofs.Grammar.Words

namespace MethodExtraction.Java

open Grammar

theorem Construct.knownShape_eq_shape (c : Construct) : c.knownShape = c.shape := by
  have h : (all.map shape).toArray[c.number]? = some c.shape := by
    simp only [List.getElem?_toArray, List.getElem?_map, all_getElem_number, Option.map_some]
  rw [knownShape]
  change (all.map shape).toArray[c.number]?.getD .never = c.shape
  rw [h, Option.getD_some]

/-- The name comes behind a type that cannot be left out, and before a body or semicolon that cannot
be left out either. Nothing before it fills the same field. -/
theorem Construct.shape_methodDeclaration :
    ∃ modifiers parameters type name rest throws last : Shape,
      shape .methodDeclaration =
        .seq modifiers (.seq (.seq parameters (.seq type (.seq (.seq name rest) throws))) last) ∧
      (∀ a ∈ modifiers.atoms ++ (parameters.atoms ++ type.atoms), a.field ≠ some .name) ∧
      (∀ a ∈ name.atoms, a = ⟨.token .identifier, some .name⟩) ∧
      type.isLetter = true ∧ name.isLetter = true ∧ last.isLetter = true :=
  ⟨_, _, _, _, _, _, _, rfl, by decide, by decide, rfl, rfl, rfl⟩

namespace Node

theorem fit_iff {c : Construct} {ns : List Node} :
    fit c ns = true ↔ (∀ n ∈ ns, n.isComment = true → n.label.field = none) ∧
      Regex.Matches (fun a n => decide (a = n.part)) c.shape (ns.filter fun n => !n.isComment) := by
  rw [fit, Bool.and_eq_true, Regex.accepts_iff_matches, Construct.knownShape_eq_shape,
    List.all_eq_true]
  simp only [Bool.or_eq_true, Bool.not_eq_true', decide_eq_true_eq, ← Bool.not_eq_true,
    ← imp_iff_not_or]

theorem spans_iff {l : Label} {ns : List Node} :
    spans l ns = true ↔ ∃ first last, ns.head? = some first ∧ ns.getLast? = some last ∧
      first.label.start = l.start ∧ last.label.stop = l.stop ∧
      first.isComment = false ∧ last.isComment = false := by
  rw [spans]
  split
  next first last hf hl => simp [hf, hl, and_assoc]
  next h =>
    simp only [Bool.false_eq_true, false_iff]
    rintro ⟨first, last, hf, hl, -⟩
    exact h first last hf hl

/-- The parts of a method declaration, comments aside: what precedes its name, its name, what
follows on that, and its body or the semicolon in place of one. -/
structure MethodParts (ns front : List Node) (name : Node) (back : List Node) (last : Node) :
    Prop where
  eq : ns.filter (fun n => !n.isComment) = front ++ name :: back ++ [last]
  front_ne_nil : front ≠ []
  front : ∀ n ∈ front, n.label.field ≠ some .name
  name : name.part = ⟨.token .identifier, some .name⟩

theorem mem_atoms_of_matches {r : Shape} {ns : List Node}
    (h : Regex.Matches (fun a n => decide (a = part n)) r ns) : ∀ n ∈ ns, n.part ∈ r.atoms := by
  intro n hn
  obtain ⟨a, ha, he⟩ := h.exists_atom n hn
  rwa [← of_decide_eq_true he]

theorem methodParts_of_fit {ns : List Node} (h : fit .methodDeclaration ns = true) :
    ∃ front name back last, MethodParts ns front name back last := by
  obtain ⟨modifiers, parameters, type, name, rest, throws, last, hs, hfront, hname, ht, hn, hl⟩ :=
    Construct.shape_methodDeclaration
  have hm := (fit_iff.1 h).2
  rw [hs] at hm
  simp only [Regex.matches_seq_iff] at hm
  obtain ⟨ms, _, he, hms, _, ls, rfl, ⟨ps, _, rfl, hps, ts, _, rfl, hts, _, ws, rfl,
    ⟨is, rs, rfl, his, -⟩, -⟩, hls⟩ := hm
  obtain ⟨t, rfl⟩ := hts.eq_singleton ht
  obtain ⟨i, rfl⟩ := his.eq_singleton hn
  obtain ⟨l, rfl⟩ := hls.eq_singleton hl
  refine ⟨ms ++ ps ++ [t], i, rs ++ ws, l, by simp [he], by simp, fun n hn => ?_, ?_⟩
  · refine hfront n.part ?_
    simp only [List.mem_append] at hn ⊢
    rcases hn with (hn | hn) | hn
    · exact .inl (mem_atoms_of_matches hms n hn)
    · exact .inr (.inl (mem_atoms_of_matches hps n hn))
    · exact .inr (.inr (mem_atoms_of_matches hts n hn))
  · exact hname _ (mem_atoms_of_matches his i (List.mem_singleton_self i))

theorem child?_eq_find?_filter {c : Construct} {n : Node} (h : fit c n.children = true)
    (f : Field) :
    n.child? f =
      (n.children.filter fun n => !n.isComment).find? fun m => m.label.fills f := by
  rw [child?, List.find?_filter]
  refine List.find?_congr fun m hm => ?_
  cases hc : m.isComment with
  | false => simp
  | true => simp [Label.fills, (fit_iff.1 h).1 m hm hc]

namespace MethodParts

variable {ns front back : List Node} {name last : Node}

theorem mem (hp : MethodParts ns front name back last) {m : Node}
    (hm : m ∈ front ++ name :: back ++ [last]) : m ∈ ns :=
  List.mem_of_mem_filter (hp.eq ▸ hm)

theorem ends {l : Label} (hp : MethodParts ns front name back last) (hs : spans l ns = true) :
    ∃ first ∈ front, first.label.start = l.start ∧ last.label.stop = l.stop := by
  obtain ⟨first, final, hf, hl, hstart, hstop, hcf, hcl⟩ := spans_iff.1 hs
  obtain ⟨tail, ht⟩ := List.head?_eq_some_iff.1 hf
  obtain ⟨init, hi⟩ := List.getLast?_eq_some_iff.1 hl
  have hhead := hp.eq
  have hlast := hp.eq
  rw [ht, List.filter_cons_of_pos (by simp [hcf])] at hhead
  rw [hi, List.filter_append, List.filter_cons_of_pos (by simp [hcl]), List.filter_nil] at hlast
  obtain ⟨a, front, rfl⟩ := List.exists_cons_of_ne_nil hp.front_ne_nil
  obtain ⟨rfl, -⟩ := List.cons.inj hhead
  obtain ⟨-, he⟩ := List.append_inj' hlast rfl
  exact ⟨first, List.mem_cons_self .., hstart, List.singleton_inj.1 he ▸ hstop⟩

theorem between (hp : MethodParts ns front name back last)
    (hns : ns.Pairwise fun a b => a.label.stop ≤ b.label.start) :
    (∀ first ∈ front, first.label.stop ≤ name.label.start) ∧
      name.label.stop ≤ last.label.start := by
  have h := hns.filter fun n => !n.isComment
  rw [hp.eq, List.pairwise_append, List.pairwise_append] at h
  obtain ⟨⟨-, -, hfront⟩, -, hlast⟩ := h
  refine ⟨fun first hf => hfront first hf name (List.mem_cons_self ..), ?_⟩
  exact hlast name (List.mem_append_right _ (List.mem_cons_self ..)) last
    (List.mem_singleton_self last)

theorem child?_name {n : Node} (h : fit .methodDeclaration n.children = true)
    (hp : MethodParts n.children front name back last) : n.child? .name = some name := by
  have hfront : front.find? (fun m => m.label.fills .name) = none := by
    rw [List.find?_eq_none]
    intro m hm
    rw [Label.fills, decide_eq_true_eq]
    exact hp.front m hm
  have hname : name.label.fills .name = true := decide_eq_true (congrArg Part.field hp.name)
  rw [child?_eq_find?_filter h, hp.eq, List.append_assoc, List.find?_append, hfront,
    Option.none_or, List.cons_append]
  exact List.find?_cons_of_pos hname

end MethodParts

end Node

end MethodExtraction.Java
