import MethodExtraction.Proofs.Files.Outline

namespace MethodExtraction.Files

structure Path.Usable (p : Path) : Prop where
  zero : p.bytes.contains 0 = false
  length : p.bytes.length ≤ pathLimit
  ne_nil : p.bytes ≠ []

namespace FileSystem

variable {fs fs' : FileSystem} {p : Path} {followLast : Bool} {names : List Name} {t : Target}
  {l location : Location}

def origin (fs : FileSystem) (p : Path) : Location := if p.isAbsolute then [] else fs.home

theorem follow_of_usable (h : p.Usable) :
    fs.follow followLast p names = fs.walk followLast linkLimit (fs.origin p) names := by
  rw [follow, h.zero, if_neg Bool.false_ne_true, if_neg (Nat.not_lt.2 h.length), if_neg h.ne_nil,
    origin]

theorem usable_or_follow (fs : FileSystem) (p : Path) :
    p.Usable ∨ p.bytes = [] ∨
      ∃ e, e ≠ .notFound ∧ ∀ followLast names, fs.follow followLast p names = .error e := by
  by_cases hz : p.bytes.contains 0 = true
  · exact .inr (.inr ⟨.nulInPath, nofun, fun _ _ => if_pos hz⟩)
  by_cases hl : p.bytes.length > pathLimit
  · exact .inr (.inr ⟨.nameTooLong, nofun, fun _ _ => (if_neg hz).trans (if_pos hl)⟩)
  by_cases hn : p.bytes = []
  · exact .inr (.inl hn)
  · exact .inl ⟨Bool.eq_false_iff.2 hz, Nat.not_lt.1 hl, hn⟩

theorem follow_of_bytes_eq_nil (h : p.bytes = []) :
    fs.follow followLast p names = .error .notFound := by
  rw [follow, h]
  rfl

theorem usable_of_follow (h : fs.follow followLast p names = .ok t) : p.Usable := by
  obtain hu | hn | ⟨e, -, he⟩ := fs.usable_or_follow p
  · exact hu
  · cases (follow_of_bytes_eq_nil hn).symm.trans h
  · cases (he followLast names).symm.trans h

theorem walks_of_follow (h : fs.follow followLast p names = .ok t) :
    fs.Walks followLast linkLimit (fs.origin p) names (.ok t) := by
  rw [follow_of_usable (usable_of_follow h)] at h
  exact walks_iff.2 h

theorem origin_put {content : Content} : (fs.put location content).origin p = fs.origin p := by
  rw [origin, origin, home_put]

theorem writable_eq_ok_iff : Change.writable p fs = .ok t ↔
    p.endsInSlash = false ∧ fs.follow true p p.segments = .ok t := by
  rw [Change.writable]
  cases p.endsInSlash with
  | false => simp
  | true =>
    simp only [if_true, Bool.true_eq_false, false_and, iff_false]
    cases fs.follow true p (p.segments.dropLast ++ [[dot]]) <;> nofun

theorem resolve_of_writable (h : Change.writable p fs = .ok (.existing location)) :
    fs.resolve p = .ok location := by
  obtain ⟨hs, hf⟩ := writable_eq_ok_iff.1 h
  rw [resolve, hs, if_neg Bool.false_ne_true, List.append_nil, hf]
  rfl

theorem follow_put_vacant {content : Content} (h : fs.follow followLast p names = .ok (.vacant l))
    (hn : ∀ target, content ≠ .link target) :
    (fs.put l content).follow true p names = .ok (.existing l) := by
  rw [follow_of_usable (usable_of_follow h), origin_put]
  exact ((walks_of_follow h).put_vacant hn).eq

theorem follow_extends (hx : fs.Extends fs')
    (h : fs.follow followLast p names = .ok (.existing l)) :
    fs'.follow followLast p names = .ok (.existing l) := by
  have ho : fs'.origin p = fs.origin p := by rw [origin, origin, hx.home]
  rw [follow_of_usable (usable_of_follow h), ho]
  exact ((walks_of_follow h).extends hx).eq

/-- What opening a path for writing does: nothing to a device, and anywhere else it puts an empty
file. The path leads there from then on. -/
inductive Opens (p : Path) (fs : FileSystem) (location : Location) : FileSystem → Prop where
  | device {d} (hw : Change.writable p fs = .ok (.existing location))
      (hc : fs.content? location = some (.device d)) : Opens p fs location fs
  | file (hl : location ≠ [])
      (hc : ∀ c, fs.content? location = some c → c.outline = .file .empty)
      (hw : ∀ bytes,
        Change.writable p (fs.put location (.file bytes)) = .ok (.existing location)) :
      Opens p fs location (fs.put location (.file .empty))

theorem opens_of_create {fs₁ : FileSystem} (h : Change.create p fs = .ok location fs₁) :
    Opens p fs location fs₁ := by
  rw [Change.create] at h
  cases hw : Change.writable p fs with
  | error e =>
    rw [hw] at h
    cases h
  | ok t =>
    obtain ⟨hs, hf⟩ := writable_eq_ok_iff.1 hw
    rw [hw] at h
    cases t with
    | vacant l =>
      cases h
      obtain ⟨hl, hnone⟩ := (walks_of_follow hf).content?_vacant
      refine .file hl (by rw [hnone]; nofun) fun bytes => ?_
      exact writable_eq_ok_iff.2 ⟨hs, follow_put_vacant hf nofun⟩
    | existing l =>
      cases hc : fs.content? l with
      | none => simp [hc] at h
      | some c =>
        cases c with
        | file old =>
          simp only [hc, EStateM.Result.ok.injEq] at h
          obtain ⟨rfl, rfl⟩ := h
          have hl : l ≠ [] := by
            rintro rfl
            cases hc
          have hcontent : ∀ c, fs.content? l = some c → c.outline = .file .empty := by
            rw [hc]
            rintro c ⟨⟩
            rfl
          refine .file hl hcontent fun bytes => writable_eq_ok_iff.2 ⟨hs, ?_⟩
          exact follow_extends (extends_put hl fun c h => (hcontent c h).symm) hf
        | device d =>
          simp only [hc, EStateM.Result.ok.injEq] at h
          obtain ⟨rfl, rfl⟩ := h
          exact .device hw hc
        | directory => simp [hc] at h
        | link target => simp [hc] at h

end FileSystem

end MethodExtraction.Files
