import Mathlib.Data.List.Nodup
import MethodExtraction.Proofs.Files.Outline

namespace MethodExtraction.Files.FileSystem

variable {fs : FileSystem} {l : Location} {name : Name} {content : Content}

def Distinct (fs : FileSystem) : Prop := ∀ l, ((fs.list l).map (·.1)).Nodup

theorem distinct_of_nodup (h : (fs.entries.map (·.1)).Nodup) : fs.Distinct := by
  intro l
  have hl : (fs.list l).map (·.1) = (fs.entries.map (·.1)).filterMap (entryName? l) := by
    rw [list, List.map_filterMap, List.filterMap_map]
    apply List.filterMap_congr
    intro e _
    simp only [Function.comp_apply, Option.map_map]
    cases entryName? l e.1 <;> rfl
  rw [hl]
  apply h.filterMap
  intro a a' n ha ha'
  rw [entryName?_eq_some ha, entryName?_eq_some ha']

theorem mem_list_of_content? (h : fs.content? (l ++ [name]) = some content) :
    (name, content) ∈ fs.list l := by
  rw [content?_of_ne_nil (by simp)] at h
  obtain ⟨before, behind, he, -⟩ := List.lookup_eq_some_iff.1 h
  rw [mem_list, he]
  simp

theorem content?_eq_some_iff (hd : fs.Distinct) :
    fs.content? (l ++ [name]) = some content ↔ (name, content) ∈ fs.list l := by
  refine ⟨mem_list_of_content?, fun hm => ?_⟩
  have hsome : (fs.content? (l ++ [name])).isSome = true := by
    rw [content?_of_ne_nil (by simp), List.lookup_isSome_iff]
    exact ⟨_, mem_list.1 hm, by simp⟩
  obtain ⟨c, hc⟩ := Option.isSome_iff_exists.1 hsome
  have he := List.inj_on_of_nodup_map (hd l) (mem_list_of_content? hc) hm rfl
  rw [hc, (Prod.mk.inj he).2]

theorem isDirectoryAt_iff : fs.isDirectoryAt l = true ↔ fs.content? l = some .directory := by
  rw [isDirectoryAt]
  cases fs.content? l with
  | none => simp
  | some c => cases c <;> simp [Content.isDirectory]

theorem pairwise_mergeSort (entries : List (Name × Content)) :
    (entries.mergeSort fun a b => decide (a.1 ≤ b.1)).Pairwise fun a b => a.1 ≤ b.1 := by
  have hs : (entries.mergeSort fun a b => decide (a.1 ≤ b.1)).Pairwise fun a b =>
      decide (a.1 ≤ b.1) = true := List.pairwise_mergeSort
    (by
      intro a b c hab hbc
      simp only [decide_eq_true_eq] at hab hbc ⊢
      exact Std.le_trans hab hbc)
    (by
      intro a b
      simp only [Bool.or_eq_true, decide_eq_true_eq]
      exact Std.le_total) entries
  simpa only [decide_eq_true_eq] using hs

theorem arranged_perm (fs : FileSystem) (sorted : Bool) (l : Location) :
    (fs.arranged sorted l).Perm (fs.list l) := by
  unfold arranged
  split
  · exact List.mergeSort_perm _ _
  · exact .refl _

theorem nodup_arranged (hd : fs.Distinct) (sorted : Bool) (l : Location) :
    ((fs.arranged sorted l).map (·.1)).Nodup :=
  ((fs.arranged_perm sorted l).map _).nodup_iff.2 (hd l)

theorem pairwise_arranged (hd : fs.Distinct) (sorted : Bool) (l : Location) :
    (fs.arranged sorted l).Pairwise fun a b => a.1 ≠ b.1 ∧ (sorted = true → a.1 < b.1) := by
  have hne := List.pairwise_map.1 (nodup_arranged hd sorted l)
  cases sorted with
  | false => exact hne.imp fun h => ⟨h, nofun⟩
  | true =>
    refine (hne.and (pairwise_mergeSort (fs.list l))).imp ?_
    rintro a b ⟨hn, hle⟩
    exact ⟨hn, fun _ => Std.lt_of_le_of_ne hle hn⟩

end MethodExtraction.Files.FileSystem
