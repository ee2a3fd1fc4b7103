import Codemod.Proofs.Settling
import Codemod.Proofs.Stamping

namespace Codemod

namespace Ledger
variable {recordings : List (TreeId × RecipePath)} {id : TreeId}

def pathsOf (recordings : List (TreeId × RecipePath)) (id : TreeId) : List RecipePath :=
  (recordings.filter fun r => r.1 = id).map Prod.snd

def Admitted (recordings : List (TreeId × RecipePath)) (id : TreeId) : Prop :=
  ∃ before path after, recordings = before ++ (id, path) :: after ∧
    (empty.recordEach before).admits id path = true

theorem mem_pathsOf {path : RecipePath} :
    path ∈ pathsOf recordings id ↔ (id, path) ∈ recordings := by
  simp [pathsOf]

theorem pathsOf_append_of_ne {r : TreeId × RecipePath} (h : r.1 ≠ id) :
    pathsOf (recordings ++ [r]) id = pathsOf recordings id := by
  simp [pathsOf, h]

theorem pathsOf_append_of_eq (path : RecipePath) :
    pathsOf (recordings ++ [(id, path)]) id = pathsOf recordings id ++ [path] := by
  simp [pathsOf]

theorem recordEach_append_singleton (l : Ledger) (r : TreeId × RecipePath) :
    l.recordEach (recordings ++ [r]) = (l.recordEach recordings).record r.1 r.2 := by
  simp [recordEach]

def distinctPaths (paths : List RecipePath) : List RecipePath :=
  (paths.filter (· ≠ [])).eraseDups

theorem mem_distinctPaths {paths : List RecipePath} {path : RecipePath} :
    path ∈ distinctPaths paths ↔ path ∈ paths ∧ path ≠ [] := by
  simp [distinctPaths, List.mem_eraseDups]

theorem record_distinctPaths (paths : List RecipePath) (path : RecipePath) :
    (Provenance.mk (distinctPaths paths)).record path = ⟨distinctPaths (paths ++ [path])⟩ := by
  by_cases hp : path = []
  · simp [hp, distinctPaths, Provenance.record_nil]
  · rw [distinctPaths, Provenance.record_eraseDups _ hp]
    simp [distinctPaths, hp]

theorem provenance_recordEach (recordings : List (TreeId × RecipePath)) (id : TreeId) :
    (empty.recordEach recordings).provenance id = ⟨distinctPaths (pathsOf recordings id)⟩ := by
  induction recordings using List.reverseRecOn with
  | nil => rfl
  | append_singleton recordings r ih =>
    obtain ⟨other, path⟩ := r
    rw [recordEach_append_singleton, provenance_record]
    by_cases hid : id = other
    · subst hid
      rw [if_pos rfl, ih, record_distinctPaths, pathsOf_append_of_eq]
    · rw [if_neg hid, ih, pathsOf_append_of_ne (Ne.symm hid)]

theorem keys_recordEach (recordings : List (TreeId × RecipePath)) :
    (empty.recordEach recordings).changes.keys = (recordings.map Prod.fst).eraseDups := by
  induction recordings using List.reverseRecOn with
  | nil => rfl
  | append_singleton recordings r ih =>
    rw [recordEach_append_singleton, record, Table.keys_insert, ih, List.map_append,
      List.eraseDups_append]
    by_cases hm : r.1 ∈ recordings.map Prod.fst
    · have hr : [r.1].removeAll (recordings.map Prod.fst) = [] := by
        rw [List.removeAll, List.filter_eq_nil_iff]
        simpa using hm
      rw [if_pos (List.mem_eraseDups.mpr hm), List.map_singleton, hr]
      simp
    · have hr : [r.1].removeAll (recordings.map Prod.fst) = [r.1] := by
        rw [List.removeAll, List.filter_eq_self]
        simpa using hm
      rw [if_neg (mt List.mem_eraseDups.mp hm), List.map_singleton, hr]
      simp [List.eraseDups_cons]

theorem contains_recordEach :
    (empty.recordEach recordings).contains id = true ↔ ∃ path, (id, path) ∈ recordings := by
  rw [contains, Table.contains_iff, keys_recordEach, List.mem_eraseDups]
  simp

theorem admitted_iff : Admitted recordings id ↔ ∃ path ≠ [], (id, path) ∈ recordings := by
  constructor
  · rintro ⟨before, path, after, rfl, ha⟩
    exact ⟨path, (Provenance.admits_iff.mp ha).1, by simp⟩
  · rintro ⟨path, hp, hm⟩
    obtain ⟨before, after, rfl, hfirst⟩ := List.eq_append_cons_of_mem hm
    refine ⟨before, path, after, rfl, Provenance.admits_iff.mpr ⟨hp, ?_⟩⟩
    rw [provenance_recordEach]
    exact fun h => hfirst (mem_pathsOf.mp (mem_distinctPaths.mp h).1)

theorem known_iff :
    (∃ path, (id, path) ∈ recordings) ↔ Admitted recordings id ∨ (id, []) ∈ recordings := by
  rw [admitted_iff]
  constructor
  · rintro ⟨path, hm⟩
    by_cases hp : path = []
    · exact .inr (hp ▸ hm)
    · exact .inl ⟨path, hp, hm⟩
  · rintro (⟨path, -, hm⟩ | hm)
    · exact ⟨path, hm⟩
    · exact ⟨[], hm⟩

theorem descriptors_recordEach_ne_nil_iff :
    (empty.recordEach recordings).descriptors id ≠ [] ↔ Admitted recordings id := by
  rw [descriptors, provenance_recordEach, admitted_iff]
  constructor
  · intro h
    by_contra hn
    refine h ?_
    have he : distinctPaths (pathsOf recordings id) = [] := by
      rw [List.eq_nil_iff_forall_not_mem]
      intro path hm
      obtain ⟨hm, hp⟩ := mem_distinctPaths.mp hm
      exact hn ⟨path, hp, mem_pathsOf.mp hm⟩
    rw [he]
    rfl
  · rintro ⟨path, hp, hm⟩
    exact Provenance.descriptors_ne_nil (mem_distinctPaths.mpr ⟨mem_pathsOf.mpr hm, hp⟩) hp

theorem recipeNames_ne_nil_iff (l : Ledger) : l.recipeNames id ≠ [] ↔ l.descriptors id ≠ [] := by
  constructor
  · intro h hn
    refine h ?_
    rw [recipeNames, Provenance.recipeNames, ← descriptors, hn]
    rfl
  · exact Provenance.recipeNames_ne_nil

-- A recording enters its source before its path is looked at, so one that brings no path leaves an
-- entry where nothing was admitted.
theorem entries_of_recordings (recordings : List (TreeId × RecipePath)) :
    let l := empty.recordEach recordings
    let known := fun id => Admitted recordings id ∨ (id, []) ∈ recordings
    (∀ id, (l.contains id = true ↔ known id) ∧ ((l.get? id).isSome = true ↔ known id) ∧
      (∀ p, l.get? id = some p → p.paths = distinctPaths (pathsOf recordings id)) ∧
      (l.descriptors id ≠ [] ↔ Admitted recordings id) ∧
      (l.recipeNames id ≠ [] ↔ Admitted recordings id)) ∧
    (∃ ids : List TreeId, ids.Nodup ∧ (∀ id, id ∈ ids ↔ known id) ∧ l.size = ids.length) ∧
    (l.size = 0 ↔ ∀ id, ¬ known id) := by
  intro l known
  have hc : ∀ id, l.contains id = true ↔ known id := fun id => contains_recordEach.trans known_iff
  have hk : ∀ id, id ∈ l.changes.keys ↔ known id := fun id => Table.contains_iff.symm.trans (hc id)
  have hs : l.size = l.changes.keys.length := by simp [size, Table.size, Table.keys]
  refine ⟨fun id => ⟨hc id, hc id, fun p hp => ?_, ?_, ?_⟩, ⟨l.changes.keys, ?_, hk, hs⟩, ?_⟩
  · have he : l.provenance id = p := by rw [provenance, hp, Option.getD_some]
    rw [← he, provenance_recordEach]
  · exact descriptors_recordEach_ne_nil_iff
  · exact (recipeNames_ne_nil_iff l).trans descriptors_recordEach_ne_nil_iff
  · exact l.changes.nodup
  · rw [hs, List.length_eq_zero_iff, List.eq_nil_iff_forall_not_mem]
    exact forall_congr' fun id => not_congr (hk id)

end Ledger

namespace Sample

theorem ignored_path_leaves_an_entry :
    let id : TreeId := ⟨1⟩
    let recordings : List (TreeId × RecipePath) := [(id, [])]
    let l := Ledger.empty.recordEach recordings
    ¬ Ledger.Admitted recordings id ∧ Ledger.empty.admits id [] = false ∧
      l.contains id = true ∧ l.get? id = some .empty ∧ l.size = 1 ∧ l.descriptors id = [] := by
  refine ⟨?_, by decide⟩
  rw [Ledger.admitted_iff]
  simp

end Sample

end Codemod
