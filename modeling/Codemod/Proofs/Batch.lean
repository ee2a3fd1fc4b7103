import Codemod.Run.Diff

namespace Codemod

namespace Source
variable {S : Type} [Source S]

def Distinct (batch : List S) : Prop :=
  (ids batch).Nodup

def Changed (before after : List S) (id : TreeId) : Prop :=
  find? before id ≠ find? after id

instance (before after : List S) (id : TreeId) : Decidable (Changed before after id) :=
  inferInstanceAs (Decidable (_ ≠ _))

theorem ids_cons (s : S) (batch : List S) : ids (s :: batch) = Tree.id s :: ids batch := rfl

theorem mem_ids_iff {batch : List S} {id : TreeId} :
    id ∈ ids batch ↔ ∃ s ∈ batch, Tree.id s = id := by
  simp [ids]

theorem find?_eq_none_iff {batch : List S} {id : TreeId} :
    find? batch id = none ↔ id ∉ ids batch := by
  simp [find?, mem_ids_iff]

theorem find?_cons (s : S) (batch : List S) (id : TreeId) :
    find? (s :: batch) id = if Tree.id s = id then some s else find? batch id := by
  by_cases h : Tree.id s = id <;> simp [find?, h]

theorem find?_map {g : S → S} (hg : ∀ s, Tree.id (g s) = Tree.id s) (batch : List S)
    (id : TreeId) : find? (batch.map g) id = (find? batch id).map g := by
  have hf : (fun s : S => decide (Tree.id s = id)) ∘ g = fun s => decide (Tree.id s = id) := by
    funext s
    simp [hg]
  rw [find?, List.find?_map, hf]
  rfl

theorem find?_of_mem {batch : List S} (hd : Distinct batch) {s : S} (hs : s ∈ batch) :
    find? batch (Tree.id s) = some s := by
  induction batch with
  | nil => simp at hs
  | cons t batch ih =>
    obtain ⟨ht, hb⟩ := List.nodup_cons.mp (show (Tree.id t :: ids batch).Nodup from hd)
    rw [find?_cons]
    rcases List.mem_cons.mp hs with rfl | hs
    · exact if_pos rfl
    · have hne : Tree.id t ≠ Tree.id s := fun he => ht (mem_ids_iff.mpr ⟨s, hs, he.symm⟩)
      rw [if_neg hne]
      exact ih hb hs

theorem ids_filterMap_sublist {f : S → Option S} (hf : ∀ s t, f s = some t → Tree.id t = Tree.id s)
    (batch : List S) : (ids (batch.filterMap f)).Sublist (ids batch) := by
  induction batch with
  | nil => exact .refl _
  | cons s batch ih =>
    rw [List.filterMap_cons, ids_cons]
    cases hs : f s with
    | none => exact ih.cons _
    | some t =>
      rw [ids_cons, hf s t hs]
      exact ih.cons_cons _

theorem changed_of_generated {before after : List S} {id : TreeId}
    (hb : id ∉ ids before) (ha : id ∈ ids after) : Changed before after id := by
  intro h
  rw [find?_eq_none_iff.mpr hb] at h
  exact find?_eq_none_iff.mp h.symm ha

theorem changed_of_deleted {before after : List S} {id : TreeId}
    (hb : id ∈ ids before) (ha : id ∉ ids after) : Changed before after id := by
  intro h
  rw [find?_eq_none_iff.mpr ha] at h
  exact find?_eq_none_iff.mp h hb

theorem changed_iff {before after : List S} (ha : Distinct after) {id : TreeId} :
    Changed before after id ↔
      (id ∈ ids after ∧ id ∉ ids before) ∨ (id ∈ ids before ∧ id ∉ ids after) ∨
        ∃ s ∈ after, Tree.id s = id ∧ ∃ b, find? before id = some b ∧ b ≠ s := by
  constructor
  · intro h
    by_cases hb : id ∈ ids before <;> by_cases hm : id ∈ ids after
    · obtain ⟨s, hs, rfl⟩ := mem_ids_iff.mp hm
      cases hf : find? before (Tree.id s) with
      | none => exact absurd hb (find?_eq_none_iff.mp hf)
      | some b =>
        refine Or.inr (Or.inr ⟨s, hs, rfl, b, rfl, fun he => h ?_⟩)
        rw [hf, find?_of_mem ha hs, he]
    · exact Or.inr (Or.inl ⟨hb, hm⟩)
    · exact Or.inl ⟨hm, hb⟩
    · exact absurd ((find?_eq_none_iff.mpr hb).trans (find?_eq_none_iff.mpr hm).symm) h
  · rintro (⟨hm, hb⟩ | ⟨hb, hm⟩ | ⟨s, hs, rfl, b, hf, hne⟩)
    · exact changed_of_generated hb hm
    · exact changed_of_deleted hb hm
    · intro h
      rw [hf, find?_of_mem ha hs] at h
      exact hne (Option.some.inj h)

end Source

namespace Diff
variable {S : Type} [Source S]

theorem mem_modified_iff {before after : List S} {id : TreeId} :
    id ∈ (between before after).modified ↔
      ∃ s ∈ after, Tree.id s = id ∧ ∃ b, Source.find? before id = some b ∧ b ≠ s := by
  simp only [between, Source.mem_ids_iff, List.mem_filter]
  constructor
  · rintro ⟨s, ⟨hs, hm⟩, rfl⟩
    unfold isModified at hm
    split at hm
    case h_1 b hb => exact ⟨s, hs, rfl, b, hb, by simpa using hm⟩
    case h_2 => simp at hm
  · rintro ⟨s, hs, rfl, b, hb, hne⟩
    exact ⟨s, ⟨hs, by simp [isModified, hb, hne]⟩, rfl⟩

theorem mem_touched_iff {before after : List S} (ha : Source.Distinct after) {id : TreeId} :
    id ∈ (between before after).touched ↔ Source.Changed before after id := by
  simp only [touched, List.mem_append, mem_modified_iff, mem_generated_iff, mem_deleted_iff]
  rw [Source.changed_iff ha, or_assoc, or_comm, or_assoc]

theorem isEmpty_iff {before after : List S} (ha : Source.Distinct after) :
    (between before after).isEmpty = true ↔ ∀ id, ¬ Source.Changed before after id := by
  simp only [isEmpty, List.isEmpty_iff, List.eq_nil_iff_forall_not_mem, mem_touched_iff ha]

end Diff

end Codemod
