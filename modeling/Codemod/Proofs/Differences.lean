import Codemod.Proofs.Attribution
import Mathlib.Data.Set.Card

namespace Codemod

namespace Source
variable {S : Type} [Source S] {before after : List S}

theorem nodup_of_distinct (h : Distinct before) : before.Nodup :=
  List.Nodup.of_map Tree.id h

theorem mem_iff_find? (h : Distinct before) {s : S} :
    s ∈ before ↔ find? before (Tree.id s) = some s :=
  ⟨find?_of_mem h, List.mem_of_find?_eq_some⟩

theorem find?_perm (h : after.Perm before) (ha : Distinct after) (id : TreeId) :
    find? before id = find? after id := by
  cases hf : find? before id with
  | none =>
    have hn : id ∉ ids before := find?_eq_none_iff.mp hf
    exact (find?_eq_none_iff.mpr fun hm => hn ((h.map Tree.id).mem_iff.mp hm)).symm
  | some s =>
    have hs : s ∈ after := h.mem_iff.mpr (List.mem_of_find?_eq_some hf)
    rw [← id_of_find? hf, find?_of_mem ha hs]

theorem perm_iff (hb : Distinct before) (ha : Distinct after) :
    after.Perm before ↔ ∀ id, ¬ Changed before after id := by
  constructor
  · intro h id hc
    exact hc (find?_perm h ha id)
  · intro h
    rw [List.perm_ext_iff_of_nodup (nodup_of_distinct ha) (nodup_of_distinct hb)]
    intro s
    rw [mem_iff_find? ha, mem_iff_find? hb, not_not.mp (h (Tree.id s))]

theorem perm_survivors (hb : Distinct before) (ha : Distinct after) :
    ((ids after).filter (contains before)).Perm ((ids before).filter (contains after)) := by
  rw [List.perm_ext_iff_of_nodup (ha.filter _) (hb.filter _)]
  intro id
  simp [contains, and_comm]

end Source

namespace Diff
variable {S : Type} [Source S] {before after : List S}

theorem nodup_modified (ha : Source.Distinct after) : (between before after).modified.Nodup :=
  ha.sublist (List.filter_sublist.map Tree.id)

theorem nodup_generated (ha : Source.Distinct after) : (between before after).generated.Nodup :=
  ha.filter _

theorem nodup_deleted (hb : Source.Distinct before) : (between before after).deleted.Nodup :=
  hb.filter _

theorem length_eq_ncard {ids : List TreeId} (hd : ids.Nodup) {s : Set TreeId}
    (hs : ∀ id, id ∈ ids ↔ id ∈ s) : ids.length = s.ncard := by
  have he : s = ids.toFinset := by
    ext id
    simp [hs]
  rw [he, Set.ncard_coe_finset, List.toFinset_card_of_nodup hd]

theorem mem_modified_iff_of_distinct (hb : Source.Distinct before) {id : TreeId} :
    id ∈ (between before after).modified ↔
      ∃ b ∈ before, ∃ a ∈ after, Tree.id b = id ∧ Tree.id a = id ∧ b ≠ a := by
  rw [mem_modified_iff]
  constructor
  · rintro ⟨a, ha, rfl, b, hf, hne⟩
    exact ⟨b, List.mem_of_find?_eq_some hf, a, ha, Source.id_of_find? hf, rfl, hne⟩
  · rintro ⟨b, hm, a, ha, rfl, hid, hne⟩
    exact ⟨a, ha, hid, b, Source.find?_of_mem hb hm, hne⟩

-- What is not generated and what is not deleted are the same ids.
theorem length_after (hb : Source.Distinct before) (ha : Source.Distinct after) :
    after.length + (between before after).deleted.length =
      before.length + (between before after).generated.length := by
  have hs := (Source.perm_survivors hb ha).length_eq
  have hg := List.length_eq_length_filter_add (l := Source.ids after) (Source.contains before)
  have hd := List.length_eq_length_filter_add (l := Source.ids before) (Source.contains after)
  simp only [Source.ids, List.length_map] at hg hd hs
  simp only [between, Source.ids]
  omega

end Diff

theorem Provenance.record_of_ne_nil (p : Provenance) {path : RecipePath} (hp : path ≠ []) :
    p.record path = ⟨if path ∈ p.paths then p.paths else p.paths ++ [path]⟩ := by
  by_cases hm : path ∈ p.paths
  · rw [record_of_mem hm, if_pos hm]
  · rw [record, if_pos (admits_iff.mpr ⟨hp, hm⟩), if_neg hm]

theorem differences_are_counted_and_recorded {S : Type} [Source S] {before after : List S}
    (hb : Source.Distinct before) (ha : Source.Distinct after) (l : Ledger) {path : RecipePath}
    (hp : path ≠ []) :
    let d := Diff.between before after
    let modified := {id | ∃ b ∈ before, ∃ a ∈ after, Tree.id b = id ∧ Tree.id a = id ∧ b ≠ a}
    let generated := {id | id ∈ Source.ids after ∧ id ∉ Source.ids before}
    let deleted := {id | id ∈ Source.ids before ∧ id ∉ Source.ids after}
    (d.modified.length = modified.ncard ∧ d.generated.length = generated.ncard ∧
      d.deleted.length = deleted.ncard) ∧
    (after.length : ℤ) = before.length + d.generated.length - d.deleted.length ∧
    (d.isEmpty = true ↔ after.Perm before) ∧
    (∀ id ∈ modified ∪ generated ∪ deleted, (l.recordDiff d path).get? id =
      let paths := (l.provenance id).paths
      some ⟨if path ∈ paths then paths else paths ++ [path]⟩) ∧
    ∀ id ∉ modified ∪ generated ∪ deleted, (l.recordDiff d path).get? id = l.get? id := by
  intro d modified generated deleted
  have hm : ∀ id, id ∈ d.modified ↔ id ∈ modified :=
    fun _ => Diff.mem_modified_iff_of_distinct hb
  have hg : ∀ id, id ∈ d.generated ↔ id ∈ generated := fun _ => Diff.mem_generated_iff
  have hd : ∀ id, id ∈ d.deleted ↔ id ∈ deleted := fun _ => Diff.mem_deleted_iff
  have hc : ∀ id, Source.Changed before after id ↔ id ∈ modified ∪ generated ∪ deleted := by
    intro id
    rw [← Diff.mem_touched_iff ha, Diff.touched, List.mem_append, List.mem_append, hm, hg, hd]
    rfl
  refine ⟨⟨?_, ?_, ?_⟩, ?_, ?_, fun id hid => ?_, fun id hid => ?_⟩
  · exact Diff.length_eq_ncard (Diff.nodup_modified ha) hm
  · exact Diff.length_eq_ncard (Diff.nodup_generated ha) hg
  · exact Diff.length_eq_ncard (Diff.nodup_deleted hb) hd
  · have hl : after.length + d.deleted.length = before.length + d.generated.length :=
      Diff.length_after hb ha
    omega
  · exact (Diff.isEmpty_iff ha).trans (Source.perm_iff hb ha).symm
  · rw [Ledger.get?_recordDiff_between l path ha, if_pos ((hc id).mpr hid),
      Provenance.record_of_ne_nil _ hp]
  · rw [Ledger.get?_recordDiff_between l path ha, if_neg (mt (hc id).mp hid)]

namespace Sample

-- One source of each fate and one that moved; the path is known already for the modified one.
theorem mixed_differences_are_recorded :
    let before := [text 1 "x", text 2 "x", text 3 "x"]
    let after := [text 4 "n", text 2 "y", text 1 "x"]
    let path : RecipePath := [⟨0, "r", "r"⟩]
    let other : RecipePath := [⟨0, "o", "o"⟩]
    let recorded := ((Ledger.empty.record ⟨2⟩ path).record ⟨3⟩ other).recordDiff
      (.between before after) path
    Source.Distinct before ∧ Source.Distinct after ∧ path ≠ [] ∧
      {id | id ∈ Source.ids after ∧ id ∉ Source.ids before}.ncard = 1 ∧ ¬ after.Perm before ∧
      recorded.get? ⟨1⟩ = none ∧ recorded.get? ⟨2⟩ = some ⟨[path]⟩ ∧
      recorded.get? ⟨3⟩ = some ⟨[other, path]⟩ ∧ recorded.get? ⟨4⟩ = some ⟨[path]⟩ := by
  intro before after path other recorded
  have hb : Source.Distinct before := (by decide : (Source.ids before).Nodup)
  have ha : Source.Distinct after := (by decide : (Source.ids after).Nodup)
  have hp : path ≠ [] := by decide
  obtain ⟨⟨-, hgenerated, -⟩, -, hperm, hin, hout⟩ :=
    differences_are_counted_and_recorded hb ha ((Ledger.empty.record ⟨2⟩ path).record ⟨3⟩ other) hp
  refine ⟨hb, ha, hp, hgenerated.symm, mt hperm.mpr (by decide), hout ⟨1⟩ ?_,
    hin ⟨2⟩ (.inl (.inl ?_)), hin ⟨3⟩ (.inr ?_), hin ⟨4⟩ (.inl (.inr ?_))⟩
  · have hsame : ∀ b ∈ before, ∀ a ∈ after, Tree.id b = ⟨1⟩ → Tree.id a = ⟨1⟩ → b = a := by decide
    rintro ((⟨b, hm, a, hn, hib, hia, hne⟩ | h) | h)
    · exact hne (hsame b hm a hn hib hia)
    · exact absurd h.2 (by decide)
    · exact absurd h.2 (by decide)
  · exact ⟨text 2 "x", by decide, text 2 "y", by decide, rfl, rfl, by decide⟩
  · exact ⟨by decide, by decide⟩
  · exact ⟨by decide, by decide⟩

end Sample

end Codemod
