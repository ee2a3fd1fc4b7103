import Codemod.Proofs.Attempt
import Codemod.Proofs.Batch
import Codemod.Run.Scheduler

namespace Codemod

theorem checkIds_eq_error {S : Type} [Source S] {recipe : String} {batch : List S} {e : RecipeError}
    (h : checkIds recipe batch = .error e) : ∃ breach, e = .contractViolation recipe breach := by
  unfold checkIds at h
  split at h
  · exact ⟨_, (Except.error.inj h).symm⟩
  · simp at h

namespace Stage
variable {ω S : Type} [Source S] {hook : ErrorHook ω} {c d : Context ω} {stage : Stage ω S}
variable {factory : VisitorFactory ω S}

theorem id_of_visitSource {source t : S}
    (h : (stage.visitSource factory source).perform hook c = (.ok (some t), d)) :
    Tree.id t = Tree.id source := by
  obtain ⟨admitted, c₁, -, h⟩ := Attempt.bind_eq_ok.mp h
  cases admitted with
  | false =>
    obtain ⟨ht, -⟩ := Attempt.pure_eq_ok.mp h
    rw [Option.some.inj ht]
  | true =>
    obtain ⟨visitor, c₂, -, h⟩ := Attempt.bind_eq_ok.mp h
    obtain ⟨result, c₃, -, h⟩ := Attempt.bind_eq_ok.mp h
    match result with
    | .ok none =>
      obtain ⟨ht, -⟩ := Attempt.pure_eq_ok.mp h
      exact absurd ht (by simp)
    | .ok (some after) =>
      simp only at h
      split at h
      case isTrue hid =>
        obtain ⟨ht, -⟩ := Attempt.pure_eq_ok.mp h
        rw [Option.some.inj ht, hid]
      case isFalse => exact absurd h Attempt.throw_ne_ok
    | .error cause =>
      obtain ⟨-, c₄, -, h⟩ := Attempt.bind_eq_ok.mp h
      obtain ⟨ht, -⟩ := Attempt.pure_eq_ok.mp h
      rw [Option.some.inj ht]

theorem ids_toList_sublist {source : S} {kept : Option S}
    (h : (stage.visitSource factory source).perform hook c = (.ok kept, d)) :
    (Source.ids kept.toList).Sublist [Tree.id source] := by
  cases kept with
  | none => simp [Source.ids]
  | some t => simp [Source.ids, id_of_visitSource h]

theorem ids_visitInTurn_sublist {batch after : List S}
    (h : (stage.visitInTurn factory batch).perform hook c = (.ok after, d)) :
    (Source.ids after).Sublist (Source.ids batch) := by
  induction batch generalizing c d after with
  | nil =>
    obtain ⟨rfl, -⟩ := Attempt.pure_eq_ok.mp h
    exact List.Sublist.refl _
  | cons source sources ih =>
    obtain ⟨kept, c₁, hv, h⟩ := Attempt.bind_eq_ok.mp h
    obtain ⟨rest, c₂, hr, h⟩ := Attempt.bind_eq_ok.mp h
    obtain ⟨rfl, -⟩ := Attempt.pure_eq_ok.mp h
    have hs := (ids_toList_sublist hv).append (ih hr)
    simpa [Source.ids] using hs

theorem id_of_visitPositions {batch : List S} {positions : List Nat}
    {outcomes : List (Nat × Option S)}
    (h : (stage.visitPositions factory batch positions).perform hook c = (.ok outcomes, d))
    {i : Nat} {t : S} (ht : (i, some t) ∈ outcomes) :
    batch[i]?.map Tree.id = some (Tree.id t) := by
  induction positions generalizing c d outcomes with
  | nil =>
    obtain ⟨rfl, -⟩ := Attempt.pure_eq_ok.mp h
    simp at ht
  | cons j positions ih =>
    rw [visitPositions] at h
    cases hj : batch[j]? with
    | none => exact ih (by simpa [hj] using h) ht
    | some source =>
      simp only [hj] at h
      obtain ⟨kept, c₁, hv, h⟩ := Attempt.bind_eq_ok.mp h
      obtain ⟨rest, c₂, hr, h⟩ := Attempt.bind_eq_ok.mp h
      obtain ⟨rfl, -⟩ := Attempt.pure_eq_ok.mp h
      rcases List.mem_cons.mp ht with he | ht
      · obtain ⟨rfl, rfl⟩ := Prod.mk.inj he
        simp [hj, id_of_visitSource hv]
      · exact ih hr ht

theorem filterMap_range_sublist {α : Type} {xs : List α} {g : Nat → Option α}
    (hg : ∀ i t, g i = some t → xs[i]? = some t) (n : Nat) :
    ((List.range n).filterMap g).Sublist (xs.take n) := by
  induction n with
  | zero => simp
  | succ n ih =>
    rw [List.range_succ, List.filterMap_append, List.take_add_one]
    refine ih.append ?_
    cases hn : g n with
    | none => simp [hn]
    | some t => simp [hn, hg n t hn]

theorem ids_gather_sublist {batch : List S} {outcomes : List (Nat × Option S)}
    (h : ∀ i t, (i, some t) ∈ outcomes → batch[i]?.map Tree.id = some (Tree.id t)) (n : Nat) :
    (Source.ids (gather n outcomes)).Sublist (Source.ids batch) := by
  unfold gather
  rw [Source.ids, List.map_filterMap]
  refine (filterMap_range_sublist ?_ n).trans (List.take_sublist n _)
  intro i id hi
  obtain ⟨t, ht, rfl⟩ := Option.map_eq_some_iff.mp hi
  obtain ⟨⟨j, kept⟩, hf, rfl⟩ := Option.bind_eq_some_iff.mp ht
  have hj : j = i := by simpa using List.find?_some hf
  rw [Source.ids, List.getElem?_map]
  exact h i t (hj ▸ List.mem_of_find?_eq_some hf)

theorem ids_visitArranged_sublist {arrange : List Nat → List Nat} {batch after : List S}
    (h : (stage.visitArranged factory arrange batch).perform hook c = (.ok after, d)) :
    (Source.ids after).Sublist (Source.ids batch) := by
  obtain ⟨outcomes, e, hv, h⟩ := Attempt.bind_eq_ok.mp h
  obtain ⟨rfl, -⟩ := Attempt.pure_eq_ok.mp h
  exact ids_gather_sublist (fun i t ht => id_of_visitPositions hv ht) _

theorem distinct_transformBatch {f : BatchTransform ω S} {batch after : List S}
    (h : (stage.transformBatch f batch).perform hook c = (.ok after, d))
    (hb : Source.Distinct batch) : Source.Distinct after := by
  obtain ⟨result, e, -, h⟩ := Attempt.bind_eq_ok.mp h
  cases result with
  | ok output =>
    obtain ⟨⟨⟩, e, hc, h⟩ := Attempt.bind_eq_ok.mp h
    obtain ⟨rfl, -⟩ := Attempt.pure_eq_ok.mp h
    exact checkIds_eq_ok_iff.mp (Attempt.ofExcept_eq_ok.mp hc).1
  | error cause =>
    obtain ⟨-, e, -, h⟩ := Attempt.bind_eq_ok.mp h
    obtain ⟨rfl, -⟩ := Attempt.pure_eq_ok.mp h
    exact hb

end Stage

namespace Scheduler
variable {ω S : Type} [Source S] {hook : ErrorHook ω} {c d : Context ω} {stage : Stage ω S}

theorem ids_transform_sublist {σ : Scheduler} {cycle : Nat} {path : RecipePath}
    {batch after : List S} (hs : stage.batchTransform = none)
    (h : (σ.transform cycle path stage batch).perform hook c = (.ok after, d)) :
    (Source.ids after).Sublist (Source.ids batch) := by
  rw [transform, hs] at h
  cases hv : stage.visitor with
  | none =>
    rw [hv] at h
    obtain ⟨rfl, -⟩ := Attempt.pure_eq_ok.mp h
    exact List.Sublist.refl _
  | some factory =>
    simp only [hv] at h
    split at h
    · exact Stage.ids_visitArranged_sublist h
    · exact Stage.ids_visitInTurn_sublist h

theorem distinct_transform {σ : Scheduler} {cycle : Nat} {path : RecipePath}
    {batch after : List S}
    (h : (σ.transform cycle path stage batch).perform hook c = (.ok after, d))
    (hb : Source.Distinct batch) : Source.Distinct after := by
  cases hs : stage.batchTransform with
  | none => exact hb.sublist (ids_transform_sublist hs h)
  | some f =>
    rw [transform, hs] at h
    exact Stage.distinct_transformBatch h hb

end Scheduler

end Codemod
