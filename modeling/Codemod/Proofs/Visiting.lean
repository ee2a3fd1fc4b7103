import Codemod.Proofs.Survival
import Mathlib.Data.List.Basic
import Mathlib.Data.List.Perm.Basic

namespace Codemod

/-- A way of saying what attempts come to, and what they report on their way, that sequencing
keeps. -/
structure Attempt.Sequential {ω : Type}
    (Q : ∀ {α : Type}, Attempt ω α → α → List RecipeError → Prop) : Prop where
  returns {α : Type} (x : α) : Q (pure x) x []
  chains {α β : Type} {a : Attempt ω α} {f : α → Attempt ω β} {x : α} {y : β}
    {es es' : List RecipeError} (ha : Q a x es) (hf : Q (f x) y es') : Q (a >>= f) y (es ++ es')

theorem Attempt.Sequential.map {ω α β : Type} {a : Attempt ω α} {x : α} {es : List RecipeError}
    {Q : ∀ {α : Type}, Attempt ω α → α → List RecipeError → Prop} (hQ : Sequential Q)
    (ha : Q a x es) (g : α → β) : Q (a >>= fun x => pure (g x)) (g x) es := by
  have h := hQ.chains (f := fun x => pure (g x)) ha (hQ.returns (g x))
  rwa [List.append_nil] at h

namespace Stage
variable {ω S : Type} {batch : List S} {kept : S → Option S} {reports : S → List RecipeError}

def outcomesAt (kept : S → Option S) (batch : List S) (positions : List Nat) :
    List (Nat × Option S) :=
  positions.filterMap fun i => batch[i]?.map fun s => (i, kept s)

def reportsAt (reports : S → List RecipeError) (batch : List S) (positions : List Nat) :
    List RecipeError :=
  positions.flatMap fun i => batch[i]?.elim [] reports

theorem find?_outcomesAt {positions : List Nat} {i : Nat} (hi : i ∈ positions)
    (hb : i < batch.length) :
    ((outcomesAt kept batch positions).find? (·.1 = i)).bind (·.2) = batch[i]?.bind kept := by
  induction positions with
  | nil => simp at hi
  | cons j positions ih =>
    have he : outcomesAt kept batch (j :: positions) =
        (batch[j]?.map fun s => (j, kept s)).toList ++ outcomesAt kept batch positions := by
      rw [outcomesAt, List.filterMap_cons]
      cases batch[j]? <;> rfl
    by_cases hji : j = i
    · subst hji
      simp [he, List.getElem?_eq_getElem hb]
    · have hm : i ∈ positions := (List.mem_cons.mp hi).resolve_left (Ne.symm hji)
      rw [he, ← ih hm]
      cases batch[j]? <;> simp [hji]

theorem filterMap_range_getElem? (l : List S) (f : S → Option S) :
    (List.range l.length).filterMap (fun i => l[i]?.bind f) = l.filterMap f := by
  induction l with
  | nil => rfl
  | cons s l ih =>
    rw [List.length_cons, List.range_succ_eq_map, List.filterMap_cons, List.filterMap_map,
      List.filterMap_cons, ← ih]
    rfl

theorem gather_outcomesAt {positions : List Nat}
    (hp : positions.Perm (List.range batch.length)) :
    gather batch.length (outcomesAt kept batch positions) = batch.filterMap kept := by
  rw [gather, ← filterMap_range_getElem?]
  refine List.filterMap_congr fun i hi => ?_
  exact find?_outcomesAt (hp.mem_iff.mpr hi) (List.mem_range.mp hi)

theorem reportsAt_range (reports : S → List RecipeError) (batch : List S) :
    reportsAt reports batch (List.range batch.length) = batch.flatMap reports := by
  induction batch with
  | nil => rfl
  | cons s batch ih =>
    rw [reportsAt, List.length_cons, List.range_succ_eq_map, List.flatMap_cons, List.flatMap_map,
      List.flatMap_cons, ← ih]
    rfl

theorem perm_reportsAt {positions : List Nat}
    (hp : positions.Perm (List.range batch.length)) :
    (reportsAt reports batch positions).Perm (batch.flatMap reports) := by
  rw [← reportsAt_range]
  exact hp.flatMap_right _

variable [Source S] {stage : Stage ω S} {factory : VisitorFactory ω S}
variable {Q : ∀ {α : Type}, Attempt ω α → α → List RecipeError → Prop}

theorem sequential_visitInTurn (hQ : Attempt.Sequential Q)
    (hk : ∀ s ∈ batch, Q (stage.visitSource factory s) (kept s) (reports s)) :
    Q (stage.visitInTurn factory batch) (batch.filterMap kept) (batch.flatMap reports) := by
  induction batch with
  | nil => exact hQ.returns []
  | cons source sources ih =>
    have hs := hk source (by simp)
    have hr := ih fun s hm => hk s (by simp [hm])
    have he : (source :: sources).filterMap kept =
        (kept source).toList ++ sources.filterMap kept := by
      rw [List.filterMap_cons]
      cases kept source <;> rfl
    rw [he, List.flatMap_cons]
    exact hQ.chains hs (hQ.map hr fun rest => (kept source).toList ++ rest)

theorem sequential_visitPositions (hQ : Attempt.Sequential Q)
    (hk : ∀ s ∈ batch, Q (stage.visitSource factory s) (kept s) (reports s))
    (positions : List Nat) :
    Q (stage.visitPositions factory batch positions) (outcomesAt kept batch positions)
      (reportsAt reports batch positions) := by
  induction positions with
  | nil => exact hQ.returns []
  | cons j positions ih =>
    rw [visitPositions]
    cases hj : batch[j]? with
    | none =>
      have he : outcomesAt kept batch (j :: positions) = outcomesAt kept batch positions := by
        simp [outcomesAt, hj]
      have hr : reportsAt reports batch (j :: positions) = reportsAt reports batch positions := by
        simp [reportsAt, hj]
      rw [he, hr]
      exact ih
    | some source =>
      have he : outcomesAt kept batch (j :: positions) =
          (j, kept source) :: outcomesAt kept batch positions := by
        simp [outcomesAt, hj]
      have hr : reportsAt reports batch (j :: positions) =
          reports source ++ reportsAt reports batch positions := by
        simp [reportsAt, hj]
      have hs := hk source (List.mem_of_getElem? hj)
      rw [he, hr]
      exact hQ.chains hs (hQ.map ih fun rest => (j, kept source) :: rest)

theorem sequential_visitArranged (hQ : Attempt.Sequential Q) {arrange : List Nat → List Nat}
    (hp : (arrange (List.range batch.length)).Perm (List.range batch.length))
    (hk : ∀ s ∈ batch, Q (stage.visitSource factory s) (kept s) (reports s)) :
    Q (stage.visitArranged factory arrange batch) (batch.filterMap kept)
      (reportsAt reports batch (arrange (List.range batch.length))) := by
  have hv := sequential_visitPositions hQ hk (arrange (List.range batch.length))
  rw [← gather_outcomesAt hp]
  exact hQ.map hv (gather batch.length)

end Stage

theorem Scheduler.sequential_transform {ω S : Type} [Source S] {stage : Stage ω S}
    {factory : VisitorFactory ω S} {batch : List S} {kept : S → Option S}
    {reports : S → List RecipeError}
    {Q : ∀ {α : Type}, Attempt ω α → α → List RecipeError → Prop} (hQ : Attempt.Sequential Q)
    (hb : stage.batchTransform = none) (hv : stage.visitor = some factory)
    (hk : ∀ s ∈ batch, Q (stage.visitSource factory s) (kept s) (reports s)) (σ : Scheduler)
    (n : Nat) (path : RecipePath) :
    ∃ es, es.Perm (batch.flatMap reports) ∧
      Q (σ.transform n path stage batch) (batch.filterMap kept) es := by
  rw [transform, hb, hv]
  simp only
  split
  · have hp := σ.order.perm n path (List.range batch.length)
    exact ⟨_, Stage.perm_reportsAt hp, Stage.sequential_visitArranged hQ hp hk⟩
  · exact ⟨_, .refl _, Stage.sequential_visitInTurn hQ hk⟩

end Codemod
