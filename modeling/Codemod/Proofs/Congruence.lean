import Codemod.Proofs.Accord

namespace Codemod

namespace Recipe
variable {ω ω' S : Type}

mutual
def mapStages (f : Stage ω S → Stage ω' S) : Recipe ω S → Recipe ω' S
  | ⟨stage, children⟩ => ⟨f stage, mapStagesOf f children⟩

def mapStagesOf (f : Stage ω S → Stage ω' S) : List (Recipe ω S) → List (Recipe ω' S)
  | [] => []
  | r :: rs => mapStages f r :: mapStagesOf f rs
end

theorem stage_mapStages (f : Stage ω S → Stage ω' S) (r : Recipe ω S) :
    (r.mapStages f).stage = f r.stage := by
  cases r
  rw [mapStages]

mutual
theorem stages_mapStages (f : Stage ω S → Stage ω' S) (r : Recipe ω S) :
    (r.mapStages f).stages = r.stages.map f := by
  cases r with
  | mk stage children =>
    rw [mapStages, stages, stages, stagesOf_mapStagesOf f children, List.map_cons]

theorem stagesOf_mapStagesOf (f : Stage ω S → Stage ω' S) (rs : List (Recipe ω S)) :
    stagesOf (mapStagesOf f rs) = (stagesOf rs).map f := by
  cases rs with
  | nil => rfl
  | cons r rs =>
    rw [mapStagesOf, stagesOf, stagesOf, stages_mapStages f r, stagesOf_mapStagesOf f rs,
      List.map_append]
end

theorem mem_stages_mapStages {f : Stage ω S → Stage ω' S} {r : Recipe ω S} {stage : Stage ω' S} :
    stage ∈ (r.mapStages f).stages ↔ ∃ original ∈ r.stages, f original = stage := by
  rw [stages_mapStages, List.mem_map]

mutual
theorem mapStages_id (r : Recipe ω S) : r.mapStages id = r := by
  cases r with
  | mk stage children => rw [mapStages, mapStagesOf_id children, id]

theorem mapStagesOf_id (rs : List (Recipe ω S)) : mapStagesOf id rs = rs := by
  cases rs with
  | nil => rfl
  | cons r rs => rw [mapStagesOf, mapStages_id r, mapStagesOf_id rs]
end

theorem hasBlankName_eq (r : Recipe ω S) :
    r.hasBlankName = (r.stages.map Stage.name).any Text.isBlank := by
  rw [List.any_map]
  rfl

theorem mem_stages_self (r : Recipe ω S) : r.stage ∈ r.stages := by
  cases r with
  | mk stage children => simp [stages]

end Recipe

section
variable {S : Type} [Source S]

structure Pass.Matched (V : S → S → Prop) (p p' : Pass S) : Prop where
  batch : List.Forall₂ V p.batch p'.batch
  distinct : Source.Distinct p.batch
  ledger_eq : p'.ledger = p.ledger
  anotherCycle_eq : p'.anotherCycle = p.anotherCycle

structure Flight.Matched (V : S → S → Prop) (f f' : Flight S) : Prop where
  batch : List.Forall₂ V f.batch f'.batch
  distinct : Source.Distinct f.batch
  ledger_eq : f'.ledger = f.ledger
  cycles_eq : f'.cycles = f.cycles

theorem accord_matched {V : S → S → Prop} (hV : Source.Likeness V) :
    Accord (Pass.Matched V) (Flight.Matched V) where
  cycles_eq h := h.cycles_eq
  opens h := ⟨h.batch, h.distinct, h.ledger_eq, rfl⟩
  asks_eq h := h.anotherCycle_eq
  batch_eq_iff hf hp := hV.batch_eq_iff hf.batch hp.batch
  closes hf hp := ⟨hp.batch, hp.distinct, hp.ledger_eq, congrArg (· + 1) hf.cycles_eq⟩

end

open Coupling

section
variable {ω ω' S : Type} [Source S] {κ : Coupling ω ω'} {V : S → S → Prop}

namespace Stage.Lockstep
variable {stage : Stage ω S} {stage' : Stage ω' S}

theorem hasTransform_eq (h : stage.Lockstep κ V stage') :
    stage'.hasTransform = stage.hasTransform := by
  have hv := h.visitor
  have hb := h.batchTransform
  unfold hasTransform
  generalize stage.visitor = v at hv
  generalize stage'.visitor = v' at hv
  generalize stage.batchTransform = b at hb
  generalize stage'.batchTransform = b' at hb
  cases hv <;> cases hb <;> rfl

theorem frame_eq (h : stage.Lockstep κ V stage') (position : Nat) :
    stage'.frame position = stage.frame position := by
  rw [frame, frame, h.name_eq, h.displayName_eq]

theorem admits (h : stage.Lockstep κ V stage') {batch batch' : List S}
    (hb : List.Forall₂ V batch batch') :
    κ.Lockstep Eq (stage.admits batch) (stage'.admits batch') := by
  have hg := h.gate
  unfold Stage.admits
  generalize stage.gate = g at hg
  generalize stage'.gate = g' at hg
  cases hg with
  | none => exact lockstep_pure rfl
  | some ht => exact lockstep_matchesAny hb ht

end Stage.Lockstep

namespace Scheduler
variable {σ : Scheduler} {cycle position : Nat} {path : RecipePath}

theorem lockstep_transform {stage : Stage ω S} {stage' : Stage ω' S}
    (h : stage.Lockstep κ V stage') {batch batch' : List S} (hd : Source.Distinct batch)
    (hb : List.Forall₂ V batch batch') :
    κ.Lockstep (List.Forall₂ V) (σ.transform cycle path stage batch)
      (σ.transform cycle path stage' batch') := by
  have hv := h.visitor
  have ht := h.batchTransform
  unfold transform
  generalize stage.visitor = v at hv
  generalize stage'.visitor = v' at hv
  generalize stage.batchTransform = t at ht
  generalize stage'.batchTransform = t' at ht
  cases ht with
  | some ht => exact ht batch batch' hd hb
  | none =>
    cases hv with
    | none => exact lockstep_pure hb
    | some hv =>
      simp only [← hb.length_eq]
      split
      · exact Stage.lockstep_visitArranged hb hv
      · exact Stage.lockstep_visitInTurn hb hv

theorem lockstep_applyStage (hV : Source.Likeness V) {stage : Stage ω S} {stage' : Stage ω' S}
    (h : stage.Lockstep κ V stage') {p p' : Pass S} (hp : p.Matched V p') :
    κ.Lockstep (Pass.Matched V) (σ.applyStage cycle path stage p)
      (σ.applyStage cycle path stage' p') := by
  unfold applyStage
  rw [h.hasTransform_eq]
  split
  case isFalse => exact lockstep_pure hp
  case isTrue =>
    have ht : κ.Lockstep (fun b b' => List.Forall₂ V b b' ∧ Source.Distinct b)
        (σ.transform cycle path stage p.batch) (σ.transform cycle path stage' p'.batch) :=
      (lockstep_transform h hp.distinct hp.batch).imp_of_ok fun c x d x' hx hb =>
        ⟨hb, distinct_transform hx hp.distinct⟩
    refine lockstep_context.bind fun start start' hs => ht.bind fun after after' ha =>
      lockstep_context.bind fun finish finish' hf => lockstep_pure ?_
    have hdiff := hV.diff_eq hp.batch ha.1
    constructor
    case batch => exact ha.1
    case distinct => exact ha.2
    case ledger_eq => simp only [hdiff, hp.ledger_eq]
    case anotherCycle_eq =>
      simp only [hdiff, hp.anotherCycle_eq, h.repeats_eq, κ.writes hs, κ.writes hf]

variable {ω₀ : Type} {f : Stage ω₀ S → Stage ω S} {f' : Stage ω₀ S → Stage ω' S}

mutual
theorem lockstep_invoke (hV : Source.Likeness V) {cycle position : Nat} {path : RecipePath}
    {p p' : Pass S} : (r : Recipe ω₀ S) →
      (∀ stage ∈ r.stages, (f stage).Lockstep κ V (f' stage)) → p.Matched V p' →
      κ.Lockstep (Pass.Matched V) (σ.invoke cycle path position (r.mapStages f) p)
        (σ.invoke cycle path position (r.mapStages f') p')
  | ⟨stage, children⟩, hf, hp => by
    have hs : (f stage).Lockstep κ V (f' stage) := hf stage (by simp [Recipe.stages])
    have hc : ∀ s ∈ Recipe.stagesOf children, (f s).Lockstep κ V (f' s) :=
      fun s hm => hf s (by simp [Recipe.stages, hm])
    rw [Recipe.mapStages, Recipe.mapStages, invoke, invoke]
    refine lockstep_context.bind fun c c' hr => ?_
    rw [κ.cancelled hr]
    split
    case isTrue => exact lockstep_pure hp
    case isFalse =>
      rw [hs.frame_eq]
      refine (hs.admits hp.batch).bind fun admitted _ he => ?_
      subst he
      cases admitted with
      | false => exact lockstep_pure hp
      | true =>
        exact (lockstep_applyStage hV hs hp).bind fun q q' hq =>
          lockstep_invokeAll hV children hc hq

theorem lockstep_invokeAll (hV : Source.Likeness V) {cycle position : Nat} {path : RecipePath}
    {p p' : Pass S} : (rs : List (Recipe ω₀ S)) →
      (∀ stage ∈ Recipe.stagesOf rs, (f stage).Lockstep κ V (f' stage)) → p.Matched V p' →
      κ.Lockstep (Pass.Matched V) (σ.invokeAll cycle path position (Recipe.mapStagesOf f rs) p)
        (σ.invokeAll cycle path position (Recipe.mapStagesOf f' rs) p')
  | [], _, hp => lockstep_pure hp
  | r :: rs, hf, hp => by
    have hr : ∀ s ∈ r.stages, (f s).Lockstep κ V (f' s) :=
      fun s hm => hf s (by simp [Recipe.stagesOf, hm])
    have hrs : ∀ s ∈ Recipe.stagesOf rs, (f s).Lockstep κ V (f' s) :=
      fun s hm => hf s (by simp [Recipe.stagesOf, hm])
    rw [Recipe.mapStagesOf, Recipe.mapStagesOf, invokeAll_cons, invokeAll_cons]
    exact (lockstep_invoke hV r hr hp).bind fun q q' hq => lockstep_invokeAll hV rs hrs hq
end

variable {recipe : Recipe ω₀ S} {g g' : Flight S} {batch batch' : List S}

theorem lockstep_cycle (hV : Source.Likeness V)
    (hf : ∀ stage ∈ recipe.stages, (f stage).Lockstep κ V (f' stage)) (hg : g.Matched V g') :
    κ.Lockstep (fun r r' => r.1.Matched V r'.1 ∧ r'.2 = r.2) (σ.cycle (recipe.mapStages f) g)
      (σ.cycle (recipe.mapStages f') g') :=
  (accord_matched hV).lockstep_cycle (fun _ _ _ hp => lockstep_invoke hV recipe hf hp) hg

theorem checks_mapStages (hV : Source.Likeness V)
    (hf : ∀ stage ∈ recipe.stages, (f' stage).name = (f stage).name)
    (hb : List.Forall₂ V batch batch') :
    σ.checks (recipe.mapStages f') batch' = σ.checks (recipe.mapStages f) batch := by
  have hnames : (recipe.mapStages f').stages.map Stage.name =
      (recipe.mapStages f).stages.map Stage.name := by
    rw [Recipe.stages_mapStages, Recipe.stages_mapStages, List.map_map, List.map_map]
    exact List.map_congr_left hf
  have hblank : (recipe.mapStages f').hasBlankName = (recipe.mapStages f).hasBlankName := by
    rw [Recipe.hasBlankName_eq, Recipe.hasBlankName_eq, hnames]
  rw [checks, checks, Recipe.validate, Recipe.validate, hblank, Recipe.stage_mapStages,
    Recipe.stage_mapStages, hf _ recipe.mem_stages_self, hV.checkIds_eq hb]

theorem lockstep_run {W : RecipeRun S → RecipeRun S → Prop} (hV : Source.Likeness V)
    (hf : ∀ stage ∈ recipe.stages, (f stage).Lockstep κ V (f' stage))
    (hb : List.Forall₂ V batch batch')
    (he : ∀ e c c', σ.checks (recipe.mapStages f) batch = .error e → κ.Related c c' →
      κ.Ended e c c')
    (hW : ∀ c rounds g d g', Completes σ κ.hook (recipe.mapStages f) batch c rounds g d →
      g.Matched V g' →
      W (Report.ofRun batch g.batch g.ledger g.cycles)
        (Report.ofRun batch' g'.batch g'.ledger g'.cycles)) :
    κ.Lockstep W (σ.run (recipe.mapStages f) batch)
      (σ.run (recipe.mapStages f') batch') :=
  (accord_matched hV).lockstep_run rfl rfl (fun _ _ _ hp => lockstep_invoke hV recipe hf hp)
    (checks_mapStages hV (fun s hs => (hf s hs).name_eq) hb) he
    (fun ha => ⟨hb, (checks_eq_ok_iff.mp ha).2.2, rfl, rfl⟩) hW

theorem lockstep_run_eq (hf : ∀ stage ∈ recipe.stages, (f stage).Lockstep κ Eq (f' stage))
    (he : ∀ e c c', σ.checks (recipe.mapStages f) batch = .error e → κ.Related c c' →
      κ.Ended e c c') :
    κ.Lockstep Eq (σ.run (recipe.mapStages f) batch) (σ.run (recipe.mapStages f') batch) := by
  refine lockstep_run Source.likeness_eq hf (List.forall₂_refl batch) he ?_
  intro c rounds g d g' _ hm
  have hg : g'.batch = g.batch := (List.forall₂_eq_eq_eq ▸ hm.batch : g.batch = g'.batch).symm
  rw [hg, hm.ledger_eq, hm.cycles_eq]

end Scheduler

end

end Codemod
