import Codemod.Proofs.CallLog
import Codemod.Proofs.Cancellation

namespace Codemod

namespace Recipe
variable {ω S : Type}

def leaves (stages : List (Stage ω S)) : List (Recipe ω S) :=
  (stages.filter Stage.hasTransform).map fun stage => ⟨stage, []⟩

def flat (r : Recipe ω S) : Recipe ω S :=
  .composite r.stage.name (leaves r.stages)

theorem leaves_append (stages stages' : List (Stage ω S)) :
    leaves (stages ++ stages') = leaves stages ++ leaves stages' := by
  rw [leaves, List.filter_append, List.map_append]
  rfl

theorem leaves_cons_of_transform {stage : Stage ω S} (h : stage.hasTransform = true)
    (stages : List (Stage ω S)) : leaves (stage :: stages) = ⟨stage, []⟩ :: leaves stages := by
  rw [leaves, List.filter_cons_of_pos h]
  rfl

theorem leaves_cons_of_composite {stage : Stage ω S} (h : stage.hasTransform = false)
    (stages : List (Stage ω S)) : leaves (stage :: stages) = leaves stages := by
  rw [leaves, List.filter_cons_of_neg (by simp [h])]
  rfl

theorem stagesOf_leaves (stages : List (Stage ω S)) :
    stagesOf (leaves stages) = stages.filter Stage.hasTransform := by
  rw [leaves]
  induction stages.filter Stage.hasTransform with
  | nil => rfl
  | cons stage stages ih =>
    rw [List.map_cons, stagesOf, ih]
    rfl

theorem hasBlankName_flat {r : Recipe ω S} (h : r.hasBlankName = false) :
    r.flat.hasBlankName = false := by
  have hnames : ∀ stage ∈ r.stages, Text.isBlank stage.name = false := by
    simpa [hasBlankName] using h
  have hroot : Text.isBlank r.stage.name = false := hnames _ r.mem_stages_self
  rw [hasBlankName, flat, composite, stages, stagesOf_leaves]
  simp only [List.any_cons, hroot, Bool.false_or, List.any_eq_false, Bool.not_eq_true]
  exact fun stage hs => hnames stage (List.mem_of_mem_filter hs)

end Recipe

namespace Stage
variable {ω S : Type}

theorem hasTransform_logged (hook : ErrorHook ω) (stage : Stage ω S) :
    (stage.logged hook).hasTransform = stage.hasTransform := by
  simp [hasTransform, logged]

end Stage

namespace Recipe
variable {ω S : Type} (hook : ErrorHook ω)

theorem leaves_logged (stages : List (Stage ω S)) :
    mapStagesOf (Stage.logged hook) (leaves stages) =
      leaves (stages.map (Stage.logged hook)) := by
  induction stages with
  | nil => rfl
  | cons stage stages ih =>
    have hl := stage.hasTransform_logged hook
    cases ht : stage.hasTransform with
    | true =>
      rw [List.map_cons, leaves_cons_of_transform ht, leaves_cons_of_transform (hl.trans ht),
        mapStagesOf, ih]
      rfl
    | false =>
      rw [List.map_cons, leaves_cons_of_composite ht, leaves_cons_of_composite (hl.trans ht), ih]

theorem flat_logged (r : Recipe ω S) :
    (r.mapStages (Stage.logged hook)).flat = r.flat.mapStages (Stage.logged hook) := by
  rw [flat, flat, composite, composite, mapStages, leaves_logged, stages_mapStages,
    stage_mapStages]
  rfl

end Recipe

section
variable {S : Type} [Source S]

def RecipeResult.change (r : RecipeResult S) : Option S × Option S :=
  (r.before, r.after.map Source.unstamp)

structure RecipeRun.Concurs (run run' : RecipeRun S) : Prop where
  cycles_eq : run'.cycles = run.cycles
  batch_eq : run'.batch.map Source.unstamp = run.batch.map Source.unstamp
  changes_eq : run'.results.map RecipeResult.change = run.results.map RecipeResult.change

namespace Report
variable {input batch : List S}

theorem changes_results (ledger : Ledger) :
    (results input batch ledger).map RecipeResult.change =
      batch.filterMap (fun s => if isSettled input s then none
        else some (Source.find? input (Tree.id s), some (Source.unstamp s))) ++
      input.filterMap (fun s => if Source.contains batch (Tree.id s) then none
        else some (some s, none)) := by
  rw [results, List.map_append, List.map_filterMap, List.map_filterMap]
  congr 1
  · refine List.filterMap_congr fun s _ => ?_
    unfold survivor?
    split
    · rfl
    · simp [entry, RecipeResult.change, unstamp_stamped]
  · refine List.filterMap_congr fun s _ => ?_
    unfold lost?
    split <;> rfl

theorem concurs_ofRun (ledger ledger' : Ledger) (cycles : Nat) :
    (ofRun input batch ledger cycles).Concurs (ofRun input batch ledger' cycles) where
  cycles_eq := rfl
  batch_eq := by
    rw [ofRun, ofRun, List.map_map, List.map_map]
    exact List.map_congr_left fun s _ => by simp [unstamp_stamped]
  changes_eq := by
    rw [ofRun, ofRun, changes_results, changes_results]

end Report

def Pass.Concurs (p p' : Pass S) : Prop :=
  p'.batch = p.batch ∧ p'.anotherCycle = p.anotherCycle

def Flight.Concurs (f f' : Flight S) : Prop :=
  f'.batch = f.batch ∧ f'.cycles = f.cycles

omit [Source S] in
theorem accord_concurs : Accord (Pass.Concurs (S := S)) Flight.Concurs where
  cycles_eq h := h.2
  opens h := ⟨h.1, rfl⟩
  asks_eq h := h.2
  batch_eq_iff hf hp := by rw [hf.1, hp.1]
  closes hf hp := ⟨hp.1, congrArg (· + 1) hf.2⟩

end

namespace Scheduler
open Coupling
variable {ω S : Type} [Source S] {σ : Scheduler} {hook : ErrorHook ω} {n position position' : Nat}
variable {path path' : RecipePath}

theorem transform_sequential (hσ : σ.config.parallel = false) (n : Nat) (path path' : RecipePath)
    (stage : Stage ω S) (batch : List S) :
    σ.transform n path' stage batch = σ.transform n path stage batch := by
  simp only [transform, Config.visitsInParallel, hσ, Bool.false_and, Bool.false_eq_true, if_false]

theorem invokeAll_append (rs rs' : List (Recipe ω S)) (p : Pass S) :
    σ.invokeAll n path position (rs ++ rs') p =
      σ.invokeAll n path position rs p >>= σ.invokeAll n path (position + rs.length) rs' := by
  induction rs generalizing position p with
  | nil => rfl
  | cons r rs ih =>
    have hn : position + 1 + rs.length = position + (rs.length + 1) := by omega
    rw [List.cons_append, invokeAll_cons, invokeAll_cons, bind_assoc, List.length_cons, ← hn]
    exact congrArg _ (funext fun p => ih p)

variable {p p' : Pass S}

theorem lockstep_applyStage_concurs (hσ : σ.config.parallel = false) (stage : Stage ω S)
    (hp : p.Concurs p') :
    (identical hook).Lockstep Pass.Concurs (σ.applyStage n path stage p)
      (σ.applyStage n path' stage p') := by
  rw [applyStage, applyStage, hp.1]
  split
  case isFalse => exact lockstep_pure hp
  case isTrue =>
    have ht : (identical hook).Lockstep Eq (σ.transform n path stage p.batch)
        (σ.transform n path' stage p.batch) :=
      lockstep_identical_iff.mpr fun c => by rw [transform_sequential hσ n path path']
    refine lockstep_context.bind fun start start' hs => ht.bind fun after after' ha =>
      lockstep_context.bind fun finish finish' hf => lockstep_pure ?_
    obtain rfl : start' = start := hs
    obtain rfl : finish' = finish := hf
    exact ⟨ha.symm, by simp only [hp.2, ha]⟩

theorem invoke_ungated {stage : Stage ω S} {children : List (Recipe ω S)} {c : Context ω}
    (hc : c.cancelled = false) (hg : stage.gate = none) :
    (σ.invoke n path position ⟨stage, children⟩ p).perform hook c =
      (σ.applyStage n (path ++ [stage.frame position]) stage p >>=
        σ.invokeAll n (path ++ [stage.frame position]) 0 children).perform hook c := by
  have ha : (stage.admits p.batch).perform hook c = (.ok true, c) := by
    rw [Stage.admits, hg]
    rfl
  rw [invoke_of_admits hc ha, if_pos rfl]

theorem invoke_leaf {stage : Stage ω S} {c : Context ω} (hc : c.cancelled = false)
    (hg : stage.gate = none) :
    (σ.invoke n path position ⟨stage, []⟩ p).perform hook c =
      (σ.applyStage n (path ++ [stage.frame position]) stage p).perform hook c := by
  have hnil : σ.invokeAll n (path ++ [stage.frame position]) 0 ([] : List (Recipe ω S)) = pure := by
    funext p
    rw [invokeAll]
  rw [invoke_ungated hc hg, hnil, bind_pure]

-- A composite that is entered does no more than to look at the cancellation, as does each recipe
-- below it by itself.
mutual
theorem lockstep_invoke_leaves (hσ : σ.config.parallel = false) {position position' : Nat}
    {path path' : RecipePath} {p p' : Pass S} : (r : Recipe ω S) →
      (∀ stage ∈ r.stages, stage.gate = none) → p.Concurs p' →
      (identical hook).Lockstep Pass.Concurs (σ.invoke n path position r p)
        (σ.invokeAll n path' position' (Recipe.leaves r.stages) p')
  | ⟨stage, children⟩, hg, hp => by
    have hs : stage.gate = none := hg stage (by simp [Recipe.stages])
    have hc : ∀ s ∈ Recipe.stagesOf children, s.gate = none :=
      fun s hm => hg s (by simp [Recipe.stages, hm])
    intro c c' he
    obtain rfl : c' = c := he
    change (identical hook).Matched _ ((σ.invoke n path position _ p).perform hook c')
      ((σ.invokeAll n path' position' _ p').perform hook c')
    cases hcancel : c'.cancelled with
    | true =>
      rw [invoke_cancelled _ hcancel, invokeAll_cancelled hcancel]
      exact .ok hp rfl
    | false =>
      rw [invoke_ungated hcancel hs, Recipe.stages]
      cases ht : stage.hasTransform with
      | false =>
        rw [Attempt.bind_of_ok (applyStage_composite ht), Recipe.leaves_cons_of_composite ht]
        exact lockstep_invokeAll_leaves hσ children hc hp c' c' rfl
      | true =>
        rw [Recipe.leaves_cons_of_transform ht, invokeAll_cons,
          Attempt.bind_congr (invoke_leaf hcancel hs) fun _ _ _ => rfl]
        exact (lockstep_applyStage_concurs hσ stage hp).bind
          (fun q q' hq => lockstep_invokeAll_leaves hσ children hc hq) c' c' rfl

theorem lockstep_invokeAll_leaves (hσ : σ.config.parallel = false) {position position' : Nat}
    {path path' : RecipePath} {p p' : Pass S} : (rs : List (Recipe ω S)) →
      (∀ stage ∈ Recipe.stagesOf rs, stage.gate = none) → p.Concurs p' →
      (identical hook).Lockstep Pass.Concurs (σ.invokeAll n path position rs p)
        (σ.invokeAll n path' position' (Recipe.leaves (Recipe.stagesOf rs)) p')
  | [], _, hp => lockstep_pure hp
  | r :: rs, hg, hp => by
    have hr : ∀ s ∈ r.stages, s.gate = none := fun s hm => hg s (by simp [Recipe.stagesOf, hm])
    have hrs : ∀ s ∈ Recipe.stagesOf rs, s.gate = none :=
      fun s hm => hg s (by simp [Recipe.stagesOf, hm])
    rw [Recipe.stagesOf, Recipe.leaves_append, invokeAll_cons, invokeAll_append]
    exact (lockstep_invoke_leaves hσ r hr hp).bind fun q q' hq =>
      lockstep_invokeAll_leaves hσ rs hrs hq
end

variable {recipe : Recipe ω S}

theorem lockstep_invoke_flat (hσ : σ.config.parallel = false)
    (hg : ∀ stage ∈ recipe.stages, stage.gate = none) (hp : p.Concurs p') :
    (identical hook).Lockstep Pass.Concurs (σ.invoke n path position recipe p)
      (σ.invoke n path position recipe.flat p') := by
  have hall : ∀ path' position', (identical hook).Lockstep Pass.Concurs
      (σ.invoke n path position recipe p)
      (σ.invokeAll n path' position' (Recipe.leaves recipe.stages) p') :=
    fun _ _ => lockstep_invoke_leaves hσ recipe hg hp
  intro c c' he
  obtain rfl : c' = c := he
  change (identical hook).Matched _ ((σ.invoke n path position _ p).perform hook c')
    ((σ.invoke n path position _ p').perform hook c')
  cases hcancel : c'.cancelled with
  | true =>
    rw [invoke_cancelled recipe hcancel, invoke_cancelled recipe.flat hcancel]
    exact .ok hp rfl
  | false =>
    rw [Recipe.flat, Recipe.composite, invoke_ungated hcancel rfl,
      Attempt.bind_of_ok (applyStage_composite rfl)]
    exact hall _ _ c' c' rfl

theorem lockstep_run_flat (hσ : σ.config.parallel = false) (hn : recipe.hasBlankName = false)
    (hg : ∀ stage ∈ recipe.stages, stage.gate = none) (batch : List S) :
    (identical hook).Lockstep RecipeRun.Concurs (σ.run recipe batch) (σ.run recipe.flat batch) := by
  have hchecks : σ.checks recipe.flat batch = σ.checks recipe batch := by
    rw [checks, checks, Recipe.validate, Recipe.validate, hn, Recipe.hasBlankName_flat hn]
    rfl
  refine accord_concurs.lockstep_run rfl rfl (fun _ _ _ hp => lockstep_invoke_flat hσ hg hp)
    hchecks (fun _ _ _ _ hc => hc) (fun _ => ⟨rfl, rfl⟩) ?_
  intro c rounds g d g' _ hgg
  rw [hgg.1, hgg.2]
  exact Report.concurs_ofRun _ _ _

theorem nesting_is_sequencing (hσ : σ.config.parallel = false)
    (hn : recipe.hasBlankName = false) (hg : ∀ stage ∈ recipe.stages, stage.gate = none)
    (hook : ErrorHook ω) (batch : List S) (c : Context ω) :
    (identical hook).Matched RecipeRun.Concurs ((σ.run recipe batch).perform hook c)
        ((σ.run recipe.flat batch).perform hook c) ∧
      σ.events hook recipe.flat batch c = σ.events hook recipe batch c := by
  refine ⟨lockstep_run_flat hσ hn hg batch c c rfl, ?_⟩
  -- The same holds of the runs that keep a log, and they end in one context with one log.
  have hn' : (recipe.mapStages (Stage.logged hook)).hasBlankName = false := by
    rw [Recipe.hasBlankName_eq, Recipe.stages_mapStages, List.map_map, ← hn, Recipe.hasBlankName_eq]
    rfl
  have hg' : ∀ stage ∈ (recipe.mapStages (Stage.logged hook)).stages, stage.gate = none := by
    intro stage hs
    obtain ⟨original, ho, rfl⟩ := Recipe.mem_stages_mapStages.mp hs
    rw [Stage.logged, hg original ho, Option.map_none]
  have hm : (identical hook.logged).Matched RecipeRun.Concurs (σ.loggedRun hook recipe batch c)
      (σ.loggedRun hook recipe.flat batch c) := by
    rw [loggedRun, loggedRun, ← Recipe.flat_logged]
    exact lockstep_run_flat hσ hn' hg' batch _ _ rfl
  rw [events, events, context_eq_of_matched hm]

end Scheduler

namespace Sample

-- The second cycle is cancelled four levels down, before the recipe below that could act.
def nested : Recipe Unit PlainText :=
  ⟨{ name := "root", visitor := some (rewriting "x" "y") },
    [⟨{ name := "outer", displayName := "Outer" },
      [⟨{ name := "back", visitor := some (rewriting "w" "x") }, [⟨halt, [bang]⟩]⟩]⟩,
      ⟨{ name := "on", visitor := some (rewriting "z" "w"), repeats := true }, []⟩]⟩

theorem nested_run_is_sequence :
    ((haltedScheduler.run nested batch).perform .record start).1.toOption.map
        (fun run => (run.cycles, run.batch.map PlainText.text)) = some (2, ["", "y!", "y"]) ∧
      (Coupling.identical .record).Matched RecipeRun.Concurs
          ((haltedScheduler.run nested batch).perform .record start)
          ((haltedScheduler.run nested.flat batch).perform .record start) ∧
        haltedScheduler.events .record nested.flat batch start =
          haltedScheduler.events .record nested batch start := by
  have hall : nested.stages.all (fun stage => stage.gate.isNone) = true := rfl
  have hg : ∀ stage ∈ nested.stages, stage.gate = none := fun stage hs =>
    Option.isNone_iff_eq_none.mp (List.all_eq_true.mp hall stage hs)
  exact ⟨by decide +kernel,
    Scheduler.nesting_is_sequencing rfl (by decide +kernel) hg .record batch start⟩

end Sample

end Codemod
