import Codemod.Proofs.Congruence
import Codemod.Proofs.Modification
import Codemod.Proofs.Settling

namespace Codemod

section
variable {ω S : Type} [Source S]

def VisitResult.remarked (m : Markers) : VisitResult S → VisitResult S
  | .ok (some after) => .ok (some (Source.withMarkers after m))
  | .ok none => .ok none
  | .error cause => .error cause

structure SourceVisitor.MarkerBlind (hook : ErrorHook ω) (v : SourceVisitor ω S) : Prop where
  accepts (s : S) : ∃ accepted, (∀ c, (v.accepts s).perform hook c = (accepted, c)) ∧
    ∀ m c, (v.accepts (Source.withMarkers s m)).perform hook c = (accepted, c)
  visit (s : S) : ∃ result, (∀ c, (v.visit s).perform hook c = (result, c)) ∧
    ∀ m c, (v.visit (Source.withMarkers s m)).perform hook c = (result.remarked m, c)

def VisitorFactory.MarkerBlind (hook : ErrorHook ω) (factory : VisitorFactory ω S) : Prop :=
  ∃ v, (∀ c, Action.perform factory hook c = (v, c)) ∧ v.MarkerBlind hook

structure Stage.MarkerBlind (hook : ErrorHook ω) (stage : Stage ω S) : Prop where
  gate {test : VisitorFactory ω S} (h : stage.gate = some test) : test.MarkerBlind hook
  sourceTest {test : VisitorFactory ω S} (h : stage.sourceTest = some test) : test.MarkerBlind hook
  visitor {factory : VisitorFactory ω S} (h : stage.visitor = some factory) :
    factory.MarkerBlind hook
  perSource : stage.batchTransform = none

end

def RecipeResult.unstamped {S : Type} [Source S] (r : RecipeResult S) : RecipeResult S :=
  { r with before := r.before.map Source.unstamp }

theorem map_eq_map_iff_forall₂ {α β : Type} {f g : α → β} {l l' : List α} :
    l'.map g = l.map f ↔ List.Forall₂ (fun a b => f a = g b) l l' := by
  have h : List.Forall₂ (fun a b => f a = g b) l l' ↔ List.Forall₂ Eq (l.map f) (l'.map g) := by
    rw [List.forall₂_map_left_iff, List.forall₂_map_right_iff]
  rw [h, List.forall₂_eq_eq_eq, eq_comm]

namespace Source
variable {S : Type} [Source S] {batch batch' : List S} {s s' : S} {μ μ' : TreeId → Markers}

def Remarked (μ μ' : TreeId → Markers) (s s' : S) : Prop :=
  markers s = μ (Tree.id s) ∧ s' = withMarkers s (μ' (Tree.id s))

theorem likeness_remarked : Likeness (Remarked μ μ' : S → S → Prop) where
  id_eq h := by rw [h.2, id_withMarkers]
  path_eq h := by rw [h.2, path_withMarkers]
  eq_iff := by
    rintro s _ t _ ⟨hs, rfl⟩ ⟨ht, rfl⟩
    constructor
    · intro h
      have hid : Tree.id t = Tree.id s := by
        simpa only [id_withMarkers] using congrArg Tree.id h
      have hm := congrArg (withMarkers · (μ (Tree.id s))) h
      simp only [withMarkers_withMarkers] at hm
      rwa [← hs, withMarkers_markers, hs, ← hid, ← ht, withMarkers_markers] at hm
    · rintro rfl
      rfl

theorem unstamp_of_remarked (hμ : ∀ id, (μ' id).withoutProvenance = (μ id).withoutProvenance)
    (h : Remarked μ μ' s s') : unstamp s' = unstamp s := by
  obtain ⟨hs, rfl⟩ := h
  rw [unstamp, unstamp, markers_withMarkers, withMarkers_withMarkers, hμ, hs]

def markersAt (batch : List S) (id : TreeId) : Markers :=
  ((find? batch id).map markers).getD .empty

theorem markersAt_of_mem (hd : Distinct batch) (hs : s ∈ batch) :
    markersAt batch (Tree.id s) = markers s := by
  rw [markersAt, find?_of_mem hd hs]
  rfl

theorem withoutProvenance_markersAt (batch : List S) (id : TreeId) :
    (markersAt batch id).withoutProvenance =
      ((find? (batch.map unstamp) id).map markers).getD .empty := by
  rw [find?_map id_unstamp, markersAt]
  cases find? batch id with
  | none => rfl
  | some s => simp [unstamp, markers_withMarkers]

theorem ids_map_unstamp (batch : List S) : ids (batch.map unstamp) = ids batch := by
  simp [ids, id_unstamp]

theorem remarked_of_unstamp (h : unstamp s' = unstamp s) : s' = withMarkers s (markers s') := by
  have hm := congrArg (withMarkers · (markers s')) h
  simpa only [unstamp, withMarkers_withMarkers, withMarkers_markers] using hm

theorem distinct_of_unstamp (hd : Distinct batch) (hu : batch'.map unstamp = batch.map unstamp) :
    Distinct batch' := by
  rw [Distinct, ← ids_map_unstamp, hu, ids_map_unstamp]
  exact hd

theorem forall₂_remarked (hd : Distinct batch) (hu : batch'.map unstamp = batch.map unstamp) :
    List.Forall₂ (Remarked (markersAt batch) (markersAt batch')) batch batch' := by
  have heq := List.forall₂_iff_zip.mp (map_eq_map_iff_forall₂.mp hu)
  refine List.forall₂_iff_zip.mpr ⟨heq.1, fun {s s'} hz => ?_⟩
  obtain ⟨hs, hs'⟩ := List.of_mem_zip hz
  have hun : unstamp s = unstamp s' := heq.2 hz
  have hid : Tree.id s' = Tree.id s := by rw [← id_unstamp, ← hun, id_unstamp]
  refine ⟨(markersAt_of_mem hd hs).symm, ?_⟩
  rw [← hid, markersAt_of_mem (distinct_of_unstamp hd hu) hs']
  exact remarked_of_unstamp hun.symm

theorem withoutProvenance_markersAt_eq (hu : batch'.map unstamp = batch.map unstamp)
    (id : TreeId) :
    (markersAt batch' id).withoutProvenance = (markersAt batch id).withoutProvenance := by
  rw [withoutProvenance_markersAt, withoutProvenance_markersAt, hu]

namespace Likeness
variable {V : S → S → Prop} {after after' : List S}

theorem changed_iff (hV : Likeness V) (hb : List.Forall₂ V batch batch')
    (ha : List.Forall₂ V after after') (id : TreeId) :
    Changed batch' after' id ↔ Changed batch after id := by
  have hf := hV.find?_rel hb id
  have hg := hV.find?_rel ha id
  unfold Changed
  generalize find? batch id = o at hf
  generalize find? batch' id = o' at hf
  generalize find? after id = p at hg
  generalize find? after' id = p' at hg
  cases hf with
  | none => cases hg <;> simp
  | some hs =>
    cases hg with
    | none => simp
    | some ht => simp [hV.eq_iff ht hs]

theorem netChanged_eq (hV : Likeness V) (hb : List.Forall₂ V batch batch')
    (ha : List.Forall₂ V after after') : netChanged batch' after' = netChanged batch after := by
  simp only [netChanged, hV.ids_eq hb, hV.ids_eq ha, hV.changed_iff hb ha]

end Likeness

end Source

namespace Report
variable {S : Type} [Source S] {input input' batch batch' : List S} {V : S → S → Prop}
variable {ledger : Ledger}

structure Comparable (V : S → S → Prop) (input input' batch batch' : List S) (ledger : Ledger) :
    Prop where
  likeness : Source.Likeness V
  unstamp_eq {s s'} (h : V s s') : Source.unstamp s' = Source.unstamp s
  input_rel : List.Forall₂ V input input'
  batch_rel : List.Forall₂ V batch batch'
  distinct_input : Source.Distinct input
  distinct_batch : Source.Distinct batch
  recorded {id : TreeId} (h : Source.Changed input batch id) : ∃ p, ledger.get? id = some p

namespace Comparable

theorem stamped_eq (h : Comparable V input input' batch batch' ledger) {s s' : S} (hv : V s s')
    (hs : s ∈ batch) (hs' : s' ∈ batch') :
    stamped input' ledger s' = stamped input ledger s := by
  have hd' : Source.Distinct batch' := h.likeness.distinct h.batch_rel h.distinct_batch
  have hu := h.unstamp_eq hv
  have hid := h.likeness.id_eq hv
  have hiff := h.likeness.changed_iff h.input_rel h.batch_rel (Tree.id s)
  by_cases hc : Source.Changed input batch (Tree.id s)
  · obtain ⟨p, hp⟩ := h.recorded hc
    rw [stamped_of_changed h.distinct_batch hs hc hp,
      stamped_of_changed hd' hs' (hid ▸ hiff.mpr hc) (hid ▸ hp)]
    exact Source.stamp_eq_stamp_iff.mpr hu
  · rw [stamped_of_not_changed h.distinct_batch hs hc,
      stamped_of_not_changed hd' hs' (hid ▸ mt hiff.mp hc), hu]

theorem batch_eq (h : Comparable V input input' batch batch' ledger) :
    batch'.map (stamped input' ledger) = batch.map (stamped input ledger) := by
  have hz := List.forall₂_iff_zip.mp h.batch_rel
  refine map_eq_map_iff_forall₂.mpr (List.forall₂_iff_zip.mpr ⟨hz.1, fun {s s'} hm => ?_⟩)
  obtain ⟨hs, hs'⟩ := List.of_mem_zip hm
  exact (h.stamped_eq (hz.2 hm) hs hs').symm

theorem unstamped_netEntry_eq (h : Comparable V input input' batch batch' ledger) (id : TreeId) :
    (netEntry input' batch' ledger id).unstamped = (netEntry input batch ledger id).unstamped := by
  have hbefore : (Source.find? input' id).map Source.unstamp =
      (Source.find? input id).map Source.unstamp := by
    have hf := h.likeness.find?_rel h.input_rel id
    generalize Source.find? input id = o at hf
    generalize Source.find? input' id = o' at hf
    cases hf with
    | none => rfl
    | some hv => exact congrArg some (h.unstamp_eq hv)
  have hafter : (Source.find? batch' id).map (stamped input' ledger) =
      (Source.find? batch id).map (stamped input ledger) := by
    rw [← find?_map_stamped, ← find?_map_stamped, h.batch_eq]
  simp only [netEntry, entry, RecipeResult.unstamped, hbefore, hafter]

theorem unstamped_results_eq (h : Comparable V input input' batch batch' ledger) :
    (results input' batch' ledger).map RecipeResult.unstamped =
      (results input batch ledger).map RecipeResult.unstamped := by
  rw [results_eq h.distinct_input h.distinct_batch,
    results_eq (h.likeness.distinct h.input_rel h.distinct_input)
      (h.likeness.distinct h.batch_rel h.distinct_batch),
    h.likeness.netChanged_eq h.input_rel h.batch_rel, List.map_map, List.map_map]
  exact List.map_congr_left fun id _ => h.unstamped_netEntry_eq id

end Comparable

end Report

namespace Coupling
variable {ω : Type} {hook : ErrorHook ω}

def sharing (hook : ErrorHook ω) : Coupling ω ω where
  hook := hook
  hook' := hook
  Related := Context.Alike
  Ended _ _ _ := True
  cancelled h := h.cancelled
  writes h := h.writes
  seen h := h.seen
  reset h := ⟨h.cancelled, h.writes, h.writes⟩

theorem routes_sharing (hh : hook.Swallows) : (sharing hook).Routes where
  raise e c c' hr := by
    obtain ⟨hok, hal⟩ := hh e c
    obtain ⟨hok', hal'⟩ := hh e c'
    change (sharing hook).Matched Eq (hook.handle e c) (hook.handle e c')
    generalize hook.handle e c = o at hok hal
    generalize hook.handle e c' = o' at hok' hal'
    obtain ⟨r, d⟩ := o
    obtain ⟨r', d'⟩ := o'
    obtain rfl : r = .ok () := hok
    obtain rfl : r' = .ok () := hok'
    exact .ok rfl (hal.symm.trans (hr.trans hal'))
  ended _ _ := trivial

end Coupling

section
open Coupling
variable {ω S : Type} [Source S] {hook : ErrorHook ω} {μ μ' : TreeId → Markers}

theorem SourceVisitor.MarkerBlind.lockstep {v : SourceVisitor ω S} (h : v.MarkerBlind hook) :
    v.Lockstep (sharing hook) (Source.Remarked μ μ') v where
  accepts {s s'} hs := by
    obtain ⟨accepted, ha, ha'⟩ := h.accepts s
    rw [hs.2]
    exact lockstep_lift ha (ha' _) rfl
  visit {s s'} hs := by
    obtain ⟨result, hr, hr'⟩ := h.visit s
    obtain ⟨hm, rfl⟩ := hs
    intro c c' hc
    refine lockstep_lift hr (hr' _) ?_ c c' hc
    match result with
    | .error cause => exact .failed
    | .ok none => exact .dropped
    | .ok (some after) =>
      by_cases hid : Tree.id after = Tree.id s
      · -- With its own markers the source gives the same again, so the outcome has them too.
        have hown := hr' (Source.markers s) c
        rw [Source.withMarkers_markers, hr] at hown
        have hafter : after = Source.withMarkers after (Source.markers s) := by
          simpa [VisitResult.remarked] using hown
        refine .kept ⟨?_, by rw [hid]⟩
        rw [hid, ← hm, hafter, Source.markers_withMarkers]
      · exact .replaced (Source.id_withMarkers _ _) hid

theorem VisitorFactory.MarkerBlind.lockstep {factory : VisitorFactory ω S}
    (h : factory.MarkerBlind hook) :
    factory.Lockstep (sharing hook) (Source.Remarked μ μ') factory := by
  obtain ⟨v, hv, hb⟩ := h
  exact lockstep_lift hv hv hb.lockstep

namespace Stage.MarkerBlind
variable {stage : Stage ω S}

theorem lockstep_admitsSource (hh : hook.Swallows) (h : stage.MarkerBlind hook) {s s' : S}
    (hs : Source.Remarked μ μ' s s') :
    (sharing hook).Lockstep Eq (stage.admitsSource s) (stage.admitsSource s') := by
  unfold admitsSource
  cases ht : stage.sourceTest with
  | none => exact lockstep_pure rfl
  | some test =>
    exact lockstep_matchesSource Source.likeness_remarked (routes_sharing hh) rfl
      (h.sourceTest ht).lockstep hs

theorem lockstep (hh : hook.Swallows) (h : stage.MarkerBlind hook) :
    stage.Lockstep (sharing hook) (Source.Remarked μ μ') stage where
  name_eq := rfl
  displayName_eq := rfl
  repeats_eq := rfl
  gate := by
    cases ht : stage.gate with
    | none => exact .none
    | some test =>
      exact .some fun s s' hs => lockstep_matchesSource Source.likeness_remarked
        (routes_sharing hh) rfl (h.gate ht).lockstep hs
  visitor := by
    cases hv : stage.visitor with
    | none => exact .none
    | some factory =>
      exact .some fun s s' hs => lockstep_visitSource Source.likeness_remarked
        (routes_sharing hh) rfl (h.lockstep_admitsSource hh hs) (h.visitor hv).lockstep hs
  batchTransform := by
    rw [h.perSource]
    exact .none

end Stage.MarkerBlind

namespace Scheduler
variable {σ : Scheduler} {recipe : Recipe ω S} {batch batch' : List S} {c c' : Context ω}

theorem stale_provenance_is_ignored (hh : hook.Swallows)
    (hb : ∀ stage ∈ recipe.stages, stage.MarkerBlind hook) (hd : Source.Distinct batch)
    (hu : batch'.map Source.unstamp = batch.map Source.unstamp) (hc : c.Alike c')
    (σ : Scheduler) :
    (∃ e, ((σ.run recipe batch).perform hook c).1 = .error e ∧
        ((σ.run recipe batch').perform hook c').1 = .error e) ∨
      ∃ run run', ((σ.run recipe batch).perform hook c).1 = .ok run ∧
        ((σ.run recipe batch').perform hook c').1 = .ok run' ∧
        run'.batch = run.batch ∧ run'.cycles = run.cycles ∧
        run'.results.map RecipeResult.unstamped = run.results.map RecipeResult.unstamped := by
  let μ := Source.markersAt batch
  let μ' := Source.markersAt batch'
  have hV : Source.Likeness (Source.Remarked μ μ' : S → S → Prop) := Source.likeness_remarked
  have hrel : List.Forall₂ (Source.Remarked μ μ') batch batch' := Source.forall₂_remarked hd hu
  have hrun : (sharing hook).Lockstep
      (fun run run' => run'.batch = run.batch ∧ run'.cycles = run.cycles ∧
        run'.results.map RecipeResult.unstamped = run.results.map RecipeResult.unstamped)
      (σ.run (recipe.mapStages id) batch) (σ.run (recipe.mapStages id) batch') := by
    refine lockstep_run hV (fun stage hs => (hb stage hs).lockstep hh) hrel
      (fun _ _ _ _ _ => trivial) ?_
    intro c rounds g d g' hg hm
    have hcomp : Report.Comparable (Source.Remarked μ μ') batch batch' g.batch g'.batch g.ledger :=
      { likeness := hV
        unstamp_eq := Source.unstamp_of_remarked (Source.withoutProvenance_markersAt_eq hu)
        input_rel := hrel
        batch_rel := hm.batch
        distinct_input := hd
        distinct_batch := hg.distinct_output
        recorded := fun hc => ⟨_, (hg.get?_ledger hc).1⟩ }
    rw [hm.ledger_eq, hm.cycles_eq]
    exact ⟨hcomp.batch_eq, rfl, hcomp.unstamped_results_eq⟩
  rw [Recipe.mapStages_id] at hrun
  have hm := hrun c c' hc
  change (sharing hook).Matched _ ((σ.run recipe batch).perform hook c)
    ((σ.run recipe batch').perform hook c') at hm
  generalize (σ.run recipe batch).perform hook c = o at hm
  generalize (σ.run recipe batch').perform hook c' = o' at hm
  cases hm with
  | ok hv => exact .inr ⟨_, _, rfl, rfl, hv⟩
  | error => exact .inl ⟨_, rfl, rfl⟩

end Scheduler

end

namespace Sample

theorem blind_rewriting (old new : String) : (rewriting old new).MarkerBlind .record := by
  refine ⟨_, fun c => rfl, ?_⟩
  constructor
  case accepts => exact fun t => ⟨true, fun c => rfl, fun m c => rfl⟩
  case visit =>
    refine fun t => ⟨_, fun c => rfl, fun m c => ?_⟩
    change (Except.ok (some (if t.text = old then Source.withMarkers { t with text := new } m
      else Source.withMarkers t m)), c) = _
    split
    · rfl
    · rfl

theorem blind_growing : ∀ stage ∈ growing.stages, stage.MarkerBlind .record := by
  intro stage hs
  have hl : stage = growing.stage ∨ stage = gatedOuter ∨ stage = bang.stage ∨
      stage = swap.stage := by
    simpa [growing, Recipe.composite, Recipe.stages, Recipe.stagesOf, bang, swap] using hs
  rcases hl with rfl | rfl | rfl | rfl
  all_goals
    constructor
    case gate => rintro test ⟨⟩ <;> exact blind_rewriting _ _
    case sourceTest => rintro test ⟨⟩
    case visitor => rintro factory ⟨⟩ <;> exact blind_rewriting _ _
    case perSource => rfl

theorem growing_run_ignores_stale_provenance :
    ∃ run d, (scheduler.run growing (batch.map (marked []))).perform .record start = (.ok run, d) ∧
      run.results.length = 1 ∧
      ∃ run', ((scheduler.run growing (batch.map (marked [foreign, foreign]))).perform
          .record start).1 = .ok run' ∧
        run'.batch = run.batch ∧ run'.cycles = run.cycles ∧
        run'.results.map RecipeResult.unstamped = run.results.map RecipeResult.unstamped := by
  have hr : ((scheduler.run growing (batch.map (marked []))).perform .record start).1.toOption.map
      (fun run => run.results.length) = some 1 := by
    decide +kernel
  obtain ⟨run, d, h, hn⟩ := Attempt.exists_ok hr
  have hd : Source.Distinct (batch.map (marked [])) := by
    unfold Source.Distinct
    decide
  have hu : (batch.map (marked [foreign, foreign])).map Source.unstamp =
      (batch.map (marked [])).map Source.unstamp := rfl
  rcases Scheduler.stale_provenance_is_ignored ErrorHook.swallows_record blind_growing hd hu
    (.refl start) scheduler with ⟨e, he, -⟩ | ⟨run₁, run', h₁, h', hrun⟩
  · rw [h] at he
    cases he
  · rw [h] at h₁
    obtain rfl : run = run₁ := Except.ok.inj h₁
    exact ⟨run, d, h, hn, run', h', hrun⟩

end Sample

end Codemod
