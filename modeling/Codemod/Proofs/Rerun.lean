import Codemod.Proofs.Cancellation
import Codemod.Proofs.MarkerBlindness

namespace Codemod

section
variable {ω S : Type} [Source S] {hook : ErrorHook ω}

theorem VisitorFactory.MarkerBlind.each {factory : VisitorFactory ω S}
    (h : factory.MarkerBlind hook) : factory.Each hook (Action.IsConstant hook) := by
  obtain ⟨v, hv, hb⟩ := h
  constructor
  case makes => exact ⟨v, hv⟩
  case made =>
    intro c
    rw [hv]
    constructor
    case accepts =>
      intro s
      obtain ⟨accepted, ha, -⟩ := hb.accepts s
      exact ⟨accepted, ha⟩
    case visit =>
      intro s
      obtain ⟨result, hr, -⟩ := hb.visit s
      exact ⟨result, hr⟩

theorem Stage.MarkerBlind.functional {stage : Stage ω S} (h : stage.MarkerBlind hook)
    (hr : stage.hasTransform = true → stage.repeats = true) : stage.Functional hook where
  gate ht := (h.gate ht).each
  sourceTest ht := (h.sourceTest ht).each
  visitor hv := (h.visitor hv).each
  perSource := h.perSource
  repeats := hr

namespace Scheduler
open Coupling
variable {σ : Scheduler} {recipe : Recipe ω S} {batch batch' : List S}
variable {log : List (Application ω S)} {c d : Context ω}

theorem Cycling.fixed {limit : Nat} {f g : Flight S} {rounds : List (Round ω S)}
    (hh : hook.Swallows) (hf : ∀ stage ∈ recipe.stages, stage.Functional hook)
    (h : Cycling σ hook recipe limit f c rounds g d) (hc : c.cancelled = false)
    (hb : Source.Distinct f.batch) (hg : g.cycles < f.cycles + limit) :
    ∃ log, Repeats hook recipe g.batch log g.batch := by
  induction h with
  | spent => omega
  | cancelled hcancel => exact absurd (hcancel.symm.trans hc) (by simp)
  | settled _ hw _ ht =>
    obtain rfl := hw.after_eq_of_settled hh hc hf hb ht
    exact ⟨_, hw.repeats hh hc hf⟩
  | @again limit f c log after e rounds g d _ hw hs rest ih =>
    have he : e.cancelled = false := (hw.alike hh hc hf).uncancelled hc
    refine ih he (hw.distinct hb).2 ?_
    simp only
    omega

theorem Repeats.of_unstamp_eq (h : Repeats hook recipe batch log batch) (hh : hook.Swallows)
    (hb : ∀ stage ∈ recipe.stages, stage.MarkerBlind hook) (hd : Source.Distinct batch)
    (hu : batch'.map Source.unstamp = batch.map Source.unstamp) :
    Repeats hook recipe batch' log batch' := by
  intro σ l n c hc
  obtain ⟨d, hd', hcycle⟩ := h σ l n c hc
  have hV : Source.Likeness
      (Source.Remarked (Source.markersAt batch) (Source.markersAt batch') : S → S → Prop) :=
    Source.likeness_remarked
  have hrel := Source.forall₂_remarked hd hu
  have hl : (sharing hook).Lockstep (fun r r' => Flight.Matched _ r.1 r'.1 ∧ r'.2 = r.2)
      (σ.cycle (recipe.mapStages id) ⟨batch, l, n⟩)
      (σ.cycle (recipe.mapStages id) ⟨batch', l, n⟩) :=
    lockstep_cycle hV (fun stage hs => (hb stage hs).lockstep hh) ⟨hrel, hd, rfl, rfl⟩
  rw [Recipe.mapStages_id] at hl
  have hm := hl c c (.refl c)
  change (sharing hook).Matched _ ((σ.cycle recipe ⟨batch, l, n⟩).perform hook c)
    ((σ.cycle recipe ⟨batch', l, n⟩).perform hook c) at hm
  rw [hcycle] at hm
  generalize (σ.cycle recipe ⟨batch', l, n⟩).perform hook c = o' at hm
  cases hm with
  | @ok _ r' _ d' hv hal =>
    obtain ⟨⟨after, l', k⟩, another⟩ := r'
    obtain ⟨hflight, rfl⟩ := hv
    obtain rfl : after = batch' := (hV.batch_eq_iff hrel hflight.batch).mpr rfl
    obtain rfl : l' = l.replay log := hflight.ledger_eq
    obtain rfl : k = n + 1 := hflight.cycles_eq
    exact ⟨d', hal.uncancelled hd', by simp⟩

theorem Repeats.cycles_settled (h : Repeats hook recipe batch log batch) (hc : c.cancelled = false)
    {limit n : Nat} (hl : 0 < limit) (hm : σ.config.minCycles ≤ n + limit) (l : Ledger) :
    ∃ l' d, (σ.cycles recipe limit ⟨batch, l, n⟩).perform hook c =
      (.ok ⟨batch, l', max (n + 1) σ.config.minCycles⟩, d) := by
  induction limit generalizing n l c with
  | zero => omega
  | succ limit ih =>
    obtain ⟨e, he, hcycle⟩ := h σ l n c hc
    rw [cycles_succ hc, Attempt.bind_of_ok hcycle]
    by_cases hmin : σ.config.minCycles ≤ n + 1
    · rw [Nat.max_eq_left hmin]
      exact ⟨l.replay log, e, by simp [hmin, Attempt.perform_pure]⟩
    · obtain ⟨l', d, hd⟩ := ih he (n := n + 1) (by omega) (by omega) (l.replay log)
      rw [Nat.max_eq_right (by omega)] at hd ⊢
      exact ⟨l', d, by simpa [hmin] using hd⟩

theorem Repeats.run_settled (h : Repeats hook recipe batch log batch)
    (ha : σ.checks recipe batch = .ok ()) (hc : c.cancelled = false) :
    ∃ d, (σ.run recipe batch).perform hook c =
      (.ok ⟨[], batch.map Source.unstamp, max 1 σ.config.minCycles⟩, d) := by
  obtain ⟨⟨hpos, hle⟩, -, hd⟩ := checks_eq_ok_iff.mp ha
  have hle' : σ.config.minCycles ≤ 0 + σ.config.maxCycles := by
    rw [Nat.zero_add]
    exact hle
  obtain ⟨l', d, hcycles⟩ := h.cycles_settled hc hpos hle' {}
  refine ⟨d, ?_⟩
  rw [run_of_accepted ha, Attempt.bind_of_ok hcycles, Attempt.perform_pure, Report.ofRun_self hd]

theorem settled_output_reruns_unchanged (hh : hook.Swallows)
    (hb : ∀ stage ∈ recipe.stages, stage.MarkerBlind hook)
    (hr : ∀ stage ∈ recipe.stages, stage.hasTransform = true → stage.repeats = true)
    {run : RecipeRun S} (h : (σ.run recipe batch).perform hook c = (.ok run, d))
    (hc : c.cancelled = false) (hlt : run.cycles < σ.config.maxCycles) (σ' : Scheduler)
    (hσ : σ'.config = σ.config) {c' : Context ω} (hc' : c'.cancelled = false) :
    ∃ run' d', (σ'.run recipe run.batch).perform hook c' = (.ok run', d') ∧ run'.results = [] ∧
      run'.cycles = max 1 σ.config.minCycles ∧ run'.batch = run.batch.map Source.unstamp := by
  have hf : ∀ stage ∈ recipe.stages, stage.Functional hook :=
    fun stage hs => (hb stage hs).functional (hr stage hs)
  obtain ⟨rounds, f, hrun, rfl⟩ := run_eq_ok_iff.mp h
  obtain ⟨hvalid, hnames, -⟩ := checks_eq_ok_iff.mp hrun.accepted
  have hlt' : f.cycles < 0 + σ.config.maxCycles := by
    rw [Nat.zero_add]
    exact hlt
  obtain ⟨log, hfixed⟩ := hrun.flown.fixed hh hf hc hrun.distinct_input hlt'
  -- What is handed back differs from the fixed point in the stamps.
  have hu : (Report.ofRun batch f.batch f.ledger f.cycles).batch.map Source.unstamp =
      f.batch.map Source.unstamp := by
    rw [Report.ofRun, List.map_map]
    exact List.map_congr_left fun s _ => Report.unstamp_stamped s
  have hagain := hfixed.of_unstamp_eq hh hb hrun.distinct_output hu
  have ha : σ'.checks recipe (Report.ofRun batch f.batch f.ledger f.cycles).batch = .ok () :=
    checks_eq_ok_iff.mpr
      ⟨hσ ▸ hvalid, hnames, Source.distinct_of_unstamp hrun.distinct_output hu⟩
  obtain ⟨d', hd'⟩ := hagain.run_settled ha hc'
  exact ⟨_, d', hd', rfl, by rw [hσ], rfl⟩

end Scheduler

end

namespace Sample

theorem growing_output_reruns_unchanged :
    ∃ run d, (scheduler.run growing (batch.map (marked [foreign]))).perform .record start =
        (.ok run, d) ∧
      (run.cycles = 3 ∧ run.batch.map (fun t => t.markers.provenances.length) = [0, 1, 0]) ∧
      ∃ run' d', (scheduler.run growing run.batch).perform .record start = (.ok run', d') ∧
        run'.results = [] ∧ run'.cycles = max 1 scheduler.config.minCycles ∧
        run'.batch = run.batch.map Source.unstamp := by
  have hr : ((scheduler.run growing (batch.map (marked [foreign]))).perform
      .record start).1.toOption.map (fun run =>
        (run.cycles, run.batch.map fun t => t.markers.provenances.length)) =
      some (3, [0, 1, 0]) := by
    decide +kernel
  obtain ⟨run, d, h, hn⟩ := Attempt.exists_ok hr
  obtain ⟨hcycles, hstamps⟩ := Prod.mk.inj hn
  have hlt : run.cycles < scheduler.config.maxCycles := by
    rw [hcycles]
    decide
  have hflags : ∀ stage ∈ growing.stages, stage.hasTransform = true → stage.repeats = true :=
    fun stage hs => (functional_growing stage hs).repeats
  exact ⟨run, d, h, ⟨hcycles, hstamps⟩, Scheduler.settled_output_reruns_unchanged
    ErrorHook.swallows_record blind_growing hflags h rfl hlt scheduler rfl rfl⟩

end Sample

end Codemod
