import Codemod.Proofs.Rounds
import Mathlib.Order.Bounds.Defs

namespace Codemod

theorem Application.asks_iff {ω S : Type} [Source S] {a : Application ω S} (ha : a.Distinct) :
    a.asks = true ↔
      a.stage.repeats = true ∧ ((∃ id, a.Changes id) ∨ a.finish.writes ≠ a.start.writes) := by
  have hd : (!a.diff.isEmpty) = true ↔ ∃ id, a.Changes id := by
    rw [Bool.not_eq_true', ← Bool.not_eq_true, Application.diff, Diff.isEmpty_iff ha.after]
    simp [Changes]
  rw [asks, Bool.and_eq_true, Bool.or_eq_true, hd, bne_iff_ne]

structure Round.Triggering {ω S : Type} [Source S] (r : Round ω S) : Prop where
  asked : ∃ a ∈ r.applications, a.stage.hasTransform = true ∧ a.stage.repeats = true ∧
    ((∃ id, a.Changes id) ∨ a.finish.writes ≠ a.start.writes)
  moved : r.after ≠ r.before ∨ r.finish.hasNewMessages = true

theorem Round.triggers_iff {ω S : Type} [Source S] {r : Round ω S}
    (hd : ∀ a ∈ r.applications, a.Distinct)
    (ht : ∀ a ∈ r.applications, a.stage.hasTransform = true) :
    r.triggers = true ↔ r.Triggering := by
  have ha : r.applications.any Application.asks = true ↔
      ∃ a ∈ r.applications, a.stage.hasTransform = true ∧ a.stage.repeats = true ∧
        ((∃ id, a.Changes id) ∨ a.finish.writes ≠ a.start.writes) := by
    rw [List.any_eq_true]
    constructor
    · rintro ⟨a, hm, h⟩
      exact ⟨a, hm, ht a hm, (Application.asks_iff (hd a hm)).mp h⟩
    · rintro ⟨a, hm, -, h⟩
      exact ⟨a, hm, (Application.asks_iff (hd a hm)).mpr h⟩
  rw [triggers, Bool.and_eq_true, Bool.or_eq_true, decide_eq_true_eq, ha]
  exact ⟨fun h => ⟨h.1, h.2⟩, fun h => ⟨h.asked, h.moved⟩⟩

theorem Recipe.At.mem_stagesOf {ω S : Type} {position : Nat} {rs : List (Recipe ω S)}
    {path : RecipePath} {stage : Stage ω S} (h : Recipe.At position rs path stage) :
    stage ∈ Recipe.stagesOf rs := by
  induction h with
  | here => simp [stagesOf, stages]
  | under _ ih => simp [stagesOf, stages, ih]
  | next _ ih => simp [stagesOf, ih]

namespace Recipe
variable {ω S : Type}

theorem stagesOf_singleton (recipe : Recipe ω S) : stagesOf [recipe] = recipe.stages := by
  simp [stagesOf]

theorem At.mem_stages {recipe : Recipe ω S} {path : RecipePath} {stage : Stage ω S}
    (h : At 0 [recipe] path stage) : stage ∈ recipe.stages := by
  rw [← stagesOf_singleton]
  exact h.mem_stagesOf

theorem forall_mem_stagesOf_cons {P : Stage ω S → Prop} {r : Recipe ω S} {rs : List (Recipe ω S)} :
    (∀ stage ∈ stagesOf (r :: rs), P stage) ↔
      P r.stage ∧ (∀ stage ∈ stagesOf r.children, P stage) ∧ ∀ stage ∈ stagesOf rs, P stage := by
  cases r with
  | mk stage children => simp [stagesOf, stages, or_imp, forall_and]

end Recipe

namespace Scheduler
variable {ω S : Type} [Source S]

def StopsAfter (σ : Scheduler) (k : Nat) (r : Round ω S) : Prop :=
  k = σ.config.maxCycles ∨ (σ.config.minCycles ≤ k ∧ ¬ r.Triggering) ∨ r.finish.cancelled = true

variable {σ : Scheduler} {hook : ErrorHook ω} {recipe : Recipe ω S} {limit : Nat}
variable {batch : List S} {c d : Context ω} {f g : Flight S} {rounds : List (Round ω S)}
variable {run : RecipeRun S}

namespace Cycling

theorem rounds_eq_nil_iff (h : Cycling σ hook recipe limit f c rounds g d) :
    rounds = [] ↔ limit = 0 ∨ c.cancelled = true := by
  cases h with
  | spent => simp
  | cancelled hc => simp [hc]
  | settled hc => simp [hc]
  | again hc => simp [hc]

theorem length_le (h : Cycling σ hook recipe limit f c rounds g d) : rounds.length ≤ limit := by
  induction h with
  | spent => simp
  | cancelled => simp
  | settled => simp
  | again _ _ _ _ ih => simpa using ih

theorem stopsAfter_iff (h : Cycling σ hook recipe limit f c rounds g d)
    (hl : f.cycles + limit = σ.config.maxCycles)
    (ht : ∀ r ∈ rounds, r.triggers = true ↔ r.Triggering) {k : Nat} {r : Round ω S}
    (hk : rounds[k]? = some r) :
    σ.StopsAfter (f.cycles + (k + 1)) r ↔ k + 1 = rounds.length := by
  induction h generalizing k with
  | spent => simp at hk
  | cancelled => simp at hk
  | settled hc hw hm hn =>
    cases k with
    | succ k => simp at hk
    | zero =>
      have hs := mt (ht _ (List.mem_singleton_self _)).mpr (by rw [hn]; exact Bool.false_ne_true)
      obtain rfl : _ = r := by simpa using hk
      exact ⟨fun _ => rfl, fun _ => Or.inr (Or.inl ⟨hm, hs⟩)⟩
  | @again limit f c log after e rounds g d hc hw hs rest ih =>
    have hnil := rest.rounds_eq_nil_iff
    cases k with
    | succ k =>
      have hi := ih (by simp only; omega) (fun r hr => ht r (by simp [hr])) hk
      have hn : f.cycles + (k + 1 + 1) = f.cycles + 1 + (k + 1) := by omega
      rw [List.length_cons, Nat.add_right_cancel_iff, hn]
      exact hi
    | zero =>
      -- This cycle was no reason to settle, so only its number or a cancellation can end the run.
      obtain rfl : _ = r := by simpa using hk
      rw [List.length_cons, Nat.add_right_cancel_iff, eq_comm, List.length_eq_zero_iff, hnil]
      constructor
      · rintro (hm | ⟨hm, hn⟩ | hcancel)
        · exact Or.inl (by omega)
        · exact absurd ((ht _ (by simp)).mp (hs hm)) hn
        · exact Or.inr hcancel
      · rintro (hz | hcancel)
        · exact Or.inl (by omega)
        · exact Or.inr (Or.inr hcancel)

end Cycling

namespace Completes

theorem length_le (h : Completes σ hook recipe batch c rounds f d) :
    rounds.length ≤ σ.config.maxCycles :=
  h.flown.length_le

theorem triggers_iff (h : Completes σ hook recipe batch c rounds f d) :
    ∀ r ∈ rounds, r.triggers = true ↔ r.Triggering := by
  intro r hr
  refine Round.triggers_iff (fun a ha => h.distinct a (Round.mem_applied hr ha)) fun a ha => ?_
  obtain ⟨cycle, hp⟩ := h.to_rounds.performed a (Round.mem_applied hr ha)
  exact hp.transforms

theorem stopsAfter_iff (h : Completes σ hook recipe batch c rounds f d) {k : Nat}
    {r : Round ω S} (hk : rounds[k]? = some r) :
    σ.StopsAfter (k + 1) r ↔ k + 1 = rounds.length := by
  have hs := h.flown.stopsAfter_iff (Nat.zero_add _) h.triggers_iff hk
  rwa [Nat.zero_add] at hs

theorem length_eq_zero_iff (h : Completes σ hook recipe batch c rounds f d) :
    rounds.length = 0 ↔ c.cancelled = true := by
  have hm : σ.config.maxCycles ≠ 0 := by
    have hv := (checks_eq_ok_iff.mp h.accepted).1.1
    omega
  rw [List.length_eq_zero_iff, h.flown.rounds_eq_nil_iff]
  simp [hm]

theorem isLeast_length (h : Completes σ hook recipe batch c rounds f d)
    (hc : c.cancelled = false) :
    IsLeast {k | 1 ≤ k ∧ ∃ r, rounds[k - 1]? = some r ∧ σ.StopsAfter k r} rounds.length := by
  have hn : rounds.length ≠ 0 := by simp [h.length_eq_zero_iff, hc]
  constructor
  · have hl : rounds.length - 1 < rounds.length := by omega
    have hk : rounds.length - 1 + 1 = rounds.length := by omega
    have hr := List.getElem?_eq_getElem hl
    have hs := (h.stopsAfter_iff hr).mpr hk
    rw [hk] at hs
    exact ⟨by omega, _, hr, hs⟩
  · rintro k ⟨hk, r, hr, hs⟩
    have he : k - 1 + 1 = k := by omega
    have hl := (h.stopsAfter_iff hr).mp (he.symm ▸ hs)
    omega

theorem minCycles_le_length (h : Completes σ hook recipe batch c rounds f d)
    (hc : c.cancelled = false) (hr : ∀ r ∈ rounds, r.finish.cancelled = false) :
    max 1 σ.config.minCycles ≤ rounds.length := by
  obtain ⟨hpos, last, hlast, hs⟩ := (h.isLeast_length hc).1
  have hv := (checks_eq_ok_iff.mp h.accepted).1.2
  have hm : σ.config.minCycles ≤ rounds.length := by
    rcases hs with hmax | ⟨hmin, -⟩ | hcancel
    · omega
    · exact hmin
    · rw [hr last (List.mem_of_getElem? hlast)] at hcancel
      simp at hcancel
  omega

theorem not_triggering (h : Completes σ hook recipe batch c rounds f d)
    (hq : recipe.causesAnotherCycle = false) : ∀ r ∈ rounds, ¬ r.Triggering := by
  rintro r hr ⟨⟨a, ha, -, hrep, -⟩, -⟩
  have hat := h.to_rounds.located a (Round.mem_applied hr ha)
  have hno := List.any_eq_false.mp hq a.stage hat.mem_stages
  exact hno hrep

theorem length_of_quiet (h : Completes σ hook recipe batch c rounds f d)
    (hc : c.cancelled = false) (hr : ∀ r ∈ rounds, r.finish.cancelled = false)
    (hq : recipe.causesAnotherCycle = false) :
    rounds.length = max 1 σ.config.minCycles := by
  have hm := h.minCycles_le_length hc hr
  have hl : max 1 σ.config.minCycles - 1 < rounds.length := by omega
  have hk : max 1 σ.config.minCycles - 1 + 1 = max 1 σ.config.minCycles := by omega
  have hget := List.getElem?_eq_getElem hl
  have hn := h.not_triggering hq _ (List.mem_of_getElem? hget)
  have hs := (h.stopsAfter_iff hget).mp (Or.inr (Or.inl ⟨by omega, hn⟩))
  omega

end Completes

theorem cycles_of_triggering (h : (σ.run recipe batch).perform hook c = (.ok run, d)) :
    ∃ rounds after, Rounds σ hook recipe 0 batch c rounds after d ∧
      run.cycles = rounds.length ∧
      (run.cycles = 0 ↔ c.cancelled = true) ∧
      (c.cancelled = false →
        IsLeast {k | 1 ≤ k ∧ ∃ r, rounds[k - 1]? = some r ∧ σ.StopsAfter k r} run.cycles) ∧
      (c.cancelled = false → (∀ r ∈ rounds, r.finish.cancelled = false) →
        max 1 σ.config.minCycles ≤ run.cycles ∧ run.cycles ≤ σ.config.maxCycles ∧
          (recipe.causesAnotherCycle = false → run.cycles = max 1 σ.config.minCycles)) := by
  obtain ⟨rounds, f, hf, rfl⟩ := run_eq_ok_iff.mp h
  have hn : (Report.ofRun batch f.batch f.ledger f.cycles).cycles = rounds.length := hf.cycles_eq
  rw [hn]
  refine ⟨rounds, f.batch, hf.to_rounds, rfl, hf.length_eq_zero_iff, hf.isLeast_length, ?_⟩
  intro hc hr
  exact ⟨hf.minCycles_le_length hc hr, hf.length_le, hf.length_of_quiet hc hr⟩

end Scheduler

theorem Sample.cycles_of_run :
    outcome = (.ok run, outcome.2) ∧ run.cycles = 3 ∧
    ∃ rounds after, Scheduler.Rounds scheduler .record recipe 0 batch start rounds after outcome.2 ∧
      run.cycles = rounds.length ∧
      (run.cycles = 0 ↔ start.cancelled = true) ∧
      (start.cancelled = false →
        IsLeast {k | 1 ≤ k ∧ ∃ r, rounds[k - 1]? = some r ∧ scheduler.StopsAfter k r}
          run.cycles) ∧
      (start.cancelled = false → (∀ r ∈ rounds, r.finish.cancelled = false) →
        max 1 scheduler.config.minCycles ≤ run.cycles ∧
          run.cycles ≤ scheduler.config.maxCycles ∧
          (recipe.causesAnotherCycle = false →
            run.cycles = max 1 scheduler.config.minCycles)) :=
  ⟨outcome_eq, by decide +kernel, Scheduler.cycles_of_triggering outcome_eq⟩

end Codemod
