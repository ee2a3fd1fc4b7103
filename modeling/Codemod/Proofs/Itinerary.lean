import Codemod.Proofs.CycleControl
import Codemod.Proofs.Trail
import Mathlib.Logic.Relation

namespace Codemod

def Row.stages {ω S : Type} (row : Row ω S) : List (Stage ω S) :=
  Recipe.stagesOf row.recipes

/-- How many more cycles there may be, and how much of the current one is still to do. -/
def Moment.remaining {ω S : Type} (σ : Scheduler) (m : Moment ω S) : Nat × Nat :=
  (σ.config.maxCycles - m.cycle, 2 * (m.rows.flatMap Row.stages).length + m.rows.length)

theorem Recipe.length_stagesOf_cons {ω S : Type} (stage : Stage ω S) (children : List (Recipe ω S))
    (rs : List (Recipe ω S)) :
    (stagesOf (⟨stage, children⟩ :: rs)).length =
      (stagesOf children).length + (stagesOf rs).length + 1 := by
  simp [stagesOf, stages]

namespace Scheduler
variable {ω S : Type} [Source S]

structure Over (σ : Scheduler) (m : Moment ω S) : Prop where
  rows : m.rows = []
  reason : m.context.cancelled = true ∨ σ.config.maxCycles ≤ m.cycle ∨
    (σ.config.minCycles ≤ m.cycle ∧ m.asksAgain = false)

inductive Fails (σ : Scheduler) (hook : ErrorHook ω) :
    Moment ω S → Stage ω S → RecipeError → Context ω → Prop
  | gate {n opening path position stage children rs rows p c error d} (hc : c.cancelled = false)
      (hg : (stage.admits p.batch).perform hook c = (.error error, d)) :
      Fails σ hook ⟨n, opening, ⟨path, position, ⟨stage, children⟩ :: rs⟩ :: rows, p, c⟩ stage
        error d
  | transform {n opening path position stage children rs rows p c g error d}
      (hc : c.cancelled = false) (hg : (stage.admits p.batch).perform hook c = (.ok true, g))
      (ht : stage.hasTransform = true)
      (hf : (σ.transform n (path ++ [stage.frame position]) stage p.batch).perform hook g =
        (.error error, d)) :
      Fails σ hook ⟨n, opening, ⟨path, position, ⟨stage, children⟩ :: rs⟩ :: rows, p, c⟩ stage
        error d

variable {σ : Scheduler} {hook : ErrorHook ω} {recipe : Recipe ω S} {batch : List S}
variable {c d : Context ω} {m m' m'' : Moment ω S} {own own' trail trail' : List (Invocation ω S)}
variable {stage : Stage ω S} {error : RecipeError}

theorem Step.decreases (h : Step σ hook recipe m own m') :
    Prod.Lex (· < ·) (· < ·) (m'.remaining σ) (m.remaining σ) := by
  cases h with
  | close => exact .right _ (by simp [Row.stages, Recipe.stagesOf])
  | @skip n opening path position r rs rows p c hc =>
    obtain ⟨stage, children⟩ := r
    refine .right _ ?_
    simp only [List.flatMap_cons, List.length_append, List.length_cons, Row.stages,
      Recipe.length_stagesOf_cons]
    omega
  | @invoke opening path position children rs rows p x hx hp hb =>
    refine .right _ ?_
    rw [Invocation.below]
    split <;>
    · simp only [List.flatMap_cons, List.flatMap_nil, List.flatMap_append, List.length_append,
        List.length_cons, List.length_nil, Row.stages, Recipe.length_stagesOf_cons]
      omega
  | again hr hc hl ha =>
    refine .left _ _ ?_
    simp only [Moment.start, Moment.flight]
    omega

theorem Over.resume_eq (h : σ.Over m) :
    (σ.resume recipe m).perform hook m.context = (.ok m.flight, m.context) := by
  rcases h.reason with hc | hm | ⟨hm, hn⟩
  · exact resume_cancelled hc
  · have hz : σ.config.maxCycles - m.cycle = 0 := by omega
    rw [resume_of_rows_eq_nil h.rows, goOn, hz]
    split <;> rfl
  · rw [resume_of_rows_eq_nil h.rows, goOn, if_pos (by simp [hm, hn])]
    rfl

theorem resume_of_invoke_error {n position : Nat} {opening : List S} {path : RecipePath}
    {r : Recipe ω S} {rs : List (Recipe ω S)} {rows : List (Row ω S)} {p : Pass S}
    (h : (σ.invoke n path position r p).perform hook c = (.error error, d)) :
    (σ.resume recipe ⟨n, opening, ⟨path, position, r :: rs⟩ :: rows, p, c⟩).perform hook c =
      (.error error, d) := by
  rw [resume, finishRows_cons, invokeAll_cons, bind_assoc, bind_assoc, Attempt.bind_of_error h]

theorem Fails.resume_eq (h : Fails σ hook m stage error d) :
    (σ.resume recipe m).perform hook m.context = (.error error, d) := by
  cases h with
  | gate hc hg =>
    refine resume_of_invoke_error ?_
    rw [invoke, Attempt.context_bind, hc, if_neg Bool.false_ne_true, Attempt.bind_of_error hg]
  | transform hc hg ht hf =>
    refine resume_of_invoke_error ?_
    rw [invoke_of_admits hc hg, if_pos rfl, Attempt.bind_of_error]
    rw [applyStage, ht, if_pos rfl, Attempt.context_bind, Attempt.bind_of_error hf]

theorem performed_or_fails (σ : Scheduler) (hook : ErrorHook ω) (n position : Nat)
    (opening : List S) (path : RecipePath) (stage : Stage ω S) (children rs : List (Recipe ω S))
    (rows : List (Row ω S)) (p : Pass S) (hc : c.cancelled = false) :
    (∃ g f admitted after, (Invocation.mk n (path ++ [stage.frame position]) stage c g f admitted
        p.batch after).Performed σ hook) ∨
      ∃ error d, Fails σ hook ⟨n, opening, ⟨path, position, ⟨stage, children⟩ :: rs⟩ :: rows, p, c⟩
        stage error d := by
  cases hg : (stage.admits p.batch).perform hook c with
  | mk verdict g =>
    cases verdict with
    | error error => exact .inr ⟨error, g, .gate hc hg⟩
    | ok admitted =>
      cases ha : admitted && stage.hasTransform with
      | false =>
        refine .inl ⟨g, g, admitted, p.batch, hc, hg, fun h => ?_, fun _ => ⟨rfl, rfl⟩⟩
        exact absurd (ha.symm.trans h) Bool.false_ne_true
      | true =>
        obtain ⟨rfl, ht⟩ := Bool.and_eq_true_iff.mp ha
        cases hf : (σ.transform n (path ++ [stage.frame position]) stage p.batch).perform
            hook g with
        | mk result f =>
          cases result with
          | error error => exact .inr ⟨error, f, .transform hc hg ht hf⟩
          | ok after =>
            refine .inl ⟨g, f, true, after, hc, hg, fun _ => hf, fun h => ?_⟩
            exact absurd (h.symm.trans ha) Bool.false_ne_true

theorem step_or_over_or_fails (σ : Scheduler) (hook : ErrorHook ω) (recipe : Recipe ω S)
    (m : Moment ω S) :
    (∃ own m', Step σ hook recipe m own m') ∨ σ.Over m ∨
      ∃ stage error d, Fails σ hook m stage error d := by
  obtain ⟨n, opening, rows, p, e⟩ := m
  match rows with
  | [] =>
    let m : Moment ω S := ⟨n, opening, [], p, e⟩
    cases hc : e.cancelled with
    | true => exact .inr (.inl ⟨rfl, .inl hc⟩)
    | false =>
      by_cases hl : n < σ.config.maxCycles
      · by_cases ha : σ.config.minCycles ≤ n → m.asksAgain = true
        · exact .inl ⟨_, _, .again rfl hc hl ha⟩
        · obtain ⟨hm, hn⟩ := Classical.not_imp.mp ha
          exact .inr (.inl ⟨rfl, .inr (.inr ⟨hm, Bool.eq_false_iff.mpr hn⟩)⟩)
      · exact .inr (.inl ⟨rfl, .inr (.inl (Nat.le_of_not_lt hl))⟩)
  | ⟨path, position, []⟩ :: rows => exact .inl ⟨_, _, .close⟩
  | ⟨path, position, ⟨stage, children⟩ :: rs⟩ :: rows =>
    cases hc : e.cancelled with
    | true => exact .inl ⟨_, _, .skip hc⟩
    | false =>
      have hx := performed_or_fails σ hook n position opening path stage children rs rows p hc
      rcases hx with ⟨g, f, admitted, after, hx⟩ | ⟨error, d, hf⟩
      · exact .inl ⟨_, _, .invoke hx rfl rfl⟩
      · exact .inr (.inr ⟨stage, error, d, hf⟩)

namespace Reaches

theorem mem_stages_of_step {x : Invocation ω S} (h : Reaches σ hook recipe batch c trail m)
    (hs : Step σ hook recipe m own m') (hx : x ∈ own) : x.stage ∈ recipe.stages :=
  ((h.step hs).coherent.located x (List.mem_append_right trail hx)).mem_stages

theorem mem_stages_of_fails (h : Reaches σ hook recipe batch c trail m)
    (hf : Fails σ hook m stage error d) : stage ∈ recipe.stages := by
  have hw := h.coherent.rows
  cases hf with
  | gate => exact (hw _ (List.mem_cons_self ..) _ _ .here).mem_stages
  | transform => exact (hw _ (List.mem_cons_self ..) _ _ .here).mem_stages

theorem run_of_over (h : Reaches σ hook recipe batch c trail m) (ho : σ.Over m) :
    (σ.run recipe batch).perform hook c =
      (.ok (Report.ofRun batch m.pass.batch m.pass.ledger m.cycle), m.context) := by
  rw [h.perform_run, Attempt.bind_of_ok ho.resume_eq]
  rfl

theorem run_of_fails (h : Reaches σ hook recipe batch c trail m)
    (hf : Fails σ hook m stage error d) :
    (σ.run recipe batch).perform hook c = (.error error, d) := by
  rw [h.perform_run, Attempt.bind_of_error hf.resume_eq]

theorem exists_last {trail : List (Invocation ω S)} {m : Moment ω S}
    (h : Reaches σ hook recipe batch c trail m) :
    ∃ trail' m', Reaches σ hook recipe batch c trail' m' ∧
      (σ.Over m' ∨ ∃ stage error d, Fails σ hook m' stage error d) := by
  rcases step_or_over_or_fails σ hook recipe m with ⟨own, m', hs⟩ | hlast
  · exact exists_last (h.step hs)
  · exact ⟨trail, m, h, hlast⟩
termination_by m.remaining σ
decreasing_by exact hs.decreases

end Reaches

end Scheduler

end Codemod
