import Codemod.Proofs.Lockstep
import Codemod.Proofs.Rounds

namespace Codemod

section
variable {S : Type}

/-- What two runs have in common inside a cycle, and between two cycles: enough for both to decide
alike on another cycle. -/
structure Accord (P : Pass S → Pass S → Prop) (F : Flight S → Flight S → Prop) : Prop where
  cycles_eq {f f'} (h : F f f') : f'.cycles = f.cycles
  opens {f f'} (h : F f f') : P ⟨f.batch, f.ledger, false⟩ ⟨f'.batch, f'.ledger, false⟩
  asks_eq {p p'} (h : P p p') : p'.anotherCycle = p.anotherCycle
  batch_eq_iff {f f' p p'} (hf : F f f') (hp : P p p') : p'.batch = f'.batch ↔ p.batch = f.batch
  closes {f f' p p'} (hf : F f f') (hp : P p p') :
    F ⟨p.batch, p.ledger, f.cycles + 1⟩ ⟨p'.batch, p'.ledger, f'.cycles + 1⟩

end

namespace Accord
open Coupling
variable {ω ω' S : Type} [Source S] {κ : Coupling ω ω'} {P : Pass S → Pass S → Prop}
variable {F : Flight S → Flight S → Prop} {σ σ' : Scheduler}
variable {r : Recipe ω S} {r' : Recipe ω' S} {f f' : Flight S} {batch batch' : List S}

theorem lockstep_cycle (h : Accord P F)
    (hi : ∀ n p p', P p p' → κ.Lockstep P (σ.invoke n [] 0 r p) (σ'.invoke n [] 0 r' p'))
    (hf : F f f') :
    κ.Lockstep (fun x x' => F x.1 x'.1 ∧ x'.2 = x.2) (σ.cycle r f) (σ'.cycle r' f') := by
  rw [Scheduler.cycle, Scheduler.cycle, h.cycles_eq hf]
  refine lockstep_resetNewMessages.bind fun _ _ _ => (hi _ _ _ (h.opens hf)).bind fun p p' hp =>
    lockstep_context.bind fun c c' hc => lockstep_pure ⟨?_, ?_⟩
  · have hclose := h.closes hf hp
    rwa [h.cycles_eq hf] at hclose
  · simp only [h.asks_eq hp, hasNewMessages hc, ne_eq, h.batch_eq_iff hf hp]

theorem lockstep_cycles (h : Accord P F) (hm : σ'.config.minCycles = σ.config.minCycles)
    (hi : ∀ n p p', P p p' → κ.Lockstep P (σ.invoke n [] 0 r p) (σ'.invoke n [] 0 r' p'))
    (hf : F f f') (limit : Nat) :
    κ.Lockstep F (σ.cycles r limit f) (σ'.cycles r' limit f') := by
  induction limit generalizing f f' with
  | zero => exact lockstep_pure hf
  | succ limit ih =>
    rw [Scheduler.cycles, Scheduler.cycles]
    refine lockstep_context.bind fun c c' hc => ?_
    rw [κ.cancelled hc]
    split
    case isTrue => exact lockstep_pure hf
    case isFalse =>
      refine (h.lockstep_cycle hi hf).bind ?_
      rintro ⟨g, another⟩ ⟨g', another'⟩ ⟨hg, ha⟩
      simp only at hg ha
      simp only [ha, h.cycles_eq hg, hm]
      split
      · exact lockstep_pure hg
      · exact ih hg

theorem lockstep_run {W : RecipeRun S → RecipeRun S → Prop} (h : Accord P F)
    (hm : σ'.config.minCycles = σ.config.minCycles)
    (hx : σ'.config.maxCycles = σ.config.maxCycles)
    (hi : ∀ n p p', P p p' → κ.Lockstep P (σ.invoke n [] 0 r p) (σ'.invoke n [] 0 r' p'))
    (hc : σ'.checks r' batch' = σ.checks r batch)
    (he : ∀ e c c', σ.checks r batch = .error e → κ.Related c c' → κ.Ended e c c')
    (hf : σ.checks r batch = .ok () → F ⟨batch, {}, 0⟩ ⟨batch', {}, 0⟩)
    (hW : ∀ c rounds g d g', Scheduler.Completes σ κ.hook r batch c rounds g d → F g g' →
      W (Report.ofRun batch g.batch g.ledger g.cycles)
        (Report.ofRun batch' g'.batch g'.ledger g'.cycles)) :
    κ.Lockstep W (σ.run r batch) (σ'.run r' batch') := by
  have hchecks : κ.Lockstep (fun _ _ => σ.checks r batch = .ok ())
      (Attempt.ofExcept (σ.checks r batch)) (Attempt.ofExcept (σ'.checks r' batch')) := by
    intro c c' hr
    rw [hc, Attempt.perform_ofExcept, Attempt.perform_ofExcept]
    cases ha : σ.checks r batch with
    | error e => exact .error (he e c c' ha hr)
    | ok => exact .ok rfl hr
  refine hchecks.bind fun _ _ ha => ?_
  have hw : κ.Lockstep (fun g g' => W (Report.ofRun batch g.batch g.ledger g.cycles)
        (Report.ofRun batch' g'.batch g'.ledger g'.cycles))
      (σ.cycles r σ.config.maxCycles ⟨batch, {}, 0⟩)
      (σ'.cycles r' σ'.config.maxCycles ⟨batch', {}, 0⟩) := by
    rw [hx]
    refine (h.lockstep_cycles hm hi (hf ha) _).imp_of_ok fun c g d g' hg hgg => ?_
    obtain ⟨rounds, hr⟩ := Scheduler.cycles_eq_ok_iff.mp hg
    exact hW c rounds g d g' ⟨ha, hr⟩ hgg
  exact hw.bind fun g g' hg => lockstep_pure hg

end Accord

end Codemod
