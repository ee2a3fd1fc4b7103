import Codemod.Proofs.Itinerary
import Codemod.Proofs.Latching
import Codemod.Proofs.Stamping

namespace Codemod

structure Recipe.Latches {ω S : Type} (hook : ErrorHook ω) (recipe : Recipe ω S) : Prop where
  handler : hook.Latches
  stages : ∀ stage ∈ recipe.stages, stage.Latches hook

theorem Source.netChanged_self {S : Type} [Source S] (batch : List S) :
    Source.netChanged batch batch = [] := by
  rw [List.eq_nil_iff_forall_not_mem]
  intro id hm
  exact Source.mem_netChanged_iff.mp hm rfl

theorem Report.ofRun_eq {S : Type} [Source S] {input batch : List S} (hi : Source.Distinct input)
    (hb : Source.Distinct batch) (ledger : Ledger) (cycles : Nat) :
    ofRun input batch ledger cycles =
      ⟨(Source.netChanged input batch).map (netEntry input batch ledger),
        batch.map (stamped input ledger), cycles⟩ := by
  rw [ofRun, results_eq hi hb]

theorem Report.ofRun_self {S : Type} [Source S] {batch : List S} (hb : Source.Distinct batch)
    (ledger : Ledger) (cycles : Nat) :
    ofRun batch batch ledger cycles = ⟨[], batch.map Source.unstamp, cycles⟩ := by
  have hs : batch.map (stamped batch ledger) = batch.map Source.unstamp :=
    List.map_congr_left fun s hm => stamped_of_not_changed hb hm fun hc => hc rfl
  rw [ofRun_eq hb hb, Source.netChanged_self, hs, List.map_nil]

namespace Scheduler
variable {ω S : Type} [Source S]

variable {σ : Scheduler} {hook : ErrorHook ω} {recipe : Recipe ω S} {batch : List S}
variable {c d : Context ω} {m m' : Moment ω S} {own trail : List (Invocation ω S)}
variable {x : Invocation ω S} {stage : Stage ω S} {error : RecipeError}

namespace Reaches

theorem provenance_eq (h : Reaches σ hook recipe batch c trail m) (id : TreeId) :
    m.pass.ledger.provenance id = ⟨changingPaths (Invocation.applied trail) id⟩ := by
  rw [h.coherent.ledger]
  exact Ledger.provenance_eq (Ledger.get?_replay h.coherent.applied h.path_ne_nil)

end Reaches

theorem run_cancelled_before (ha : σ.checks recipe batch = .ok ()) (hc : c.cancelled = true) :
    (σ.run recipe batch).perform hook c = (.ok ⟨[], batch.map Source.unstamp, 0⟩, c) := by
  have hi : Source.Distinct batch := (checks_eq_ok_iff.mp ha).2.2
  rw [run_of_accepted ha, Attempt.bind_of_ok (cycles_cancelled hc _ _), Attempt.perform_pure,
    Report.ofRun_self hi]

end Scheduler

namespace Sample

def halting : VisitorFactory Unit PlainText :=
  (pure {
    accepts := fun _ => pure true
    visit := fun t => do
      Action.update fun c => if t.text = "x" then c.cancel else c
      pure (.ok (some (if t.text = "x" then { t with text := "y" } else t))) } :
    Action Unit (SourceVisitor Unit PlainText))

def halt : Stage Unit PlainText :=
  { name := "halt", visitor := some halting, repeats := true }

-- Without the cancellation there would be a second cycle at least.
def haltedScheduler : Scheduler :=
  { config := { maxCycles := 5, minCycles := 2, parallel := false } }

theorem distinct_batch : Source.Distinct batch := by
  unfold Source.Distinct
  decide +kernel

end Sample

end Codemod
