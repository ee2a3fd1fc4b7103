import Codemod.Config
import Codemod.Run.Diff
import Codemod.Run.Report
import Codemod.Run.Visits

namespace Codemod

structure Scheduler where
  config : Config := {}
  order : VisitOrder := .given

structure Pass (S : Type) where
  batch : List S
  ledger : Ledger := {}
  anotherCycle : Bool := false

structure Flight (S : Type) where
  batch : List S
  ledger : Ledger := {}
  cycles : Nat := 0

namespace Scheduler
variable {ω S : Type} [Source S]

def transform (σ : Scheduler) (cycle : Nat) (path : RecipePath) (stage : Stage ω S)
    (batch : List S) : Attempt ω (List S) :=
  match stage.batchTransform, stage.visitor with
  | some f, _ => stage.transformBatch f batch
  | none, none => pure batch
  | none, some factory =>
    if σ.config.visitsInParallel batch.length then
      stage.visitArranged factory (σ.order.arrange cycle path) batch
    else stage.visitInTurn factory batch

/-- Another cycle is asked for by a recipe that repeats and that changed a source or wrote a
message in this very invocation. -/
def applyStage (σ : Scheduler) (cycle : Nat) (path : RecipePath) (stage : Stage ω S)
    (p : Pass S) : Attempt ω (Pass S) := do
  if stage.hasTransform then
    let start ← Attempt.context
    let after ← σ.transform cycle path stage p.batch
    let finish ← Attempt.context
    let diff := Diff.between p.batch after
    let asks := stage.repeats && (!diff.isEmpty || finish.writes != start.writes)
    pure ⟨after, p.ledger.recordDiff diff path, p.anotherCycle || asks⟩
  else pure p

mutual
def invoke (σ : Scheduler) (cycle : Nat) (path : RecipePath) (position : Nat) :
    Recipe ω S → Pass S → Attempt ω (Pass S)
  | ⟨stage, children⟩, p => do
    -- The flag is not looked at again before the next invocation: gate and transform run through.
    if (← Attempt.context).cancelled then pure p
    else
      let path := path ++ [stage.frame position]
      if ← stage.admits p.batch then
        let p ← σ.applyStage cycle path stage p
        σ.invokeAll cycle path 0 children p
      else pure p

def invokeAll (σ : Scheduler) (cycle : Nat) (path : RecipePath) (position : Nat) :
    List (Recipe ω S) → Pass S → Attempt ω (Pass S)
  | [], p => pure p
  | r :: rs, p => do
    let p ← σ.invoke cycle path position r p
    σ.invokeAll cycle path (position + 1) rs p
end

def cycle (σ : Scheduler) (recipe : Recipe ω S) (f : Flight S) : Attempt ω (Flight S × Bool) := do
  Attempt.update Context.resetNewMessages
  let p ← σ.invoke (f.cycles + 1) [] 0 recipe ⟨f.batch, f.ledger, false⟩
  let context ← Attempt.context
  let another := p.anotherCycle && (p.batch ≠ f.batch || context.hasNewMessages)
  pure (⟨p.batch, p.ledger, f.cycles + 1⟩, another)

def cycles (σ : Scheduler) (recipe : Recipe ω S) : Nat → Flight S → Attempt ω (Flight S)
  | 0, f => pure f
  | limit + 1, f => do
    if (← Attempt.context).cancelled then pure f
    else
      let (f, another) ← σ.cycle recipe f
      if σ.config.minCycles ≤ f.cycles && !another then pure f
      else σ.cycles recipe limit f

def checks (σ : Scheduler) (recipe : Recipe ω S) (batch : List S) : Except RecipeError Unit := do
  σ.config.validate
  recipe.validate
  checkIds recipe.stage.name batch

def run (σ : Scheduler) (recipe : Recipe ω S) (batch : List S) : Attempt ω (RecipeRun S) := do
  Attempt.ofExcept (σ.checks recipe batch)
  let f ← σ.cycles recipe σ.config.maxCycles ⟨batch, {}, 0⟩
  pure (Report.ofRun batch f.batch f.ledger f.cycles)

end Scheduler

namespace Recipe
variable {ω S : Type} [Source S]

def runWith (recipe : Recipe ω S) (batch : List S) : Attempt ω (RecipeRun S) :=
  Scheduler.run {} recipe batch

/-- Runs in a context of its own, whose messages and errors are lost. -/
def run (recipe : Recipe ω S) (batch : List S) (client : ω) :
    Except RecipeError (RecipeRun S) × ω :=
  let outcome := (recipe.runWith batch).perform .record { client := client }
  (outcome.1, outcome.2.client)

end Recipe

end Codemod
