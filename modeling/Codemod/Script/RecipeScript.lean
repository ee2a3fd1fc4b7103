import Codemod.Run.Scheduler
import Codemod.Script.Edit

namespace Codemod

structure StageScript where
  name : String
  displayName : Option String := none
  description : Option String := none
  tags : List String := []
  repeats : Bool := false
  gate : Option VisitorScript := none
  sourceTest : Option VisitorScript := none
  visitor : Option VisitorScript := none
  sourceVisitor : Option VisitorScript := none

mutual
/-- A recipe as data. The `late` children are added once the recipe is built, unchecked. -/
inductive RecipeScript where
  | single (stage : StageScript) (transform : Option (List BatchStep))
      (children late : List RecipeScript)
  | composite (name : String) (children late : List RecipeScript)

inductive BatchStep where
  | push (doc : Document)
  | insert (index : Nat) (doc : Document)
  | clear
  | drop (condition : Condition)
  | reverse
  | rotate (n : Nat)
  | duplicate (index : Nat)
  | map (edits : List Edit)
  | fail (error : VisitError)
  | put (key : String) (value : Int64)
  | count (key : String)
  | remove (key : String)
  | resetMessages
  | cancel
  | log (s : String)
  | unlessMessage (key : String) (steps : List BatchStep)
  | ifAny (condition : Condition) (steps : List BatchStep)
  | run (recipe : RecipeScript)
end

namespace StageScript

def visitorFactory (s : StageScript) : Option (VisitorFactory Journal Document) :=
  match s.sourceVisitor with
  | some v => some v.bareFactory
  | none => s.visitor.map VisitorScript.factory

def stage (s : StageScript) (transform : Option (BatchTransform Journal Document)) :
    Stage Journal Document where
  name := s.name
  displayName := s.displayName.getD s.name
  description := s.description
  tags := s.tags
  gate := s.gate.map VisitorScript.factory
  sourceTest := s.sourceTest.map VisitorScript.factory
  visitor := s.visitorFactory
  batchTransform := transform
  repeats := s.repeats

end StageScript

namespace BatchStep

abbrev Transform := ExceptT VisitError (Action Journal)

def context : Transform (Context Journal) :=
  ExceptT.lift Action.context

def onContext (batch : List Document) (f : Context Journal → Context Journal) :
    Transform (List Document) := do
  ExceptT.lift (Action.update f)
  pure batch

def insertAt (batch : List Document) (index : Nat) (doc : Document) : List Document :=
  batch.take index ++ doc :: batch.drop index

def rotateLeft (batch : List Document) (n : Nat) : List Document :=
  let k := n % batch.length
  batch.drop k ++ batch.take k

def duplicateAt (batch : List Document) (index : Nat) : List Document :=
  batch ++ batch[index % batch.length]?.toList

def editAll (edits : List Edit) : List Document → Transform (List Document)
  | [] => pure []
  | doc :: docs => do
    let kept ← ExceptT.mk ((Edit.runAll edits doc).start 0)
    let rest ← editAll edits docs
    pure (kept.toList ++ rest)

def runRecipe (recipe : Except RecipeError (Recipe Journal Document)) (batch : List Document) :
    Transform (List Document) :=
  match recipe with
  | .error e => throw (.other (.recipe e))
  | .ok recipe => do
    match ← ExceptT.lift (recipe.runWith batch).run with
    | .ok report => pure report.batch
    | .error e => throw (.other (.recipe e))

end BatchStep

mutual
def RecipeScript.build : RecipeScript → Except RecipeError (Recipe Journal Document)
  | .single stage transform children late => do
    let children ← RecipeScript.buildAll children
    let transform := match transform with
      | some steps => some (BatchStep.applyAll steps)
      | none => none
    let recipe ← Recipe.build (stage.stage transform) children
    let late ← RecipeScript.buildAll late
    pure (late.foldl Recipe.addChild recipe)
  | .composite name children late => do
    let children ← RecipeScript.buildAll children
    let late ← RecipeScript.buildAll late
    pure (late.foldl Recipe.addChild (Recipe.composite name children))

def RecipeScript.buildAll :
    List RecipeScript → Except RecipeError (List (Recipe Journal Document))
  | [] => pure []
  | r :: rs => do
    let recipe ← RecipeScript.build r
    let recipes ← RecipeScript.buildAll rs
    pure (recipe :: recipes)

def BatchStep.apply : BatchStep → List Document → BatchStep.Transform (List Document)
  | .push doc, batch => pure (batch ++ [doc])
  | .insert index doc, batch => pure (BatchStep.insertAt batch index doc)
  | .clear, _ => pure []
  | .drop condition, batch => do
    let context ← BatchStep.context
    pure (batch.filter fun doc => !condition.holds context doc)
  | .reverse, batch => pure batch.reverse
  | .rotate n, batch => pure (BatchStep.rotateLeft batch n)
  | .duplicate index, batch => pure (BatchStep.duplicateAt batch index)
  | .map edits, batch => BatchStep.editAll edits batch
  | .fail error, _ => throw error
  | .put key value, batch => BatchStep.onContext batch (·.putInt key value)
  | .count key, batch => BatchStep.onContext batch (·.countUp key)
  | .remove key, batch => BatchStep.onContext batch (·.remove key)
  | .resetMessages, batch => BatchStep.onContext batch Context.resetNewMessages
  | .cancel, batch => BatchStep.onContext batch Context.cancel
  | .log s, batch => do
    ExceptT.lift (Action.updateClient (·.note (s ++ toString batch.length)))
    pure batch
  | .unlessMessage key steps, batch => do
    let context ← BatchStep.context
    if (context.get? .int key).isSome then pure batch else BatchStep.applyAll steps batch
  | .ifAny condition steps, batch => do
    let context ← BatchStep.context
    if batch.any (condition.holds context) then BatchStep.applyAll steps batch else pure batch
  | .run recipe, batch => BatchStep.runRecipe (RecipeScript.build recipe) batch

def BatchStep.applyAll : List BatchStep → List Document → BatchStep.Transform (List Document)
  | [], batch => pure batch
  | step :: steps, batch => do
    let batch ← BatchStep.apply step batch
    BatchStep.applyAll steps batch
end

end Codemod
