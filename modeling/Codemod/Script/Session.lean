import Codemod.ConfigFile
import Codemod.Script.RecipeScript

namespace Codemod

/-- What an error hook does with the errors it is given; all but `record` note them first. -/
inductive ErrorPolicy where
  | record
  | swallow
  | escalate
  | abort
  | fatalOnly
  | allow (count : Nat)
deriving DecidableEq, Repr

namespace ErrorPolicy

def verdict : ErrorPolicy → RecipeError → Nat → Except RecipeError Unit
  | record, _, _ => .ok ()
  | swallow, _, _ => .ok ()
  | escalate, e, _ => .error e
  | abort, e, _ => .error (.aborted e.message)
  | fatalOnly, e, _ => if e.isFatal then .error e else .ok ()
  | allow count, e, noted => if count < noted then .error e else .ok ()

def note (policy : ErrorPolicy) (e : RecipeError) (c : Context Journal) :
    Except RecipeError Unit × Context Journal :=
  let journal := c.client.handle e
  (policy.verdict e journal.handled.length, { c with client := journal })

def hook (policy : ErrorPolicy) : ErrorHook Journal :=
  if policy = record then .record else .custom policy.note

end ErrorPolicy

inductive Setting where
  | maxCycles (n : Nat)
  | minCycles (n : Nat)
  | parallel (b : Bool)
  | parallelThreshold (n : Nat)
deriving DecidableEq, Repr

def Config.adjust (c : Config) : Setting → Config
  | .maxCycles n => { c with maxCycles := n }
  | .minCycles n => { c with minCycles := n }
  | .parallel b => { c with parallel := b }
  | .parallelThreshold n => { c with parallelThreshold := n }

inductive ConfigScript where
  | settings (changes : List Setting)
  | toml (text : String)
deriving DecidableEq, Repr

def ConfigScript.config : ConfigScript → Except RecipeError Config
  | settings changes => .ok (changes.foldl Config.adjust {})
  | toml text => Config.ofToml text

inductive RunEntry where
  | alone
  | shared
  | scheduler
deriving DecidableEq, Repr

structure RunScript where
  recipe : RecipeScript
  config : ConfigScript := .settings []
  entry : RunEntry := .scheduler
  fresh : Bool := false
  cancelled : Bool := false

structure Session where
  batch : List Document
  context : Context Journal := { client := {} }

structure RunRecord where
  outcome : Except RecipeError (RecipeRun Document)
  context : Context Journal

namespace RunScript

abbrev Outcome := Except RecipeError (RecipeRun Document) × Context Journal

def startContext (r : RunScript) (c : Context Journal) : Context Journal :=
  let c := if r.fresh then { client := {} } else { c with client := {} }
  if r.cancelled then c.cancel else c

def runRecipe (r : RunScript) (hook : ErrorHook Journal) (recipe : Recipe Journal Document)
    (batch : List Document) (c : Context Journal) : Outcome :=
  match r.entry with
  | .alone =>
    let outcome := recipe.run batch c.client
    (outcome.1, { c with client := outcome.2 })
  | .shared => (recipe.runWith batch).perform hook c
  | .scheduler =>
    match r.config.config with
    | .error e => (.error e, c)
    | .ok config => (Scheduler.run { config := config } recipe batch).perform hook c

def outcome (r : RunScript) (hook : ErrorHook Journal) (s : Session) : Outcome :=
  let c := r.startContext s.context
  match r.recipe.build with
  | .error e => (.error e, c)
  | .ok recipe => r.runRecipe hook recipe s.batch c

def perform (r : RunScript) (hook : ErrorHook Journal) (s : Session) : RunRecord × Session :=
  let (outcome, c) := r.outcome hook s
  let batch := match outcome with
    | .ok report => report.batch
    | .error _ => s.batch
  (⟨outcome, c⟩, ⟨batch, c⟩)

end RunScript

def Session.perform (s : Session) (hook : ErrorHook Journal) : List RunScript → List RunRecord
  | [] => []
  | r :: rs =>
    let (record, next) := r.perform hook s
    record :: next.perform hook rs

end Codemod
