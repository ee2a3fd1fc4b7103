import Codemod.Script.Condition
import Codemod.Visitor

namespace Codemod

structure Journal where
  log : List String := []
  handled : List RecipeError := []

namespace Journal

def note (j : Journal) (line : String) : Journal :=
  { j with log := j.log ++ [line] }

def handle (j : Journal) (e : RecipeError) : Journal :=
  { j with handled := j.handled ++ [e] }

end Journal

inductive Edit where
  | append (s : String)
  | prepend (s : String)
  | set (s : String)
  | replace (needle replacement : String)
  | appendMessage (key : String)
  | appendCount
  | delete
  | fail (error : VisitError)
  | report (reason : String)
  | branch (condition : Condition) (thens elses : List Edit)
  | search (description : Option String)
  | custom (key : String) (value : Json)
  | provenance (paths : List RecipePath)
  | dropProvenance
  | dropMarkers
  | path (segments : List String)
  | reid (id : TreeId)
  | put (key : String) (value : Int64)
  | count (key : String)
  | remove (key : String)
  | resetMessages
  | cancel
  | log (s : String)
  | addChild (child : Section)
  | dropChildren
  | reverseChildren

namespace Context
variable {ω : Type}

def putInt (c : Context ω) (key : String) (n : Int64) : Context ω :=
  c.put key ⟨.int, n⟩

def countUp (c : Context ω) (key : String) : Context ω :=
  c.compute .int key fun (n : Option Int64) => n.getD 0 + 1

end Context

namespace Edit
variable {T : Type} [Editable T]

abbrev EditHook := Hook Journal Nat

def relabel (t : T) (f : String → String) : T :=
  Editable.relabel t (f (Editable.label t))

def onContext (t : T) (f : Context Journal → Context Journal) : EditHook T := do
  Hook.lift (Action.update f)
  pure t

def decimal (n : Option Int64) : String :=
  match n with
  | some n => toString n.toInt
  | none => "?"

mutual
def run : Edit → T → EditHook T
  | .append s, t => pure (relabel t (· ++ s))
  | .prepend s, t => pure (relabel t (s ++ ·))
  | .set s, t => pure (relabel t fun _ => s)
  | .replace needle replacement, t =>
    pure (relabel t (Text.replaceAll needle replacement))
  | .appendMessage key, t => do
    let context ← Hook.lift Action.context
    pure (relabel t (· ++ decimal (context.get? .int key)))
  | .appendCount, t => do
    let calls ← Hook.state
    pure (relabel t (· ++ toString calls))
  | .delete, _ => Hook.discard
  | .fail error, _ => Hook.fail error
  | .report reason, t => do
    match ← Hook.lift (Action.reportError (.aborted reason)) with
    | .ok () => pure t
    | .error e => Hook.fail (.other (.recipe e))
  | .branch condition thens elses, t => do
    let context ← Hook.lift Action.context
    if condition.holds context t then runAll thens t else runAll elses t
  | .search description, t => pure (Editable.mapMarkers t (·.withSearchResult description))
  | .custom key value, t => pure (Editable.mapMarkers t (·.withCustom key value))
  | .provenance paths, t =>
    pure (Editable.mapMarkers t (·.withProvenance (Provenance.ofPaths paths)))
  | .dropProvenance, t => pure (Editable.mapMarkers t Markers.withoutProvenance)
  | .dropMarkers, t => pure (Editable.mapMarkers t fun _ => Markers.empty)
  | .path segments, t => pure (Editable.withPath t ⟨segments⟩)
  | .reid id, t => pure (Editable.withId t id)
  | .put key value, t => onContext t (·.putInt key value)
  | .count key, t => onContext t (·.countUp key)
  | .remove key, t => onContext t (·.remove key)
  | .resetMessages, t => onContext t Context.resetNewMessages
  | .cancel, t => onContext t Context.cancel
  | .log s, t => do
    Hook.lift (Action.updateClient (·.note (s ++ Editable.label t)))
    pure t
  | .addChild child, t => pure (Editable.mapSections t (· ++ [child]))
  | .dropChildren, t => pure (Editable.mapSections t fun _ => [])
  | .reverseChildren, t => pure (Editable.mapSections t List.reverse)

def runAll : List Edit → T → EditHook T
  | [], t => pure t
  | e :: es, t => do
    let t ← run e t
    runAll es t
end

def call (edits : List Edit) (t : T) : EditHook T := do
  Hook.updateState (· + 1)
  runAll edits t

end Edit

inductive VisitorKind where
  | text
  | section
  | document
  | noop
deriving DecidableEq, Repr

/-- Visitors that do nothing count as visitors of flat texts. -/
def VisitorKind.accepts : VisitorKind → Document → Bool
  | .text, d => d.text?.isSome
  | .section, d => d.root?.isSome
  | .document, _ => true
  | .noop, d => d.text?.isSome

structure VisitorScript where
  kind : VisitorKind
  accept : Condition := .always
  pre : List Edit := []
  visit : List Edit := []
  post : List Edit := []
  whole : Option (List Edit) := none
  announce : Option String := none

namespace VisitorScript

def accepts {T : Type} [Editable T] (v : VisitorScript) (t : T) : Action Journal Bool := do
  let context ← Action.context
  pure (v.accept.holds context t)

def treeVisitor (T : Type) [Editable T] (v : VisitorScript) : TreeVisitor Journal Nat T where
  accepts := v.accepts
  preVisit := Edit.call v.pre
  visitNode := Edit.call v.visit
  postVisit := Edit.call v.post
  whole := v.whole.map Edit.call

def noop (T : Type) : TreeVisitor Journal Nat T := {}

def treeOrNoop (T : Type) [Editable T] (v : VisitorScript) : TreeVisitor Journal Nat T :=
  if v.kind = .noop then noop T else v.treeVisitor T

def sourceVisitor (v : VisitorScript) : SourceVisitor Journal Document :=
  match v.kind with
  | .text => (v.treeVisitor PlainText).onKind 0
  | .section => (v.treeVisitor Section).onKind 0
  | .document => (v.treeVisitor Document).onKind 0
  | .noop => (noop PlainText).onKind 0

/-- Visits whole documents, and does not ask itself whether it accepts them. -/
def bareVisitor (v : VisitorScript) : SourceVisitor Journal Document where
  accepts := v.accepts
  visit d := (Edit.call v.visit d).start 0

def announced {α : Type} (line : Option String) (a : α) : Action Journal α := do
  match line with
  | some line => Action.updateClient (·.note line)
  | none => pure ()
  pure a

def announcement (v : VisitorScript) : Option String :=
  if v.kind = .noop then none else v.announce

def factory (v : VisitorScript) : VisitorFactory Journal Document :=
  announced v.announcement v.sourceVisitor

def sectionFactory (v : VisitorScript) : Action Journal (TreeVisitor Journal Nat Section) :=
  announced v.announcement (v.treeOrNoop Section)

def bareFactory (v : VisitorScript) : VisitorFactory Journal Document :=
  announced v.announce v.bareVisitor

end VisitorScript

end Codemod
