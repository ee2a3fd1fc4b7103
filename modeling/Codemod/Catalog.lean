import Codemod.Document
import Codemod.Run.Scheduler
import Codemod.Text.Search
import Codemod.Text.UpperCase

namespace Codemod

structure CatalogState where
  visits : Nat := 0
  issued : Nat := 0
deriving DecidableEq, Repr

def SourcePath.ofString (s : String) : SourcePath :=
  match SourcePath.parse s with
  | .ok p => p
  | .error _ => SourcePath.single s

def PlainText.create (id : TreeId) (path text : String) : PlainText :=
  ⟨id, SourcePath.ofString path, Markers.empty, text⟩

def Outline.create (id : TreeId) (path : String) (root : Section) : Outline :=
  ⟨id, SourcePath.ofString path, Markers.empty, root⟩

inductive Heading where
  | mk (title : String) (children : List Heading)

mutual
def Heading.section (next : Nat) : Heading → Section × Nat
  | ⟨title, children⟩ =>
    let (sections, after) := Heading.sections (next + 1) children
    (⟨TreeId.fresh next, title, sections⟩, after)

def Heading.sections (next : Nat) : List Heading → List Section × Nat
  | [] => ([], next)
  | h :: hs =>
    let (s, next) := Heading.section next h
    let (ss, next) := Heading.sections next hs
    (s :: ss, next)
end

def Heading.sample : Heading :=
  ⟨"guide", [⟨"install", []⟩, ⟨"usage", [⟨"advanced", []⟩]⟩]⟩

namespace Catalog
variable {ω : Type}

abbrev TextVisitor (ω : Type) := TreeVisitor ω Unit PlainText

def editing (f : PlainText → PlainText) : TextVisitor ω where
  visitNode t := pure (f t)

def prepending (head : String) : TextVisitor ω :=
  editing fun t => { t with text := head ++ t.text }

def appending (tail : String) : TextVisitor ω :=
  editing fun t => { t with text := t.text ++ tail }

def untouched : TextVisitor ω := {}

def deleting : TextVisitor ω where
  visitNode _ := Hook.discard

def failing (message : String) : TextVisitor ω where
  visitNode _ := Hook.fail (.failed message)

def finding (needle : String) : TextVisitor ω :=
  editing fun t =>
    if Text.contains t.text needle then
      { t with markers := t.markers.withSearchResult (some needle) }
    else t

def counting : TextVisitor CatalogState where
  visitNode t := do
    Hook.lift (Action.updateClient fun c => { c with visits := c.visits + 1 })
    pure { t with text := t.text ++ "!" }

def upperCasingTitles : TreeVisitor ω Unit Section where
  visitNode s := pure { s with title := Text.upperCase s.title }

def onTexts (v : TextVisitor ω) : VisitorFactory ω Document :=
  (pure (v.onKind ()) : Action ω (SourceVisitor ω Document))

def onSections (v : TreeVisitor ω Unit Section) : VisitorFactory ω Document :=
  (pure (v.onKind ()) : Action ω (SourceVisitor ω Document))

def emptying : BatchTransform ω Document :=
  fun _ => pure []

def generating (path text : String) : BatchTransform CatalogState Document :=
  fun batch => do
    let context ← ExceptT.lift Action.context
    let id := TreeId.fresh context.client.issued
    ExceptT.lift (Action.updateClient fun c => { c with issued := c.issued + 1 })
    pure (batch ++ [.text (PlainText.create id path text)])

end Catalog

inductive CatalogKind where
  | prepend (head : String)
  | append (tail : String)
  | noChange
  | deleteByVisitor
  | deleteByBatch
  | generate (path text : String)
  | failing (message : String)
  | counting
  | neverApplicable
  | findText (needle : String)
  | upperCaseTitles
  | composite
deriving DecidableEq, Repr

namespace CatalogKind
open Catalog

def stage (name : String) : CatalogKind → Stage CatalogState Document
  | prepend head => { name := name, visitor := some (onTexts (prepending head)) }
  | append tail => { name := name, visitor := some (onTexts (appending tail)) }
  | noChange => { name := name, visitor := some (onTexts untouched) }
  | deleteByVisitor => { name := name, visitor := some (onTexts deleting) }
  | deleteByBatch => { name := name, batchTransform := some emptying }
  | generate path text => { name := name, batchTransform := some (generating path text) }
  | failing message => { name := name, visitor := some (onTexts (Catalog.failing message)) }
  | counting => { name := name, visitor := some (onTexts Catalog.counting) }
  | neverApplicable =>
    { name := name
      gate := some (onTexts untouched)
      visitor := some (onTexts Catalog.counting) }
  | findText needle => { name := name, visitor := some (onTexts (finding needle)) }
  | upperCaseTitles => { name := name, visitor := some (onSections upperCasingTitles) }
  | composite => { name := name }

end CatalogKind

inductive CatalogRecipe where
  | mk (kind : CatalogKind) (name : String) (children : List CatalogRecipe)

mutual
def CatalogRecipe.recipe : CatalogRecipe → Recipe CatalogState Document
  | ⟨kind, name, children⟩ => ⟨kind.stage name, CatalogRecipe.recipes children⟩

def CatalogRecipe.recipes : List CatalogRecipe → List (Recipe CatalogState Document)
  | [] => []
  | r :: rs => CatalogRecipe.recipe r :: CatalogRecipe.recipes rs
end

/-- A line of a batch to be set up; `again` repeats a document with its identity. -/
inductive CatalogItem where
  | text (path content : String)
  | outline (path : String) (root : Heading)
  | texts (contents : List String)
  | sample
  | again (index : Nat)

namespace CatalogItem

def newText (issued : Nat) (path content : String) : Document :=
  .text (PlainText.create (TreeId.fresh issued) path content)

def newTexts (index issued : Nat) : List String → List Document
  | [] => []
  | content :: contents =>
    newText issued s!"src/file{index}.txt" content :: newTexts (index + 1) (issued + 1) contents

def newOutline (issued : Nat) (path : String) (root : Heading) : Document × Nat :=
  let (sections, next) := root.section (issued + 1)
  (.outline (Outline.create (TreeId.fresh issued) path sections), next)

def addTo (docs : List Document) (issued : Nat) : CatalogItem → List Document × Nat
  | text path content => (docs ++ [newText issued path content], issued + 1)
  | outline path root =>
    let (doc, next) := newOutline issued path root
    (docs ++ [doc], next)
  | texts contents => (docs ++ newTexts 0 issued contents, issued + contents.length)
  | sample =>
    let (doc, next) := newOutline issued "docs/guide.md" Heading.sample
    (docs ++ [doc], next)
  | again index => (docs ++ docs[index]?.toList, issued)

def batch (items : List CatalogItem) : List Document × Nat :=
  items.foldl (fun s item => item.addTo s.1 s.2) ([], 0)

end CatalogItem

end Codemod
