import Codemod.Context
import Codemod.Tree

namespace Codemod

/-- What a hook of a visitor may do: use its own state `τ` and the run's context, fail, or give up
the node. What it did to the state stays in every case. -/
abbrev Hook (ω τ : Type) := OptionT (ExceptT VisitError (StateT τ (Action ω)))

abbrev VisitResult (T : Type) := Except VisitError (Option T)

namespace Hook
variable {ω τ α : Type}

def discard : Hook ω τ α := OptionT.fail

def fail (e : VisitError) : Hook ω τ α :=
  OptionT.lift (throw e)

def lift (a : Action ω α) : Hook ω τ α :=
  OptionT.lift (ExceptT.lift (StateT.lift a))

def state : Hook ω τ τ :=
  OptionT.lift (ExceptT.lift get)

def updateState (f : τ → τ) : Hook ω τ Unit :=
  OptionT.lift (ExceptT.lift (modify f))

def attempt (h : Hook ω τ α) : StateT τ (Action ω) (VisitResult α) :=
  h.run.run

def keep? (h : Hook ω τ α) : Hook ω τ (Option α) :=
  OptionT.lift h.run

def filterMap (f : α → Hook ω τ α) : List α → Hook ω τ (List α)
  | [] => pure []
  | x :: xs => do
    let kept ← keep? (f x)
    let rest ← filterMap f xs
    pure (kept.toList ++ rest)

def start (h : Hook ω τ α) (initial : τ) : Action ω (VisitResult α) :=
  Prod.fst <$> (h.attempt.run initial : Action ω (VisitResult α × τ))

end Hook

structure TreeVisitor (ω τ T : Type) where
  accepts : T → Action ω Bool := fun _ => pure true
  preVisit : T → Hook ω τ T := pure
  visitNode : T → Hook ω τ T := pure
  postVisit : T → Hook ω τ T := pure
  whole : Option (T → Hook ω τ T) := none

namespace TreeVisitor
variable {ω τ T : Type} [Tree T]

/-- A hook may hang new children under a node, so the depth is no matter of the tree alone; this
many levels are allowed beyond its height. -/
def headroom : Nat := 1000000

def descend (v : TreeVisitor ω τ T) : Nat → T → Hook ω τ T
  | 0, _ => Hook.fail (.failed "tree too deep")
  | depth + 1, tree => do
    let tree ← v.preVisit tree
    let tree ← v.visitNode tree
    let children ← Hook.filterMap (v.descend depth) (Tree.children tree)
    v.postVisit (Tree.withChildren tree children)

def visit (v : TreeVisitor ω τ T) (tree : T) : Hook ω τ T :=
  match v.whole with
  | some visit => visit tree
  | none => v.descend (Tree.height tree + headroom) tree

def visitRoot (v : TreeVisitor ω τ T) (tree : T) : Hook ω τ T := do
  if ← Hook.lift (v.accepts tree) then v.visit tree else pure tree

end TreeVisitor

structure SourceVisitor (ω S : Type) where
  accepts : S → Action ω Bool
  visit : S → Action ω (VisitResult S)

abbrev VisitorFactory (ω S : Type) := Action ω (SourceVisitor ω S)

abbrev BatchTransform (ω S : Type) := List S → ExceptT VisitError (Action ω) (List S)

namespace TreeVisitor
variable {ω τ S T : Type} [Tree T] [Accepts S T]

def acceptsKind (v : TreeVisitor ω τ T) (source : S) : Action ω Bool :=
  match (Accepts.kind? source : Option T) with
  | some tree => v.accepts tree
  | none => pure false

/-- Sources of another kind, and those that the visitor does not accept, pass unchanged. A source
whose tree is given up is given up with it. -/
def visitKind (v : TreeVisitor ω τ T) (initial : τ) (source : S) : Action ω (VisitResult S) :=
  match (Accepts.kind? source : Option T) with
  | none => pure (.ok (some source))
  | some tree => do
    if ← v.accepts tree then
      let result ← (v.visit tree).start initial
      pure (result.map (·.map (Accepts.withKind source)))
    else pure (.ok (some source))

def onKind (v : TreeVisitor ω τ T) (initial : τ) : SourceVisitor ω S where
  accepts := v.acceptsKind
  visit := v.visitKind initial

end TreeVisitor

end Codemod
