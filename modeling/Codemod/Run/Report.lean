import Codemod.Ledger
import Codemod.Tree

namespace Codemod

structure RecipeResult (S : Type) where
  before : Option S
  after : Option S
  descriptors : List Descriptor
  recipeNames : List String

namespace RecipeResult
variable {S : Type}

def isGenerated (r : RecipeResult S) : Bool := r.before.isNone

def isDeleted (r : RecipeResult S) : Bool := r.after.isNone

def isModified (r : RecipeResult S) : Bool := r.before.isSome && r.after.isSome

end RecipeResult

structure RecipeRun (S : Type) where
  results : List (RecipeResult S)
  batch : List S
  cycles : Nat

namespace RecipeRun
variable {S : Type}

def changedCount (r : RecipeRun S) : Nat := r.results.length

def isUnchanged (r : RecipeRun S) : Bool := r.results.isEmpty

end RecipeRun

namespace Report
variable {S : Type} [Source S]

def isSettled (input : List S) (s : S) : Bool :=
  Source.find? input (Tree.id s) = some s

def stamped (input : List S) (ledger : Ledger) (s : S) : S :=
  if isSettled input s then Source.unstamp s
  else match ledger.get? (Tree.id s) with
    | some p => Source.stamp s p
    | none => s

def entry (ledger : Ledger) (id : TreeId) (before after : Option S) : RecipeResult S :=
  ⟨before, after, ledger.descriptors id, ledger.recipeNames id⟩

def survivor? (input : List S) (ledger : Ledger) (s : S) : Option (RecipeResult S) :=
  if isSettled input s then none
  else some (entry ledger (Tree.id s) (Source.find? input (Tree.id s))
    (some (stamped input ledger s)))

def lost? (batch : List S) (ledger : Ledger) (s : S) : Option (RecipeResult S) :=
  if Source.contains batch (Tree.id s) then none
  else some (entry ledger (Tree.id s) (some s) none)

def results (input batch : List S) (ledger : Ledger) : List (RecipeResult S) :=
  batch.filterMap (survivor? input ledger) ++ input.filterMap (lost? batch ledger)

def ofRun (input batch : List S) (ledger : Ledger) (cycles : Nat) : RecipeRun S where
  results := results input batch ledger
  batch := batch.map (stamped input ledger)
  cycles := cycles

theorem id_stamped (input : List S) (ledger : Ledger) (s : S) :
    Tree.id (stamped input ledger s) = Tree.id s := by
  unfold stamped
  split
  · exact Source.id_unstamp s
  · split
    · exact Source.id_stamp s _
    · rfl

theorem ids_ofRun (input batch : List S) (ledger : Ledger) (cycles : Nat) :
    Source.ids (ofRun input batch ledger cycles).batch = Source.ids batch := by
  simp [ofRun, Source.ids, id_stamped]

end Report

end Codemod
