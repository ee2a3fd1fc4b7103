import Codemod.Ledger
import Codemod.Tree

namespace Codemod

structure Diff where
  modified : List TreeId
  generated : List TreeId
  deleted : List TreeId
deriving DecidableEq, Repr

namespace Diff
variable {S : Type} [Source S]

def isModified (before : List S) (s : S) : Bool :=
  match Source.find? before (Tree.id s) with
  | some b => b ≠ s
  | none => false

def between (before after : List S) : Diff where
  modified := Source.ids (after.filter (isModified before))
  generated := (Source.ids after).filter fun id => !Source.contains before id
  deleted := (Source.ids before).filter fun id => !Source.contains after id

def touched (d : Diff) : List TreeId :=
  d.modified ++ d.generated ++ d.deleted

def isEmpty (d : Diff) : Bool :=
  d.touched.isEmpty

theorem mem_generated_iff {before after : List S} {id : TreeId} :
    id ∈ (between before after).generated ↔
      id ∈ Source.ids after ∧ id ∉ Source.ids before := by
  simp [between, Source.contains]

theorem mem_deleted_iff {before after : List S} {id : TreeId} :
    id ∈ (between before after).deleted ↔
      id ∈ Source.ids before ∧ id ∉ Source.ids after := by
  simp [between, Source.contains]

end Diff

def Ledger.recordDiff (l : Ledger) (d : Diff) (path : RecipePath) : Ledger :=
  l.recordAll d.touched path

end Codemod
