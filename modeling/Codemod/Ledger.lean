import Codemod.Provenance
import Codemod.Table
import Codemod.TreeId

namespace Codemod

structure Ledger where
  changes : Table TreeId Provenance := .empty

namespace Ledger

def empty : Ledger := {}

instance : Inhabited Ledger := ⟨empty⟩

def get? (l : Ledger) (id : TreeId) : Option Provenance :=
  l.changes.get? id

def contains (l : Ledger) (id : TreeId) : Bool :=
  l.changes.contains id

def size (l : Ledger) : Nat :=
  l.changes.size

def provenance (l : Ledger) (id : TreeId) : Provenance :=
  (l.get? id).getD Provenance.empty

/-- Enters the source even where its provenance does not admit the path. -/
def record (l : Ledger) (id : TreeId) (path : RecipePath) : Ledger :=
  ⟨l.changes.insert id ((l.provenance id).record path)⟩

def recordAll (l : Ledger) (ids : List TreeId) (path : RecipePath) : Ledger :=
  ids.foldl (fun l id => l.record id path) l

def admits (l : Ledger) (id : TreeId) (path : RecipePath) : Bool :=
  (l.provenance id).admits path

def descriptors (l : Ledger) (id : TreeId) : List Descriptor :=
  (l.provenance id).descriptors

def recipeNames (l : Ledger) (id : TreeId) : List String :=
  (l.provenance id).recipeNames

theorem get?_record (l : Ledger) (id other : TreeId) (path : RecipePath) :
    (l.record id path).get? other =
      if other = id then some ((l.provenance id).record path) else l.get? other :=
  Table.get?_insert _ _ _ _

theorem provenance_record (l : Ledger) (id other : TreeId) (path : RecipePath) :
    (l.record id path).provenance other =
      if other = id then (l.provenance id).record path else l.provenance other := by
  unfold provenance
  rw [get?_record]
  split <;> rfl

theorem get?_empty (id : TreeId) : empty.get? id = none := rfl

end Ledger

end Codemod
