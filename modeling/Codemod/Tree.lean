import Codemod.Marker
import Codemod.SourcePath
import Codemod.TreeId

namespace Codemod

/-- Nodes with an identity and direct children of their own kind. Leaf kinds keep the defaults. -/
class Tree (T : Type) where
  id : T → TreeId
  children : T → List T := fun _ => []
  withChildren : T → List T → T := fun t _ => t
  height : T → Nat := fun _ => 0
  height_child : ∀ t, ∀ c ∈ children t, height c < height t := by simp
  id_withChildren : ∀ t cs, id (withChildren t cs) = id t := by simp
  withChildren_children : ∀ t, withChildren t (children t) = t := by simp

class Source (S : Type) extends Tree S where
  decEq : DecidableEq S
  path : S → SourcePath
  markers : S → Markers
  withMarkers : S → Markers → S
  id_withMarkers : ∀ s m, id (withMarkers s m) = id s := by simp
  path_withMarkers : ∀ s m, path (withMarkers s m) = path s := by simp
  markers_withMarkers : ∀ s m, markers (withMarkers s m) = m := by simp
  withMarkers_markers : ∀ s, withMarkers s (markers s) = s := by simp
  withMarkers_withMarkers : ∀ s m n, withMarkers (withMarkers s m) n = withMarkers s n := by simp

instance (S : Type) [Source S] : DecidableEq S := Source.decEq

class Accepts (S T : Type) where
  kind? : S → Option T
  withKind : S → T → S

instance (S : Type) : Accepts S S where
  kind? s := some s
  withKind _ s := s

namespace Source
variable {S : Type} [Source S]

def ids (batch : List S) : List TreeId :=
  batch.map Tree.id

def find? (batch : List S) (id : TreeId) : Option S :=
  batch.find? fun s => Tree.id s = id

def contains (batch : List S) (id : TreeId) : Bool :=
  (ids batch).contains id

def stamp (s : S) (p : Provenance) : S :=
  withMarkers s ((markers s).withProvenance p)

def unstamp (s : S) : S :=
  withMarkers s (markers s).withoutProvenance

theorem id_stamp (s : S) (p : Provenance) : Tree.id (stamp s p) = Tree.id s :=
  id_withMarkers s _

theorem id_unstamp (s : S) : Tree.id (unstamp s) = Tree.id s :=
  id_withMarkers s _

theorem unstamp_stamp (s : S) (p : Provenance) : unstamp (stamp s p) = unstamp s := by
  simp only [unstamp, stamp, markers_withMarkers, withMarkers_withMarkers,
    Markers.withoutProvenance_withProvenance]

theorem stamp_stamp (s : S) (p q : Provenance) : stamp (stamp s p) q = stamp s q := by
  simp only [stamp, markers_withMarkers, withMarkers_withMarkers,
    Markers.withProvenance_withProvenance]

theorem id_of_find? {batch : List S} {id : TreeId} {s : S} (h : find? batch id = some s) :
    Tree.id s = id := by
  simpa using List.find?_some h

theorem contains_iff {batch : List S} {id : TreeId} :
    contains batch id = true ↔ id ∈ ids batch := by
  simp [contains]

end Source

end Codemod
