import Codemod.Json
import Codemod.Provenance

namespace Codemod

inductive Marker where
  | searchResult (description : Option String)
  | recipesThatMadeChanges (provenance : Provenance)
  | custom (key : String) (value : Json)
deriving DecidableEq, Repr

namespace Marker

def provenance? : Marker → Option Provenance
  | recipesThatMadeChanges p => some p
  | _ => none

def searchResult? : Marker → Option (Option String)
  | searchResult d => some d
  | _ => none

def custom? (key : String) : Marker → Option Json
  | custom k v => if k = key then some v else none
  | _ => none

end Marker

structure Markers where
  entries : List Marker := []
deriving DecidableEq, Repr

namespace Markers

def empty : Markers := {}

instance : Inhabited Markers := ⟨empty⟩

def append (m : Markers) (marker : Marker) : Markers :=
  ⟨m.entries ++ [marker]⟩

def provenance? (m : Markers) : Option Provenance :=
  m.entries.findSome? Marker.provenance?

def withoutProvenance (m : Markers) : Markers :=
  ⟨m.entries.filter fun e => e.provenance?.isNone⟩

def withProvenance (m : Markers) (p : Provenance) : Markers :=
  m.withoutProvenance.append (.recipesThatMadeChanges p)

def withSearchResult (m : Markers) (description : Option String) : Markers :=
  m.append (.searchResult description)

def searchResults (m : Markers) : List (Option String) :=
  m.entries.filterMap Marker.searchResult?

def custom? (m : Markers) (key : String) : Option Json :=
  m.entries.findSome? (Marker.custom? key)

def withCustom (m : Markers) (key : String) (value : Json) : Markers :=
  append ⟨m.entries.filter fun e => (e.custom? key).isNone⟩ (.custom key value)

theorem provenance?_withoutProvenance (m : Markers) : m.withoutProvenance.provenance? = none := by
  simp only [provenance?, withoutProvenance, List.findSome?_eq_none_iff, List.mem_filter]
  rintro e ⟨-, h⟩
  simpa using h

theorem provenance?_withProvenance (m : Markers) (p : Provenance) :
    (m.withProvenance p).provenance? = some p := by
  have h := provenance?_withoutProvenance m
  simp only [provenance?] at h
  simp [provenance?, withProvenance, append, h, Marker.provenance?]

theorem withoutProvenance_withoutProvenance (m : Markers) :
    m.withoutProvenance.withoutProvenance = m.withoutProvenance := by
  simp [withoutProvenance]

theorem withoutProvenance_withProvenance (m : Markers) (p : Provenance) :
    (m.withProvenance p).withoutProvenance = m.withoutProvenance := by
  simp [withoutProvenance, withProvenance, append, Marker.provenance?]

theorem withProvenance_withProvenance (m : Markers) (p q : Provenance) :
    (m.withProvenance p).withProvenance q = m.withProvenance q := by
  rw [withProvenance, withoutProvenance_withProvenance]
  rfl

end Markers

end Codemod
