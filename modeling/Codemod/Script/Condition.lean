import Codemod.Context
import Codemod.Document
import Codemod.Text.Search

namespace Codemod

inductive Shape where
  | text
  | section
  | outline
deriving DecidableEq, Repr

/-- Nodes that scripts can look at and change. A section has neither place nor metadata of its own,
and a flat text no sections; what concerns those leaves the node as it is. -/
class Editable (T : Type) where
  label : T → String
  relabel : T → String → T
  shape : T → Shape
  withId : T → TreeId → T
  path? : T → Option SourcePath := fun _ => none
  withPath : T → SourcePath → T := fun t _ => t
  markers? : T → Option Markers := fun _ => none
  mapMarkers : T → (Markers → Markers) → T := fun t _ => t
  mapSections : T → (List Section → List Section) → T := fun t _ => t

instance : Editable PlainText where
  label t := t.text
  relabel t s := { t with text := s }
  shape _ := .text
  withId t id := { t with id := id }
  path? t := some t.path
  withPath t p := { t with path := p }
  markers? t := some t.markers
  mapMarkers t f := { t with markers := f t.markers }

instance : Editable Section where
  label s := s.title
  relabel s title := { s with title := title }
  shape _ := .section
  withId s id := { s with id := id }
  mapSections s f := { s with children := f s.children }

instance : Editable Outline where
  label o := o.root.title
  relabel o title := { o with root := { o.root with title := title } }
  shape _ := .outline
  withId o id := { o with id := id }
  path? o := some o.path
  withPath o p := { o with path := p }
  markers? o := some o.markers
  mapMarkers o f := { o with markers := f o.markers }
  mapSections o f := { o with root := { o.root with children := f o.root.children } }

instance : Editable Document where
  label
    | .text t => Editable.label t
    | .outline o => Editable.label o
  relabel
    | .text t, s => .text (Editable.relabel t s)
    | .outline o, s => .outline (Editable.relabel o s)
  shape
    | .text t => Editable.shape t
    | .outline o => Editable.shape o
  withId
    | .text t, id => .text (Editable.withId t id)
    | .outline o, id => .outline (Editable.withId o id)
  path? d := some d.path
  withPath
    | .text t, p => .text (Editable.withPath t p)
    | .outline o, p => .outline (Editable.withPath o p)
  markers? d := some d.markers
  mapMarkers d f := d.withMarkers (f d.markers)
  mapSections
    | .text t, _ => .text t
    | .outline o, f => .outline (Editable.mapSections o f)

inductive Condition where
  | always
  | never
  | contains (s : String)
  | equals (s : String)
  | startsWith (s : String)
  | endsWith (s : String)
  | shorterThan (bytes : Nat)
  | at (path : String)
  | is (shape : Shape)
  | hasProvenance
  | hasSearchResult
  | hasCustom (key : String)
  | hasMessage (key : String)
  | messageBelow (key : String) (bound : Int64)
  | newMessages
  | cancelled
  | not (c : Condition)
  | all (cs : List Condition)
  | any (cs : List Condition)
deriving Repr

namespace Condition
variable {ω T : Type} [Editable T]

def markersHold (t : T) (p : Markers → Bool) : Bool :=
  match Editable.markers? t with
  | some m => p m
  | none => false

mutual
def holds (context : Context ω) (t : T) : Condition → Bool
  | .always => true
  | .never => false
  | .contains s => Text.contains (Editable.label t) s
  | .equals s => Editable.label t == s
  | .startsWith s => Text.startsWith (Editable.label t) s
  | .endsWith s => Text.endsWith (Editable.label t) s
  | .shorterThan bytes => (Editable.label t).utf8ByteSize < bytes
  | .at path => (Editable.path? t).any (·.display == path)
  | .is shape => Editable.shape t = shape
  | .hasProvenance => markersHold t fun m => m.provenance?.isSome
  | .hasSearchResult => markersHold t fun m => !m.searchResults.isEmpty
  | .hasCustom key => markersHold t fun m => (m.custom? key).isSome
  | .hasMessage key => (context.get? .int key).isSome
  | .messageBelow key bound => @Option.getD Int64 (context.get? .int key) 0 < bound
  | .newMessages => context.hasNewMessages
  | .cancelled => context.cancelled
  | .not c => !holds context t c
  | .all cs => holdsAll context t cs
  | .any cs => holdsAny context t cs

def holdsAll (context : Context ω) (t : T) : List Condition → Bool
  | [] => true
  | c :: cs => holds context t c && holdsAll context t cs

def holdsAny (context : Context ω) (t : T) : List Condition → Bool
  | [] => false
  | c :: cs => holds context t c || holdsAny context t cs
end

end Condition

end Codemod
