import Codemod.Document.Section

namespace Codemod

structure PlainText where
  id : TreeId
  path : SourcePath
  markers : Markers
  text : String
deriving DecidableEq, Repr

instance : Source PlainText where
  id := PlainText.id
  decEq := inferInstance
  path := PlainText.path
  markers := PlainText.markers
  withMarkers t m := { t with markers := m }

structure Outline where
  id : TreeId
  path : SourcePath
  markers : Markers
  root : Section
deriving DecidableEq, Repr

instance : Source Outline where
  id := Outline.id
  decEq := inferInstance
  path := Outline.path
  markers := Outline.markers
  withMarkers o m := { o with markers := m }

instance : Accepts Outline Section where
  kind? o := some o.root
  withKind o root := { o with root := root }

inductive Document where
  | text (text : PlainText)
  | outline (outline : Outline)
deriving DecidableEq, Repr

namespace Document

def id : Document → TreeId
  | text t => t.id
  | outline o => o.id

def path : Document → SourcePath
  | text t => t.path
  | outline o => o.path

def markers : Document → Markers
  | text t => t.markers
  | outline o => o.markers

def withMarkers : Document → Markers → Document
  | text t, m => text { t with markers := m }
  | outline o, m => outline { o with markers := m }

instance : Source Document where
  id := id
  decEq := inferInstance
  path := path
  markers := markers
  withMarkers := withMarkers
  id_withMarkers d _ := by cases d <;> rfl
  path_withMarkers d _ := by cases d <;> rfl
  markers_withMarkers d _ := by cases d <;> rfl
  withMarkers_markers d := by cases d <;> rfl
  withMarkers_withMarkers d _ _ := by cases d <;> rfl

def text? : Document → Option PlainText
  | text t => some t
  | outline _ => none

def root? : Document → Option Section
  | text _ => none
  | outline o => some o.root

def withText : Document → PlainText → Document
  | text _, t => text t
  | outline o, _ => outline o

def withRoot : Document → Section → Document
  | text t, _ => text t
  | outline o, root => outline { o with root := root }

instance : Accepts Document PlainText where
  kind? := text?
  withKind := withText

instance : Accepts Document Section where
  kind? := root?
  withKind := withRoot

end Document

end Codemod
