import Codemod.Config
import Codemod.Json
import Codemod.Marker
import Codemod.SourcePath
import Codemod.TreeId

namespace Codemod

namespace Json

def string? : Json → Option String
  | .string s => some s
  | _ => none

def bool? : Json → Option Bool
  | .bool b => some b
  | _ => none

def nat? : Json → Option Nat
  | .int n => if 0 ≤ n then some n.toNat else none
  | _ => none

def items? : Json → Option (List Json)
  | .array items => some items
  | _ => none

def list? {α : Type} (decode : Json → Option α) (j : Json) : Option (List α) :=
  j.items?.bind (·.mapM decode)

def record? (names : List String) : Json → Option (List Json)
  | .object fields => names.mapM (field? fields)
  | .array items => if items.length = names.length then some items else none
  | .scalar _ => none

end Json

def TreeId.ofJson? (j : Json) : Option TreeId :=
  j.string?.bind TreeId.parse?

def SourcePath.ofJson? (j : Json) : Option SourcePath :=
  (j.list? Json.string?).map SourcePath.mk

def Frame.ofJson? (j : Json) : Option Frame :=
  match j.record? ["position", "name", "display_name"] with
  | some [position, name, displayName] => do
    pure ⟨← position.nat?, ← name.string?, ← displayName.string?⟩
  | _ => none

def Descriptor.ofNames? (name displayName : Option Json) (children : Option (List Descriptor)) :
    Option Descriptor := do
  pure ⟨← (← name).string?, ← (← displayName).string?, ← children⟩

mutual
def Descriptor.ofJson? : Json → Option Descriptor
  | .object fields =>
    Descriptor.ofNames? (Json.field? fields "name") (Json.field? fields "display_name")
      (Descriptor.ofChildren? fields)
  | .array [name, displayName, .array children] =>
    Descriptor.ofNames? (some name) (some displayName) (Descriptor.ofItems? children)
  | _ => none

def Descriptor.ofChildren? : List (String × Json) → Option (List Descriptor)
  | [] => none
  | (key, .array items) :: fields =>
    if key = "children" then Descriptor.ofItems? items else Descriptor.ofChildren? fields
  | (key, _) :: fields => if key = "children" then none else Descriptor.ofChildren? fields

def Descriptor.ofItems? : List Json → Option (List Descriptor)
  | [] => some []
  | j :: js => do
    let d ← Descriptor.ofJson? j
    let ds ← Descriptor.ofItems? js
    pure (d :: ds)
end

def RecipePath.ofJson? (j : Json) : Option RecipePath :=
  j.list? Frame.ofJson?

def Provenance.ofJson? (j : Json) : Option Provenance :=
  match j.record? ["paths"] with
  | some [paths] => (paths.list? RecipePath.ofJson?).map Provenance.mk
  | _ => none

namespace Marker

def searchResultOf? (fields : List (String × Json)) : Option Marker :=
  match Json.field? fields "description" with
  | none => some (.searchResult none)
  | some .null => some (.searchResult none)
  | some j => j.string?.map fun s => .searchResult (some s)

def customOf? (fields : List (String × Json)) : Option Marker := do
  let key ← (← Json.field? fields "key").string?
  let value ← Json.field? fields "value"
  pure (.custom key value)

def ofJson? : Json → Option Marker
  | .object [(kind, content)] =>
    if kind = "RecipesThatMadeChanges" then
      (Provenance.ofJson? content).map .recipesThatMadeChanges
    else match content with
      | .object fields =>
        if kind = "SearchResult" then searchResultOf? fields
        else if kind = "Custom" then customOf? fields
        else none
      | _ => none
  | _ => none

end Marker

def Markers.ofJson? (j : Json) : Option Markers :=
  match j.record? ["entries"] with
  | some [entries] => (entries.list? Marker.ofJson?).map Markers.mk
  | _ => none

namespace Config

def ofSettings? (maxCycles minCycles parallel parallelThreshold : Option Json) :
    Option Config := do
  let setting {α : Type} (j : Option Json) (decode : Json → Option α) (default : α) : Option α :=
    match j with
    | some j => decode j
    | none => some default
  pure ⟨← setting maxCycles Json.nat? ({} : Config).maxCycles,
    ← setting minCycles Json.nat? ({} : Config).minCycles,
    ← setting parallel Json.bool? ({} : Config).parallel,
    ← setting parallelThreshold Json.nat? ({} : Config).parallelThreshold⟩

def ofJson? : Json → Option Config
  | .object fields =>
    ofSettings? (Json.field? fields "max_cycles") (Json.field? fields "min_cycles")
      (Json.field? fields "parallel") (Json.field? fields "parallel_threshold")
  | .array items =>
    if items.length ≤ 4 then ofSettings? items[0]? items[1]? items[2]? items[3]? else none
  | .scalar _ => none

end Config

end Codemod
