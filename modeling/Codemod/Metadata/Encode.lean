import Codemod.Config
import Codemod.Json
import Codemod.Marker
import Codemod.SourcePath
import Codemod.TreeId

namespace Codemod

def TreeId.toJson (id : TreeId) : Json :=
  .string id.display

def SourcePath.toJson (p : SourcePath) : Json :=
  .array (p.segments.map Json.string)

def Frame.toJson (f : Frame) : Json :=
  .object [("position", .int f.position), ("name", .string f.name),
    ("display_name", .string f.displayName)]

mutual
def Descriptor.toJson : Descriptor → Json
  | ⟨name, displayName, children⟩ =>
    .object [("name", .string name), ("display_name", .string displayName),
      ("children", .array (Descriptor.toJsonItems children))]

def Descriptor.toJsonItems : List Descriptor → List Json
  | [] => []
  | d :: ds => Descriptor.toJson d :: Descriptor.toJsonItems ds
end

def RecipePath.toJson (path : RecipePath) : Json :=
  .array (path.map Frame.toJson)

def Provenance.toJson (p : Provenance) : Json :=
  .object [("paths", .array (p.paths.map RecipePath.toJson))]

def Json.optionalString : Option String → Json
  | some s => .string s
  | none => .null

def Marker.toJson : Marker → Json
  | .searchResult description =>
    .object [("SearchResult", .object [("description", Json.optionalString description)])]
  | .recipesThatMadeChanges provenance =>
    .object [("RecipesThatMadeChanges", provenance.toJson)]
  | .custom key value => .object [("Custom", .object [("key", .string key), ("value", value)])]

def Markers.toJson (m : Markers) : Json :=
  .object [("entries", .array (m.entries.map Marker.toJson))]

def Config.toJson (c : Config) : Json :=
  .object [("max_cycles", .int c.maxCycles), ("min_cycles", .int c.minCycles),
    ("parallel", .bool c.parallel), ("parallel_threshold", .int c.parallelThreshold)]

end Codemod
