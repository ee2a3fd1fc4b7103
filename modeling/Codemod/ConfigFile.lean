import Codemod.Config
import Codemod.Toml.Reader

namespace Codemod.Config

def natSetting (fields : Toml.Fields) (key : String) (default : Nat) : Option Nat :=
  match Toml.Fields.get? fields key with
  | none => some default
  | some (.integer n) => if 0 ≤ n then some n.toNat else none
  | some _ => none

def boolSetting (fields : Toml.Fields) (key : String) (default : Bool) : Option Bool :=
  match Toml.Fields.get? fields key with
  | none => some default
  | some (.boolean b) => some b
  | some _ => none

def ofFields? (fields : Toml.Fields) : Option Config := do
  let maxCycles ← natSetting fields "max_cycles" ({} : Config).maxCycles
  let minCycles ← natSetting fields "min_cycles" ({} : Config).minCycles
  let parallel ← boolSetting fields "parallel" ({} : Config).parallel
  let threshold ← natSetting fields "parallel_threshold" ({} : Config).parallelThreshold
  pure ⟨maxCycles, minCycles, parallel, threshold⟩

def ofToml (text : String) : Except RecipeError Config :=
  match (Toml.parse? text).bind ofFields? with
  | none => .error (.config .unreadable)
  | some config => config.validate.map fun _ => config

end Codemod.Config
