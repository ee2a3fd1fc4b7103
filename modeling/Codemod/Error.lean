import Codemod.SourcePath
import Codemod.TreeId

namespace Codemod

inductive ContractBreach where
  | duplicateId (id : TreeId) (path : SourcePath)
  | replacedId (id : TreeId) (path : SourcePath) (replacement : TreeId)
  | other (detail : String)
deriving DecidableEq, Repr

def ContractBreach.message : ContractBreach → String
  | duplicateId id path => s!"duplicate source id {id.display} at '{path.display}'"
  | replacedId id path replacement =>
    s!"visitor replaced source {id.display} at '{path.display}' with {replacement.display}"
  | other detail => detail

inductive RecipeFlaw where
  | blankName
  | other (detail : String)
deriving DecidableEq, Repr

def RecipeFlaw.message : RecipeFlaw → String
  | blankName => "recipe name must not be blank"
  | other detail => detail

inductive ConfigFault where
  | noCycles
  | minExceedsMax (min max : Nat)
  | unreadable
  | other (detail : String)
deriving DecidableEq, Repr

def ConfigFault.message : ConfigFault → String
  | noCycles => "max_cycles must be at least 1"
  | minExceedsMax min max => s!"min_cycles ({min}) exceeds max_cycles ({max})"
  | unreadable => "TOML parse error"
  | other detail => detail

mutual
inductive VisitError where
  | failed (message : String)
  | invalidInput (message : String)
  | other (cause : Cause)
deriving DecidableEq, Repr

/-- The error of a collaborator; `chain` are the texts of the errors beneath a foreign one. -/
inductive Cause where
  | foreign (message : String) (chain : List String)
  | path (error : PathError)
  | visit (error : VisitError)
  | recipe (error : RecipeError)
deriving DecidableEq, Repr

inductive RecipeError where
  | visitFailed (recipe : String) (path : SourcePath) (cause : VisitError)
  | transformFailed (recipe : String) (cause : VisitError)
  | applicabilityFailed (recipe : String) (path : SourcePath) (cause : VisitError)
  | contractViolation (recipe : String) (breach : ContractBreach)
  | invalidRecipe (flaw : RecipeFlaw)
  | aborted (reason : String)
  | config (fault : ConfigFault)
deriving DecidableEq, Repr
end

instance : Inhabited RecipeError := ⟨.aborted ""⟩

mutual
def VisitError.message : VisitError → String
  | .failed message => message
  | .invalidInput message => s!"invalid input: {message}"
  | .other cause => cause.message

def Cause.message : Cause → String
  | .foreign message _ => message
  | .path error => error.message
  | .visit error => error.message
  | .recipe error => error.message

def RecipeError.message : RecipeError → String
  | .visitFailed recipe path cause =>
    s!"recipe '{recipe}' failed on '{path.display}': {cause.message}"
  | .transformFailed recipe cause =>
    s!"batch transform of recipe '{recipe}' failed: {cause.message}"
  | .applicabilityFailed recipe path cause =>
    s!"applicability test of recipe '{recipe}' failed on '{path.display}': {cause.message}"
  | .contractViolation recipe breach =>
    s!"recipe '{recipe}' broke the source contract: {breach.message}"
  | .invalidRecipe flaw => s!"invalid recipe: {flaw.message}"
  | .aborted reason => s!"run aborted: {reason}"
  | .config fault => s!"configuration error: {fault.message}"
end

mutual
/-- The texts of the errors beneath this one, nearest first. A collaborator's error speaks for its
wrapper, so the wrapper adds no text of its own. -/
def VisitError.chain : VisitError → List String
  | .failed _ => []
  | .invalidInput _ => []
  | .other cause => cause.chain

def Cause.chain : Cause → List String
  | .foreign _ chain => chain
  | .path _ => []
  | .visit error => error.chain
  | .recipe error => error.chain

def RecipeError.chain : RecipeError → List String
  | .visitFailed _ _ cause => cause.message :: cause.chain
  | .transformFailed _ cause => cause.message :: cause.chain
  | .applicabilityFailed _ _ cause => cause.message :: cause.chain
  | .contractViolation _ _ => []
  | .invalidRecipe _ => []
  | .aborted _ => []
  | .config _ => []
end

namespace RecipeError

/-- Fatal errors belong to no single source; the others go through the error hook first. -/
def isFatal : RecipeError → Bool
  | contractViolation _ _ | invalidRecipe _ | aborted _ | config _ => true
  | visitFailed _ _ _ | transformFailed _ _ | applicabilityFailed _ _ _ => false

def recipe? : RecipeError → Option String
  | visitFailed recipe _ _ | transformFailed recipe _ | applicabilityFailed recipe _ _
  | contractViolation recipe _ => some recipe
  | invalidRecipe _ | aborted _ | config _ => none

end RecipeError

end Codemod
