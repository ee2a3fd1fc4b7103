import Codemod.Text.Blank
import Codemod.Text.Quoted
import Codemod.Visitor

namespace Codemod

/-- What one recipe of a composition is and does by itself. The gate decides on the recipe and its
children together, the source test on each source; a batch transform goes before a visitor. -/
structure Stage (ω S : Type) where
  name : String
  displayName : String := name
  description : Option String := none
  tags : List String := []
  gate : Option (VisitorFactory ω S) := none
  sourceTest : Option (VisitorFactory ω S) := none
  visitor : Option (VisitorFactory ω S) := none
  batchTransform : Option (BatchTransform ω S) := none
  repeats : Bool := false

namespace Stage
variable {ω S : Type}

def hasTransform (s : Stage ω S) : Bool :=
  s.visitor.isSome || s.batchTransform.isSome

def frame (s : Stage ω S) (position : Nat) : Frame :=
  ⟨position, s.name, s.displayName⟩

end Stage

structure Recipe (ω S : Type) where
  stage : Stage ω S
  children : List (Recipe ω S) := []

namespace Recipe
variable {ω S : Type}

def composite (name : String) (children : List (Recipe ω S)) : Recipe ω S :=
  ⟨{ name := name }, children⟩

def addChild (r : Recipe ω S) (child : Recipe ω S) : Recipe ω S :=
  { r with children := r.children ++ [child] }

mutual
def descriptor : Recipe ω S → Descriptor
  | ⟨stage, children⟩ => ⟨stage.name, stage.displayName, descriptors children⟩

def descriptors : List (Recipe ω S) → List Descriptor
  | [] => []
  | r :: rs => descriptor r :: descriptors rs
end

mutual
def stages : Recipe ω S → List (Stage ω S)
  | ⟨stage, children⟩ => stage :: stagesOf children

def stagesOf : List (Recipe ω S) → List (Stage ω S)
  | [] => []
  | r :: rs => stages r ++ stagesOf rs
end

def causesAnotherCycle (r : Recipe ω S) : Bool :=
  r.stages.any Stage.repeats

def hasBlankName (r : Recipe ω S) : Bool :=
  r.stages.any fun s => Text.isBlank s.name

def validate (r : Recipe ω S) : Except RecipeError Unit :=
  if r.hasBlankName then .error (.invalidRecipe .blankName) else .ok ()

def build (stage : Stage ω S) (children : List (Recipe ω S)) : Except RecipeError (Recipe ω S) :=
  (Recipe.mk stage children).validate.map fun _ => ⟨stage, children⟩

theorem stagesOf_eq_flatMap (rs : List (Recipe ω S)) : stagesOf rs = rs.flatMap stages := by
  induction rs with
  | nil => rfl
  | cons r rs ih => simp [stagesOf, ih]

mutual
theorem names_descriptor (r : Recipe ω S) : r.descriptor.names = r.stages.map Stage.name := by
  cases r with
  | mk stage children => simp [descriptor, Descriptor.names, stages, namesOf_descriptors children]

theorem namesOf_descriptors (rs : List (Recipe ω S)) :
    Descriptor.namesOf (descriptors rs) = (stagesOf rs).map Stage.name := by
  cases rs with
  | nil => rfl
  | cons r rs =>
    simp [descriptors, Descriptor.namesOf, stagesOf, names_descriptor r, namesOf_descriptors rs]
end

theorem validate_eq_ok_iff {r : Recipe ω S} :
    r.validate = .ok () ↔ ∀ s ∈ r.stages, Text.isBlank s.name = false := by
  simp [validate, hasBlankName]

theorem build_eq (stage : Stage ω S) (children : List (Recipe ω S)) :
    build stage children =
      if (Recipe.mk stage children).hasBlankName then .error (.invalidRecipe .blankName)
      else .ok ⟨stage, children⟩ := by
  unfold build validate
  split <;> rfl

mutual
def summary : Recipe ω S → String
  | ⟨stage, children⟩ =>
    s!"Recipe \x7b name: {Text.quote stage.name}, display_name: {Text.quote stage.displayName}, " ++
      s!"applicable_test: {stage.gate.isSome}, visitor: {stage.visitor.isSome}, " ++
      s!"batch_transform: {stage.batchTransform.isSome}, " ++
      "children: [" ++ ", ".intercalate (summaries children) ++ "], .. \x7d"

def summaries : List (Recipe ω S) → List String
  | [] => []
  | r :: rs => summary r :: summaries rs
end

end Recipe

end Codemod
