import Codemod.Provenance.Frame

namespace Codemod

/-- A composition point under construction; `direct` when a whole path ends here. -/
structure Branch where
  frame : Frame
  direct : Bool
  children : List Branch

namespace Branch

def bud (f : Frame) : Branch := ⟨f, false, []⟩

/-- Lets the branch in the slot of `f` grow. A level stays ordered by position, and branches of one
position by their arrival. -/
def place (f : Frame) (grow : Branch → Branch) : List Branch → List Branch
  | [] => [grow (bud f)]
  | b :: bs =>
    if b.frame.slot = f.slot then grow b :: bs
    else if f.position < b.frame.position then grow (bud f) :: b :: bs
    else b :: place f grow bs

def graft : RecipePath → List Branch → List Branch
  | [], level => level
  | f :: rest, level =>
    place f (fun b => ⟨b.frame, b.direct || rest.isEmpty, graft rest b.children⟩) level

mutual
def descriptor : Branch → Descriptor
  | ⟨frame, _, children⟩ => ⟨frame.name, frame.displayName, descriptors children⟩

def descriptors : List Branch → List Descriptor
  | [] => []
  | b :: bs => descriptor b :: descriptors bs
end

theorem descriptors_eq_map (bs : List Branch) : descriptors bs = bs.map descriptor := by
  induction bs with
  | nil => rfl
  | cons b bs ih => simp [descriptors, ih]

/-- A root stands for itself only if it acted; otherwise its children take its place. -/
def exposed (b : Branch) : List Descriptor :=
  if b.direct then [b.descriptor] else descriptors b.children

theorem place_ne_nil (f : Frame) (grow : Branch → Branch) (level : List Branch) :
    place f grow level ≠ [] := by
  cases level with
  | nil => simp [place]
  | cons b bs =>
    unfold place
    split
    · simp
    · split <;> simp

end Branch

def forest (paths : List RecipePath) : List Branch :=
  paths.foldl (fun level path => Branch.graft path level) []

theorem forest_append (ps qs : List RecipePath) :
    forest (ps ++ qs) = qs.foldl (fun level path => Branch.graft path level) (forest ps) := by
  simp [forest]

end Codemod
