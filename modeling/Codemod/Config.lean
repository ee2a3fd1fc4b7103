import Codemod.Error

namespace Codemod

structure Config where
  maxCycles : Nat := 3
  minCycles : Nat := 1
  parallel : Bool := true
  parallelThreshold : Nat := 64
deriving DecidableEq, Repr

namespace Config

instance : Inhabited Config := ⟨{}⟩

def fault? (c : Config) : Option ConfigFault :=
  if c.maxCycles = 0 then some .noCycles
  else if c.maxCycles < c.minCycles then some (.minExceedsMax c.minCycles c.maxCycles)
  else none

def validate (c : Config) : Except RecipeError Unit :=
  match c.fault? with
  | some fault => .error (.config fault)
  | none => .ok ()

def visitsInParallel (c : Config) (size : Nat) : Bool :=
  c.parallel && c.parallelThreshold ≤ size

theorem fault?_eq_none_iff {c : Config} :
    c.fault? = none ↔ 0 < c.maxCycles ∧ c.minCycles ≤ c.maxCycles := by
  unfold fault?
  split
  · simp_all
  · split
    · simp
      omega
    · simp
      omega

theorem fault?_default : ({} : Config).fault? = none := rfl

end Config

end Codemod
