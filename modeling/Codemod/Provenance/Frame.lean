namespace Codemod

/-- One recipe at one place of a composition; `position` counts among its siblings. -/
structure Frame where
  position : Nat
  name : String
  displayName : String
deriving DecidableEq, Repr

def Frame.slot (f : Frame) : Nat × String :=
  (f.position, f.name)

abbrev RecipePath := List Frame

structure Descriptor where
  name : String
  displayName : String
  children : List Descriptor
deriving Repr

namespace Descriptor

def leaf (name displayName : String) : Descriptor := ⟨name, displayName, []⟩

def child? (d : Descriptor) (name : String) : Option Descriptor :=
  d.children.find? (·.name == name)

mutual
def names : Descriptor → List String
  | ⟨name, _, children⟩ => name :: namesOf children

def namesOf : List Descriptor → List String
  | [] => []
  | d :: ds => names d ++ namesOf ds
end

theorem names_ne_nil (d : Descriptor) : d.names ≠ [] := by
  cases d
  simp [names]

mutual
def decEq : (a b : Descriptor) → Decidable (a = b)
  | ⟨n, d, cs⟩, ⟨n', d', cs'⟩ =>
    if hn : n = n' then
      if hd : d = d' then
        match decEqList cs cs' with
        | .isTrue h => .isTrue (by rw [hn, hd, h])
        | .isFalse h => .isFalse (by intro e; injection e; contradiction)
      else .isFalse (by intro e; injection e; contradiction)
    else .isFalse (by intro e; injection e; contradiction)

def decEqList : (as bs : List Descriptor) → Decidable (as = bs)
  | [], [] => .isTrue rfl
  | [], _ :: _ => .isFalse (by simp)
  | _ :: _, [] => .isFalse (by simp)
  | a :: as, b :: bs =>
    match decEq a b with
    | .isTrue h =>
      match decEqList as bs with
      | .isTrue hs => .isTrue (by rw [h, hs])
      | .isFalse hs => .isFalse (by intro e; injection e; contradiction)
    | .isFalse h => .isFalse (by intro e; injection e; contradiction)
end

instance : DecidableEq Descriptor := decEq

end Descriptor

end Codemod
