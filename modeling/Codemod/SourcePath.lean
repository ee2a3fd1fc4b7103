namespace Codemod

inductive PathError where
  | emptySegment
  | invalidSegment (segment : String)
deriving DecidableEq, Repr

def PathError.message : PathError → String
  | .emptySegment => "path contains empty segment"
  | .invalidSegment segment => "invalid segment: " ++ segment

structure SourcePath where
  segments : List String
deriving DecidableEq, Repr

namespace SourcePath

def root : SourcePath := ⟨[]⟩

def single (segment : String) : SourcePath := ⟨[segment]⟩

def child (p : SourcePath) (segment : String) : SourcePath :=
  ⟨p.segments ++ [segment]⟩

def parent? (p : SourcePath) : Option SourcePath :=
  if p.segments.isEmpty then none else some ⟨p.segments.dropLast⟩

def display (p : SourcePath) : String :=
  "/".intercalate p.segments

def compareSegments : List String → List String → Ordering
  | [], [] => .eq
  | [], _ :: _ => .lt
  | _ :: _, [] => .gt
  | a :: as, b :: bs => (Ord.compare a b).then (compareSegments as bs)

def compare (p q : SourcePath) : Ordering :=
  compareSegments p.segments q.segments

def pieces : List Char → List (List Char)
  | [] => [[]]
  | c :: cs =>
    if c = '/' then [] :: pieces cs
    else match pieces cs with
      | [] => [[c]]
      | p :: ps => (c :: p) :: ps

def fault? (segment : String) : Option PathError :=
  if segment = "" then some .emptySegment
  else if segment = "." ∨ segment = ".." ∨ '\\' ∈ segment.toList ∨ '\x00' ∈ segment.toList then
    some (.invalidSegment segment)
  else none

def parse (s : String) : Except PathError SourcePath :=
  if s = "" then .ok root
  else
    let segments := (pieces s.toList).map String.ofList
    match segments.findSome? fault? with
    | some e => .error e
    | none => .ok ⟨segments⟩

theorem pieces_ne_nil (cs : List Char) : pieces cs ≠ [] := by
  cases cs with
  | nil => simp [pieces]
  | cons c cs =>
    unfold pieces
    split
    · simp
    · split <;> simp

theorem slash_not_mem_pieces {cs p : List Char} (h : p ∈ pieces cs) : '/' ∉ p := by
  induction cs generalizing p with
  | nil =>
    simp only [pieces, List.mem_singleton] at h
    simp [h]
  | cons c cs ih =>
    unfold pieces at h
    split at h
    case isTrue =>
      rcases List.mem_cons.mp h with rfl | h
      · simp
      · exact ih h
    case isFalse hc =>
      cases hp : pieces cs with
      | nil => exact absurd hp (pieces_ne_nil cs)
      | cons q qs =>
        rw [hp] at h
        rcases List.mem_cons.mp h with rfl | h
        · have := ih (p := q) (by simp [hp])
          simp [Ne.symm hc, this]
        · exact ih (by simp [hp, h])

theorem intercalate_pieces (cs : List Char) : ['/'].intercalate (pieces cs) = cs := by
  induction cs with
  | nil => rfl
  | cons c cs ih =>
    unfold pieces
    split
    case isTrue hc =>
      subst hc
      cases hp : pieces cs with
      | nil => exact absurd hp (pieces_ne_nil cs)
      | cons q qs => rw [hp] at ih; simp [List.intercalate, List.intersperse] at ih ⊢; exact ih
    case isFalse =>
      cases hp : pieces cs with
      | nil => exact absurd hp (pieces_ne_nil cs)
      | cons q qs =>
        rw [hp] at ih
        cases qs <;> simp_all [List.intercalate, List.intersperse]

theorem parent?_child (p : SourcePath) (s : String) : (p.child s).parent? = some p := by
  simp [parent?, child]

theorem parent?_eq_none_iff {p : SourcePath} : p.parent? = none ↔ p = root := by
  cases p with
  | mk segments => cases segments <;> simp [parent?, root]

end SourcePath

end Codemod
