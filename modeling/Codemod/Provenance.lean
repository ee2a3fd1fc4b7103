import Codemod.Provenance.Forest

namespace Codemod

structure Provenance where
  paths : List RecipePath
deriving DecidableEq, Repr

namespace Provenance

def empty : Provenance := ⟨[]⟩

instance : Inhabited Provenance := ⟨empty⟩

def isEmpty (p : Provenance) : Bool :=
  p.paths.isEmpty

def admits (p : Provenance) (path : RecipePath) : Bool :=
  !path.isEmpty && !p.paths.contains path

def record (p : Provenance) (path : RecipePath) : Provenance :=
  if p.admits path then ⟨p.paths ++ [path]⟩ else p

def merge (p q : Provenance) : Provenance :=
  q.paths.foldl record p

def ofPaths (paths : List RecipePath) : Provenance :=
  paths.foldl record empty

def descriptors (p : Provenance) : List Descriptor :=
  (forest p.paths).flatMap Branch.exposed

def recipeNames (p : Provenance) : List String :=
  (p.descriptors.flatMap Descriptor.names).eraseDups

theorem admits_iff {p : Provenance} {path : RecipePath} :
    p.admits path = true ↔ path ≠ [] ∧ path ∉ p.paths := by
  simp [admits]

theorem record_paths (p : Provenance) (path : RecipePath) :
    (p.record path).paths = if p.admits path then p.paths ++ [path] else p.paths := by
  unfold record
  split <;> rfl

theorem record_of_mem {p : Provenance} {path : RecipePath} (h : path ∈ p.paths) :
    p.record path = p := by
  simp [record, admits, h]

theorem record_nil (p : Provenance) : p.record [] = p := rfl

theorem mem_paths_record {p : Provenance} {path q : RecipePath} :
    q ∈ (p.record path).paths ↔ q ∈ p.paths ∨ (q = path ∧ path ≠ []) := by
  by_cases h : p.admits path = true
  · have := (admits_iff.mp h).1
    simp [record_paths, h, this]
  · simp only [record_paths, h]
    rw [admits_iff] at h
    constructor
    · exact fun hq => Or.inl hq
    · rintro (hq | ⟨rfl, hne⟩)
      · exact hq
      · exact Decidable.byContradiction fun hn => h ⟨hne, hn⟩

theorem merge_empty (p : Provenance) : p.merge empty = p := rfl

end Provenance

end Codemod
