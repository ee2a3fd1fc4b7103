import Codemod.Recipe

namespace Codemod

/-- The order in which the visits of one parallel step happen: any arrangement of the positions in
the batch, of its own for each cycle and recipe path. -/
structure VisitOrder where
  arrange : Nat → RecipePath → List Nat → List Nat := fun _ _ positions => positions
  perm : ∀ cycle path positions, (arrange cycle path positions).Perm positions := by simp

def VisitOrder.given : VisitOrder := {}

def firstRepeated {S : Type} [Source S] (seen : List TreeId) : List S → Option S
  | [] => none
  | s :: ss => if Tree.id s ∈ seen then some s else firstRepeated (Tree.id s :: seen) ss

def checkIds {S : Type} [Source S] (recipe : String) (batch : List S) : Except RecipeError Unit :=
  match firstRepeated [] batch with
  | some s => .error (.contractViolation recipe (.duplicateId (Tree.id s) (Source.path s)))
  | none => .ok ()

theorem firstRepeated_eq_none_iff {S : Type} [Source S] {seen : List TreeId} {batch : List S} :
    firstRepeated seen batch = none ↔
      (Source.ids batch).Nodup ∧ ∀ id ∈ Source.ids batch, id ∉ seen := by
  induction batch generalizing seen with
  | nil => simp [firstRepeated, Source.ids]
  | cons s ss ih =>
    have hc : Source.ids (s :: ss) = Tree.id s :: Source.ids ss := rfl
    simp only [firstRepeated, hc, List.nodup_cons, List.mem_cons]
    split
    case isTrue h => simp [h]
    case isFalse h =>
      rw [ih]
      constructor
      · rintro ⟨hn, hs⟩
        refine ⟨⟨fun hm => hs _ hm (by simp), hn⟩, ?_⟩
        rintro id (rfl | hm)
        · exact h
        · exact fun hi => hs id hm (by simp [hi])
      · rintro ⟨⟨hm, hn⟩, hs⟩
        refine ⟨hn, fun id hi => ?_⟩
        simp only [List.mem_cons, not_or]
        exact ⟨fun e => hm (e ▸ hi), hs id (Or.inr hi)⟩

theorem checkIds_eq_ok_iff {S : Type} [Source S] {recipe : String} {batch : List S} :
    checkIds recipe batch = .ok () ↔ (Source.ids batch).Nodup := by
  have h := @firstRepeated_eq_none_iff S _ [] batch
  unfold checkIds
  split <;> simp_all

namespace Stage
variable {ω S : Type} [Source S]

/-- A test matches a source when visiting it changes or deletes it. -/
def matchesSource (stage : Stage ω S) (test : VisitorFactory ω S) (source : S) :
    Attempt ω Bool := do
  let visitor ← test
  if ← visitor.accepts source then
    match ← (visitor.visit source : Action ω (VisitResult S)) with
    | .ok (some after) => pure (after ≠ source)
    | .ok none => pure true
    | .error cause =>
      Attempt.raise (.applicabilityFailed stage.name (Source.path source) cause)
      pure false
  else pure false

def matchesAny (stage : Stage ω S) (test : VisitorFactory ω S) : List S → Attempt ω Bool
  | [] => pure false
  | source :: sources => do
    if ← stage.matchesSource test source then pure true else stage.matchesAny test sources

def admits (stage : Stage ω S) (batch : List S) : Attempt ω Bool :=
  match stage.gate with
  | some test => stage.matchesAny test batch
  | none => pure true

def admitsSource (stage : Stage ω S) (source : S) : Attempt ω Bool :=
  match stage.sourceTest with
  | some test => stage.matchesSource test source
  | none => pure true

/-- A source whose visit fails stays as it is, unless the error hook ends the run. -/
def visitSource (stage : Stage ω S) (factory : VisitorFactory ω S) (source : S) :
    Attempt ω (Option S) := do
  if ← stage.admitsSource source then
    let visitor ← factory
    match ← (visitor.visit source : Action ω (VisitResult S)) with
    | .ok none => pure none
    | .ok (some after) =>
      if Tree.id after = Tree.id source then pure (some after)
      else throw (.contractViolation stage.name
        (.replacedId (Tree.id source) (Source.path source) (Tree.id after)))
    | .error cause =>
      Attempt.raise (.visitFailed stage.name (Source.path source) cause)
      pure (some source)
  else pure (some source)

def visitInTurn (stage : Stage ω S) (factory : VisitorFactory ω S) : List S → Attempt ω (List S)
  | [] => pure []
  | source :: sources => do
    let kept ← stage.visitSource factory source
    let rest ← stage.visitInTurn factory sources
    pure (kept.toList ++ rest)

def visitPositions (stage : Stage ω S) (factory : VisitorFactory ω S) (batch : List S) :
    List Nat → Attempt ω (List (Nat × Option S))
  | [] => pure []
  | i :: positions => do
    match batch[i]? with
    | none => stage.visitPositions factory batch positions
    | some source =>
      let kept ← stage.visitSource factory source
      let rest ← stage.visitPositions factory batch positions
      pure ((i, kept) :: rest)

def gather (size : Nat) (outcomes : List (Nat × Option S)) : List S :=
  (List.range size).filterMap fun i => (outcomes.find? (·.1 = i)).bind (·.2)

def visitArranged (stage : Stage ω S) (factory : VisitorFactory ω S)
    (arrange : List Nat → List Nat) (batch : List S) : Attempt ω (List S) := do
  let outcomes ← stage.visitPositions factory batch (arrange (List.range batch.length))
  pure (gather batch.length outcomes)

def transformBatch (stage : Stage ω S) (transform : BatchTransform ω S) (batch : List S) :
    Attempt ω (List S) := do
  match ← ((transform batch).run : Action ω (Except VisitError (List S))) with
  | .ok after =>
    Attempt.ofExcept (checkIds stage.name after)
    pure after
  | .error cause =>
    Attempt.raise (.transformFailed stage.name cause)
    pure batch

end Stage

end Codemod
