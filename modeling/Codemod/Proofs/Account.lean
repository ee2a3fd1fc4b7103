import Codemod.Proofs.Calls
import Codemod.Proofs.Visiting
import Mathlib.Tactic.Choose

namespace Codemod

/-- A way of saying what attempts come to, be it a value or an error, and what they report on their
way. -/
abbrev Attempt.Account (ω : Type) : Type 1 :=
  ∀ {α : Type}, Attempt ω α → Except RecipeError α → List RecipeError → Prop

section
variable {ω : Type}

structure Attempt.Lawful (Q : Attempt.Account ω) : Prop where
  returns {α : Type} (x : α) : Q (pure x) (.ok x) []
  throws {α : Type} (error : RecipeError) : Q (throw error : Attempt ω α) (.error error) []
  raises (error : RecipeError) : Q (raise error) (.ok ()) [error]
  chains {α β : Type} {a : Attempt ω α} {f : α → Attempt ω β} {x : α} {r : Except RecipeError β}
    {es es' : List RecipeError} (ha : Q a (.ok x) es) (hf : Q (f x) r es') :
    Q (a >>= f) r (es ++ es')
  fails {α β : Type} {a : Attempt ω α} {f : α → Attempt ω β} {error : RecipeError}
    {es : List RecipeError} (ha : Q a (.error error) es) : Q (a >>= f) (.error error) es

variable {Q : Attempt.Account ω} {α β : Type} {a : Attempt ω α} {f : α → Attempt ω β} {x : α}
variable {name : String}

theorem Attempt.Lawful.sequential (hQ : Attempt.Lawful Q) :
    Attempt.Sequential fun a x es => Q a (.ok x) es where
  returns := hQ.returns
  chains := hQ.chains

def Attempt.Returns (Q : Attempt.Account ω) (a : Attempt ω α) (x : α) : Prop :=
  ∃ es, Q a (.ok x) es

def Attempt.Breaks (Q : Attempt.Account ω) (name : String) (a : Attempt ω α) : Prop :=
  ∃ breach es, Q a (.error (.contractViolation name breach)) es

theorem Attempt.Breaks.bind (hQ : Attempt.Lawful Q) (h : Attempt.Breaks Q name a) :
    Attempt.Breaks Q name (a >>= f) := by
  obtain ⟨breach, es, ha⟩ := h
  exact ⟨breach, es, hQ.fails ha⟩

theorem Attempt.Returns.breaks_bind (hQ : Attempt.Lawful Q) (h : Attempt.Returns Q a x)
    (hf : Attempt.Breaks Q name (f x)) : Attempt.Breaks Q name (a >>= f) := by
  obtain ⟨es, ha⟩ := h
  obtain ⟨breach, es', hf⟩ := hf
  exact ⟨breach, es ++ es', hQ.chains ha hf⟩

def Action.Answers (Q : Attempt.Account ω) {α : Type} (a : Action ω α) : Prop :=
  ∃ x, Q (liftM a : Attempt ω α) (.ok x) []

end

section
variable {ω S : Type}

def VisitorFactory.Answers (Q : Attempt.Account ω) (factory : VisitorFactory ω S) : Prop :=
  ∃ v : SourceVisitor ω S, Q (liftM factory : Attempt ω (SourceVisitor ω S)) (.ok v) [] ∧
    v.Each (Action.Answers Q)

structure Stage.Answers (Q : Attempt.Account ω) (stage : Stage ω S) : Prop where
  gate {test : VisitorFactory ω S} (h : stage.gate = some test) : test.Answers Q
  sourceTest {test : VisitorFactory ω S} (h : stage.sourceTest = some test) : test.Answers Q
  visitor {factory : VisitorFactory ω S} (h : stage.visitor = some factory) : factory.Answers Q
  batchTransform {f : BatchTransform ω S} (h : stage.batchTransform = some f) (batch : List S) :
    Action.Answers Q (f batch).run

variable [Source S] {Q : Attempt.Account ω}

namespace Stage
variable {stage : Stage ω S} {test factory : VisitorFactory ω S} {batch : List S}

theorem returns_matchesSource (hQ : Attempt.Lawful Q) (ht : test.Answers Q) (source : S) :
    ∃ found, Attempt.Returns Q (stage.matchesSource test source) found := by
  obtain ⟨v, hmake, hv⟩ := ht
  obtain ⟨accepted, haccept⟩ := hv.accepts source
  obtain ⟨result, hvisit⟩ := hv.visit source
  cases accepted with
  | false => exact ⟨false, _, hQ.chains hmake (hQ.chains haccept (hQ.returns false))⟩
  | true =>
    match result with
    | .ok none =>
      exact ⟨true, _, hQ.chains hmake (hQ.chains haccept (hQ.chains hvisit (hQ.returns true)))⟩
    | .ok (some after) =>
      exact ⟨_, _, hQ.chains hmake (hQ.chains haccept (hQ.chains hvisit (hQ.returns _)))⟩
    | .error cause =>
      exact ⟨false, _, hQ.chains hmake (hQ.chains haccept (hQ.chains hvisit
        (hQ.chains (hQ.raises _) (hQ.returns false))))⟩

theorem returns_admits (hQ : Attempt.Lawful Q) (hs : stage.Answers Q) (batch : List S) :
    ∃ admitted, Attempt.Returns Q (stage.admits batch) admitted := by
  unfold admits
  cases hg : stage.gate with
  | none => exact ⟨true, _, hQ.returns true⟩
  | some test =>
    induction batch with
    | nil => exact ⟨false, _, hQ.returns false⟩
    | cons source batch ih =>
      obtain ⟨found, es, hm⟩ := returns_matchesSource hQ (hs.gate hg) source
      cases found with
      | true => exact ⟨true, _, hQ.chains hm (hQ.returns true)⟩
      | false =>
        obtain ⟨admitted, es', hr⟩ := ih
        exact ⟨admitted, _, hQ.chains hm hr⟩

theorem returns_admitsSource (hQ : Attempt.Lawful Q) (hs : stage.Answers Q) (source : S) :
    ∃ admitted, Attempt.Returns Q (stage.admitsSource source) admitted := by
  unfold admitsSource
  cases ht : stage.sourceTest with
  | none => exact ⟨true, _, hQ.returns true⟩
  | some test => exact returns_matchesSource hQ (hs.sourceTest ht) source

theorem returns_or_breaks_visitSource (hQ : Attempt.Lawful Q) (hs : stage.Answers Q)
    (hf : factory.Answers Q) (source : S) :
    (∃ kept, Attempt.Returns Q (stage.visitSource factory source) kept) ∨
      Attempt.Breaks Q stage.name (stage.visitSource factory source) := by
  obtain ⟨admitted, es, hm⟩ := returns_admitsSource hQ hs source
  obtain ⟨v, hmake, hv⟩ := hf
  obtain ⟨result, hvisit⟩ := hv.visit source
  cases admitted with
  | false => exact .inl ⟨some source, _, hQ.chains hm (hQ.returns _)⟩
  | true =>
    match result with
    | .ok none =>
      exact .inl ⟨none, _, hQ.chains hm (hQ.chains hmake (hQ.chains hvisit (hQ.returns none)))⟩
    | .error cause =>
      exact .inl ⟨some source, _, hQ.chains hm (hQ.chains hmake (hQ.chains hvisit
        (hQ.chains (hQ.raises _) (hQ.returns _))))⟩
    | .ok (some after) =>
      let breach := ContractBreach.replacedId (Tree.id source) (Source.path source) (Tree.id after)
      have hend : ∀ (r : Except RecipeError (Option S)),
          Q (if Tree.id after = Tree.id source then pure (some after)
            else throw (.contractViolation stage.name breach)) r [] →
          Q (stage.visitSource factory source) r (es ++ ([] ++ ([] ++ []))) := fun r h =>
        hQ.chains hm (hQ.chains hmake (hQ.chains hvisit h))
      by_cases hid : Tree.id after = Tree.id source
      · refine .inl ⟨some after, _, hend _ ?_⟩
        rw [if_pos hid]
        exact hQ.returns _
      · refine .inr ⟨breach, _, hend _ ?_⟩
        rw [if_neg hid]
        exact hQ.throws _

theorem returns_or_breaks_transformBatch (hQ : Attempt.Lawful Q) {f : BatchTransform ω S}
    (hf : Action.Answers Q (f batch).run) :
    (∃ after, Attempt.Returns Q (stage.transformBatch f batch) after) ∨
      Attempt.Breaks Q stage.name (stage.transformBatch f batch) := by
  obtain ⟨result, htransform⟩ := hf
  cases result with
  | error cause =>
    exact .inl ⟨batch, _, hQ.chains htransform (hQ.chains (hQ.raises _) (hQ.returns batch))⟩
  | ok after =>
    cases hc : checkIds stage.name after with
    | ok =>
      have hcheck : Q (Attempt.ofExcept (checkIds stage.name after)) (.ok ()) [] := by
        rw [hc]
        exact hQ.returns ()
      exact .inl ⟨after, _, hQ.chains htransform (hQ.chains hcheck (hQ.returns after))⟩
    | error e =>
      obtain ⟨breach, rfl⟩ := checkIds_eq_error hc
      have hcheck : Q (Attempt.ofExcept (checkIds stage.name after))
          (.error (.contractViolation stage.name breach)) [] := by
        rw [hc]
        exact hQ.throws _
      exact .inr ⟨breach, _, hQ.chains htransform (hQ.fails hcheck)⟩

variable {name : String}

theorem breaks_visitInTurn (hQ : Attempt.Lawful Q)
    (hv : ∀ s ∈ batch, (∃ kept, Attempt.Returns Q (stage.visitSource factory s) kept) ∨
      Attempt.Breaks Q name (stage.visitSource factory s))
    (hb : ∃ s ∈ batch, Attempt.Breaks Q name (stage.visitSource factory s)) :
    Attempt.Breaks Q name (stage.visitInTurn factory batch) := by
  obtain ⟨s, hs, hbreak⟩ := hb
  induction batch with
  | nil => simp at hs
  | cons source sources ih =>
    rcases List.mem_cons.mp hs with rfl | hs
    · exact hbreak.bind hQ
    · have hrest := ih (fun s hm => hv s (by simp [hm])) hs
      rcases hv source (by simp) with ⟨kept, hk⟩ | hk
      · exact hk.breaks_bind hQ (hrest.bind hQ)
      · exact hk.bind hQ

theorem breaks_visitPositions (hQ : Attempt.Lawful Q)
    (hv : ∀ s ∈ batch, (∃ kept, Attempt.Returns Q (stage.visitSource factory s) kept) ∨
      Attempt.Breaks Q name (stage.visitSource factory s)) {positions : List Nat} {i : Nat} {s : S}
    (hi : i ∈ positions) (hs : batch[i]? = some s)
    (hb : Attempt.Breaks Q name (stage.visitSource factory s)) :
    Attempt.Breaks Q name (stage.visitPositions factory batch positions) := by
  induction positions with
  | nil => simp at hi
  | cons j positions ih =>
    rw [visitPositions]
    rcases List.mem_cons.mp hi with rfl | hi
    · rw [hs]
      exact hb.bind hQ
    · have hrest := ih hi
      cases hj : batch[j]? with
      | none => exact hrest
      | some source =>
        rcases hv source (List.mem_of_getElem? hj) with ⟨kept, hk⟩ | hk
        · exact hk.breaks_bind hQ (hrest.bind hQ)
        · exact hk.bind hQ

end Stage

namespace Scheduler
variable {stage : Stage ω S} {factory : VisitorFactory ω S} {batch : List S}

theorem breaks_transform (hQ : Attempt.Lawful Q) (hb : stage.batchTransform = none)
    (hv : stage.visitor = some factory)
    (hs : ∀ s ∈ batch, (∃ kept, Attempt.Returns Q (stage.visitSource factory s) kept) ∨
      Attempt.Breaks Q stage.name (stage.visitSource factory s)) {s : S} (hm : s ∈ batch)
    (hbreak : Attempt.Breaks Q stage.name (stage.visitSource factory s)) (σ : Scheduler) (n : Nat)
    (path : RecipePath) : Attempt.Breaks Q stage.name (σ.transform n path stage batch) := by
  rw [transform, hb, hv]
  simp only
  split
  · obtain ⟨i, hi⟩ := List.mem_iff_getElem?.mp hm
    obtain ⟨hl, -⟩ := List.getElem?_eq_some_iff.mp hi
    have hp := (σ.order.perm n path (List.range batch.length)).mem_iff.mpr (List.mem_range.mpr hl)
    exact (Stage.breaks_visitPositions hQ hs hp hi hbreak).bind hQ
  · exact Stage.breaks_visitInTurn hQ hs ⟨s, hm, hbreak⟩

theorem returns_or_breaks_transform (hQ : Attempt.Lawful Q) (hs : stage.Answers Q)
    (batch : List S) :
    (∃ after es, ∀ (σ : Scheduler) n path, ∃ es', es'.Perm es ∧
        Q (σ.transform n path stage batch) (.ok after) es') ∨
      ∀ (σ : Scheduler) n path,
        Attempt.Breaks Q stage.name (σ.transform n path stage batch) := by
  cases hb : stage.batchTransform with
  | some f =>
    have ht : ∀ (σ : Scheduler) n path,
        σ.transform n path stage batch = stage.transformBatch f batch := by
      intro σ n path
      rw [transform, hb]
    rcases Stage.returns_or_breaks_transformBatch hQ (hs.batchTransform hb batch) with
      ⟨after, es, h⟩ | h
    · refine .inl ⟨after, es, fun σ n path => ⟨es, .refl es, ?_⟩⟩
      rwa [ht]
    · refine .inr fun σ n path => ?_
      rwa [ht]
  | none =>
    cases hv : stage.visitor with
    | none =>
      refine .inl ⟨batch, [], fun σ n path => ⟨[], .refl [], ?_⟩⟩
      rw [transform, hb, hv]
      exact hQ.returns batch
    | some factory =>
      have hd := fun s (_ : s ∈ batch) =>
        Stage.returns_or_breaks_visitSource hQ hs (hs.visitor hv) s
      by_cases hbreak : ∃ s ∈ batch, Attempt.Breaks Q stage.name (stage.visitSource factory s)
      · obtain ⟨s, hm, hbreak⟩ := hbreak
        exact .inr fun σ n path => breaks_transform hQ hb hv hd hm hbreak σ n path
      · have hk : ∀ s ∈ batch, ∃ kept es, Q (stage.visitSource factory s) (.ok kept) es :=
          fun s hm => (hd s hm).resolve_right fun h => hbreak ⟨s, hm, h⟩
        choose! kept reports hk using hk
        exact .inl ⟨batch.filterMap kept, batch.flatMap reports,
          sequential_transform hQ.sequential hb hv hk⟩

end Scheduler

end

end Codemod
