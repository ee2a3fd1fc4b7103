import Codemod.Proofs.Survival
import Mathlib.Data.List.Forall2

namespace Codemod

/-- Two runs to be compared: their hooks, and how their contexts are related all along and where
both end with an error. Related contexts agree in whatever decides how a run goes on. -/
structure Coupling (ω ω' : Type) where
  hook : ErrorHook ω
  hook' : ErrorHook ω'
  Related : Context ω → Context ω' → Prop
  Ended : RecipeError → Context ω → Context ω' → Prop
  cancelled {c c'} (h : Related c c') : c'.cancelled = c.cancelled
  writes {c c'} (h : Related c c') : c'.writes = c.writes
  seen {c c'} (h : Related c c') : c'.seen = c.seen
  reset {c c'} (h : Related c c') : Related c.resetNewMessages c'.resetNewMessages

namespace Coupling
variable {ω ω' α α' β β' : Type}

inductive Matched (κ : Coupling ω ω') (V : α → α' → Prop) :
    Except RecipeError α × Context ω → Except RecipeError α' × Context ω' → Prop
  | ok {x x' d d'} (hv : V x x') (hd : κ.Related d d') : Matched κ V (.ok x, d) (.ok x', d')
  | error {e d d'} (hd : κ.Ended e d d') : Matched κ V (.error e, d) (.error e, d')

def Lockstep (κ : Coupling ω ω') (V : α → α' → Prop) (a : Attempt ω α) (a' : Attempt ω' α') :
    Prop :=
  ∀ c c', κ.Related c c' → κ.Matched V (a.perform κ.hook c) (a'.perform κ.hook' c')

structure Routes (κ : Coupling ω ω') : Prop where
  raise (e : RecipeError) : κ.Lockstep Eq (Attempt.raise e) (Attempt.raise e)
  ended {c c'} (h : κ.Related c c') (e : RecipeError) : κ.Ended e c c'

variable {κ : Coupling ω ω'} {V : α → α' → Prop} {W : β → β' → Prop}
variable {a : Attempt ω α} {a' : Attempt ω' α'}

theorem hasNewMessages {c : Context ω} {c' : Context ω'} (h : κ.Related c c') :
    c'.hasNewMessages = c.hasNewMessages := by
  rw [Context.hasNewMessages, Context.hasNewMessages, κ.writes h, κ.seen h]

theorem lockstep_pure {x : α} {x' : α'} (h : V x x') : κ.Lockstep V (pure x) (pure x') :=
  fun _ _ hr => .ok h hr

theorem lockstep_throw (hκ : κ.Routes) (e : RecipeError) : κ.Lockstep V (throw e) (throw e) :=
  fun _ _ hr => .error (hκ.ended hr e)

theorem lockstep_lift {b : Action ω α} {b' : Action ω' α'} {x : α} {x' : α'}
    (hb : ∀ c, b.perform κ.hook c = (x, c)) (hb' : ∀ c, b'.perform κ.hook' c = (x', c))
    (h : V x x') : κ.Lockstep V (liftM b : Attempt ω α) (liftM b' : Attempt ω' α') := by
  intro c c' hr
  rw [Attempt.perform_lift, Attempt.perform_lift, hb, hb']
  exact .ok h hr

theorem lockstep_context : κ.Lockstep κ.Related Attempt.context Attempt.context :=
  fun _ _ hr => .ok hr hr

theorem lockstep_resetNewMessages :
    κ.Lockstep Eq (Attempt.update Context.resetNewMessages)
      (Attempt.update Context.resetNewMessages) :=
  fun _ _ hr => .ok rfl (κ.reset hr)

def identical (hook : ErrorHook ω) : Coupling ω ω where
  hook := hook
  hook' := hook
  Related c c' := c' = c
  Ended _ c c' := c' = c
  cancelled h := h ▸ rfl
  writes h := h ▸ rfl
  seen h := h ▸ rfl
  reset h := h ▸ rfl

theorem matched_identical {hook : ErrorHook ω} {W : α → α → Prop}
    {o o' : Except RecipeError α × Context ω} (h : o' = o) (hW : ∀ x, o.1 = .ok x → W x x) :
    (identical hook).Matched W o o' := by
  subst h
  obtain ⟨r, d⟩ := o'
  cases r with
  | error e => exact .error rfl
  | ok x => exact .ok (hW x rfl) rfl

theorem context_eq_of_matched {hook : ErrorHook ω} {W : α → α' → Prop}
    {o : Except RecipeError α × Context ω} {o' : Except RecipeError α' × Context ω}
    (h : (identical hook).Matched W o o') : o'.2 = o.2 := by
  cases h with
  | ok _ hd => exact hd
  | error hd => exact hd

theorem lockstep_identical_iff {hook : ErrorHook ω} {a a' : Attempt ω α} :
    (identical hook).Lockstep Eq a a' ↔ ∀ c, a'.perform hook c = a.perform hook c := by
  constructor
  · intro h c
    have hm := h c c rfl
    change (identical hook).Matched Eq (a.perform hook c) (a'.perform hook c) at hm
    generalize a.perform hook c = o at hm
    generalize a'.perform hook c = o' at hm
    cases hm with
    | ok hv hd => rw [hv, show _ = _ from hd]
    | error hd => rw [show _ = _ from hd]
  · intro h c c' hc
    obtain rfl : c' = c := hc
    exact matched_identical (h c') fun _ _ => rfl

namespace Lockstep

theorem bind {f : α → Attempt ω β} {f' : α' → Attempt ω' β'} (h : κ.Lockstep V a a')
    (hf : ∀ x x', V x x' → κ.Lockstep W (f x) (f' x')) :
    κ.Lockstep W (a >>= f) (a' >>= f') := by
  intro c c' hr
  have hm := h c c' hr
  rw [Attempt.perform_bind, Attempt.perform_bind]
  generalize a.perform κ.hook c = o at hm
  generalize a'.perform κ.hook' c' = o' at hm
  cases hm with
  | ok hx hd => exact hf _ _ hx _ _ hd
  | error hd => exact .error hd

theorem imp_of_ok {V' : α → α' → Prop} (h : κ.Lockstep V a a')
    (hv : ∀ c x d x', a.perform κ.hook c = (.ok x, d) → V x x' → V' x x') :
    κ.Lockstep V' a a' := by
  intro c c' hr
  have hm := h c c' hr
  generalize ho : a.perform κ.hook c = o at hm
  generalize a'.perform κ.hook' c' = o' at hm
  cases hm with
  | ok hx hd => exact .ok (hv c _ _ _ ho hx) hd
  | error hd => exact .error hd

end Lockstep

end Coupling

namespace Source
variable {S : Type} [Source S]

/-- Tells sources apart as equality does, and keeps where they belong. -/
structure Likeness (V : S → S → Prop) : Prop where
  id_eq {s s'} (h : V s s') : Tree.id s' = Tree.id s
  path_eq {s s'} (h : V s s') : path s' = path s
  eq_iff {s s' t t'} (hs : V s s') (ht : V t t') : t' = s' ↔ t = s

theorem likeness_eq : Likeness (Eq : S → S → Prop) where
  id_eq h := by rw [h]
  path_eq h := by rw [h]
  eq_iff hs ht := by rw [hs, ht]

namespace Likeness
variable {V : S → S → Prop} {batch batch' after after' : List S}

theorem ids_eq (hV : Likeness V) (h : List.Forall₂ V batch batch') : ids batch' = ids batch := by
  induction h with
  | nil => rfl
  | cons hs _ ih => rw [ids_cons, ids_cons, hV.id_eq hs, ih]

theorem distinct (hV : Likeness V) (h : List.Forall₂ V batch batch') (hd : Distinct batch) :
    Distinct batch' := by
  rw [Distinct, hV.ids_eq h]
  exact hd

theorem contains_eq (hV : Likeness V) (h : List.Forall₂ V batch batch') (id : TreeId) :
    contains batch' id = contains batch id := by
  rw [contains, contains, hV.ids_eq h]

theorem find?_rel (hV : Likeness V) (h : List.Forall₂ V batch batch') (id : TreeId) :
    Option.Rel V (find? batch id) (find? batch' id) := by
  induction h with
  | nil => exact .none
  | cons hs _ ih =>
    rw [find?_cons, find?_cons, hV.id_eq hs]
    split
    · exact .some hs
    · exact ih

theorem batch_eq_iff (hV : Likeness V) (hb : List.Forall₂ V batch batch')
    (ha : List.Forall₂ V after after') : after' = batch' ↔ after = batch := by
  induction hb generalizing after after' with
  | nil =>
    cases ha with
    | nil => simp
    | cons => simp
  | cons hs _ ih =>
    cases ha with
    | nil => simp
    | cons ht hr =>
      rw [List.cons.injEq, List.cons.injEq]
      exact and_congr (hV.eq_iff hs ht) (ih hr)

theorem isModified_eq (hV : Likeness V) (hb : List.Forall₂ V batch batch') {s s' : S}
    (hs : V s s') : Diff.isModified batch' s' = Diff.isModified batch s := by
  have hf := hV.find?_rel hb (Tree.id s)
  unfold Diff.isModified
  rw [hV.id_eq hs]
  generalize find? batch (Tree.id s) = o at hf
  generalize find? batch' (Tree.id s) = o' at hf
  cases hf with
  | none => rfl
  | some ht => simp [hV.eq_iff hs ht]

theorem diff_eq (hV : Likeness V) (hb : List.Forall₂ V batch batch')
    (ha : List.Forall₂ V after after') : Diff.between batch' after' = Diff.between batch after := by
  have hm : List.Forall₂ V (after.filter (Diff.isModified batch))
      (after'.filter (Diff.isModified batch')) :=
    List.rel_filter (fun s s' hs => by simp only [hV.isModified_eq hb hs]) ha
  simp only [Diff.between, hV.ids_eq hm, hV.ids_eq ha, hV.ids_eq hb, hV.contains_eq ha,
    hV.contains_eq hb]

theorem firstRepeated_rel (hV : Likeness V) (h : List.Forall₂ V batch batch')
    (seen : List TreeId) : Option.Rel V (firstRepeated seen batch) (firstRepeated seen batch') := by
  induction h generalizing seen with
  | nil => exact .none
  | cons hs _ ih =>
    rw [firstRepeated, firstRepeated, hV.id_eq hs]
    split
    · exact .some hs
    · exact ih _

theorem checkIds_eq (hV : Likeness V) (h : List.Forall₂ V batch batch') (recipe : String) :
    checkIds recipe batch' = checkIds recipe batch := by
  have hf := hV.firstRepeated_rel h []
  unfold checkIds
  generalize firstRepeated [] batch = o at hf
  generalize firstRepeated [] batch' = o' at hf
  cases hf with
  | none => rfl
  | some hs => simp only [hV.id_eq hs, hV.path_eq hs]

end Likeness

end Source

/-- A visit of a source and one of its counterpart that come to the same: the sources they keep
are counterparts again, unless they have another identity. -/
inductive VisitResult.Matched {S : Type} [Source S] (V : S → S → Prop) (s : S) :
    VisitResult S → VisitResult S → Prop
  | failed {cause} : Matched V s (.error cause) (.error cause)
  | dropped : Matched V s (.ok none) (.ok none)
  | kept {t t'} (h : V t t') : Matched V s (.ok (some t)) (.ok (some t'))
  | replaced {t t'} (hid : Tree.id t' = Tree.id t) (hne : Tree.id t ≠ Tree.id s) :
      Matched V s (.ok (some t)) (.ok (some t'))

structure SourceVisitor.Lockstep {ω ω' S : Type} [Source S] (κ : Coupling ω ω')
    (V : S → S → Prop) (v : SourceVisitor ω S) (v' : SourceVisitor ω' S) : Prop where
  accepts {s s'} (h : V s s') :
    κ.Lockstep Eq (liftM (v.accepts s) : Attempt ω Bool) (liftM (v'.accepts s') : Attempt ω' Bool)
  visit {s s'} (h : V s s') :
    κ.Lockstep (VisitResult.Matched V s) (liftM (v.visit s) : Attempt ω (VisitResult S))
      (liftM (v'.visit s') : Attempt ω' (VisitResult S))

def VisitorFactory.Lockstep {ω ω' S : Type} [Source S] (κ : Coupling ω ω') (V : S → S → Prop)
    (factory : VisitorFactory ω S) (factory' : VisitorFactory ω' S) : Prop :=
  κ.Lockstep (SourceVisitor.Lockstep κ V) (liftM factory : Attempt ω (SourceVisitor ω S))
    (liftM factory' : Attempt ω' (SourceVisitor ω' S))

namespace Stage
open Coupling
variable {ω ω' S : Type} [Source S] {κ : Coupling ω ω'} {V : S → S → Prop}
variable {stage : Stage ω S} {stage' : Stage ω' S} {s s' : S}
variable {test factory : VisitorFactory ω S} {test' factory' : VisitorFactory ω' S}

theorem lockstep_matchesSource (hV : Source.Likeness V) (hκ : κ.Routes)
    (hn : stage'.name = stage.name) (ht : test.Lockstep κ V test') (hs : V s s') :
    κ.Lockstep Eq (stage.matchesSource test s) (stage'.matchesSource test' s') := by
  refine ht.bind fun v v' hv => (hv.accepts hs).bind fun accepted _ he => ?_
  subst he
  cases accepted with
  | false => exact lockstep_pure rfl
  | true =>
    refine (hv.visit hs).bind fun r r' hr => ?_
    cases hr with
    | failed =>
      simp only [hn, hV.path_eq hs]
      exact (hκ.raise _).bind fun _ _ _ => lockstep_pure rfl
    | dropped => exact lockstep_pure rfl
    | kept hkept =>
      refine lockstep_pure ?_
      simp [hV.eq_iff hs hkept]
    | @replaced t t' hid hne =>
      refine lockstep_pure ?_
      have ht : t ≠ s := fun he => hne (congrArg Tree.id he)
      have ht' : t' ≠ s' := fun he => hne (by rw [← hid, he, hV.id_eq hs])
      simp [ht, ht']

theorem lockstep_visitSource (hV : Source.Likeness V) (hκ : κ.Routes)
    (hn : stage'.name = stage.name)
    (ha : κ.Lockstep Eq (stage.admitsSource s) (stage'.admitsSource s'))
    (hf : factory.Lockstep κ V factory') (hs : V s s') :
    κ.Lockstep (Option.Rel V) (stage.visitSource factory s) (stage'.visitSource factory' s') := by
  refine ha.bind fun admitted _ he => ?_
  subst he
  cases admitted with
  | false => exact lockstep_pure (.some hs)
  | true =>
    refine hf.bind fun v v' hv => (hv.visit hs).bind fun r r' hr => ?_
    cases hr with
    | failed =>
      simp only [hn, hV.path_eq hs]
      exact (hκ.raise _).bind fun _ _ _ => lockstep_pure (.some hs)
    | dropped => exact lockstep_pure .none
    | kept hkept =>
      simp only [hn, hV.id_eq hs, hV.path_eq hs, hV.id_eq hkept]
      split
      · exact lockstep_pure (.some hkept)
      · exact lockstep_throw hκ _
    | replaced hid hne =>
      simp only [hn, hV.id_eq hs, hV.path_eq hs, hid]
      rw [if_neg hne, if_neg hne]
      exact lockstep_throw hκ _

theorem lockstep_matchesAny {batch batch' : List S} (hb : List.Forall₂ V batch batch')
    (ht : ∀ s s', V s s' →
      κ.Lockstep Eq (stage.matchesSource test s) (stage'.matchesSource test' s')) :
    κ.Lockstep Eq (stage.matchesAny test batch) (stage'.matchesAny test' batch') := by
  induction hb with
  | nil => exact lockstep_pure rfl
  | cons hs _ ih =>
    refine (ht _ _ hs).bind fun found _ he => ?_
    subst he
    cases found with
    | false => exact ih
    | true => exact lockstep_pure rfl

theorem lockstep_visitInTurn {batch batch' : List S} (hb : List.Forall₂ V batch batch')
    (hv : ∀ s s', V s s' → κ.Lockstep (Option.Rel V) (stage.visitSource factory s)
      (stage'.visitSource factory' s')) :
    κ.Lockstep (List.Forall₂ V) (stage.visitInTurn factory batch)
      (stage'.visitInTurn factory' batch') := by
  induction hb with
  | nil => exact lockstep_pure .nil
  | cons hs _ ih =>
    refine (hv _ _ hs).bind fun kept kept' hk => ih.bind fun rest rest' hr => lockstep_pure ?_
    cases hk with
    | none => exact hr
    | some h => exact .cons h hr

omit [Source S] in
theorem getElem?_rel {batch batch' : List S} (hb : List.Forall₂ V batch batch') (i : Nat) :
    Option.Rel V batch[i]? batch'[i]? := by
  induction hb generalizing i with
  | nil => exact .none
  | cons hs _ ih =>
    cases i with
    | zero => exact .some hs
    | succ i => exact ih i

def OutcomesMatched (V : S → S → Prop) (outcomes outcomes' : List (Nat × Option S)) : Prop :=
  List.Forall₂ (fun o o' => o'.1 = o.1 ∧ Option.Rel V o.2 o'.2) outcomes outcomes'

theorem lockstep_visitPositions {batch batch' : List S} (hb : List.Forall₂ V batch batch')
    (hv : ∀ s s', V s s' → κ.Lockstep (Option.Rel V) (stage.visitSource factory s)
      (stage'.visitSource factory' s')) (positions : List Nat) :
    κ.Lockstep (OutcomesMatched V) (stage.visitPositions factory batch positions)
      (stage'.visitPositions factory' batch' positions) := by
  induction positions with
  | nil => exact lockstep_pure .nil
  | cons i positions ih =>
    have hi := getElem?_rel hb i
    rw [visitPositions, visitPositions]
    generalize batch[i]? = o at hi
    generalize batch'[i]? = o' at hi
    cases hi with
    | none => exact ih
    | some hs =>
      refine (hv _ _ hs).bind fun kept kept' hk => ih.bind fun rest rest' hr => lockstep_pure ?_
      exact .cons ⟨rfl, hk⟩ hr

omit [Source S] in
theorem find?_outcomes_rel {outcomes outcomes' : List (Nat × Option S)}
    (h : OutcomesMatched V outcomes outcomes') (i : Nat) :
    Option.Rel V ((outcomes.find? (·.1 = i)).bind (·.2))
      ((outcomes'.find? (·.1 = i)).bind (·.2)) := by
  induction h with
  | nil => exact .none
  | @cons o o' _ _ ho _ ih =>
    rw [List.find?_cons, List.find?_cons, ho.1]
    split
    · exact ho.2
    · exact ih

omit [Source S] in
theorem gather_rel {outcomes outcomes' : List (Nat × Option S)}
    (h : OutcomesMatched V outcomes outcomes') (size : Nat) :
    List.Forall₂ V (gather size outcomes) (gather size outcomes') := by
  refine List.rel_filterMap (R := Eq) (fun i j hij => ?_) (List.forall₂_refl _)
  subst hij
  exact find?_outcomes_rel h i

theorem lockstep_visitArranged {batch batch' : List S} {arrange : List Nat → List Nat}
    (hb : List.Forall₂ V batch batch')
    (hv : ∀ s s', V s s' → κ.Lockstep (Option.Rel V) (stage.visitSource factory s)
      (stage'.visitSource factory' s')) :
    κ.Lockstep (List.Forall₂ V) (stage.visitArranged factory arrange batch)
      (stage'.visitArranged factory' arrange batch') := by
  rw [visitArranged, visitArranged, ← hb.length_eq]
  exact (lockstep_visitPositions hb hv _).bind fun _ _ ho => lockstep_pure (gather_rel ho _)

structure Lockstep (κ : Coupling ω ω') (V : S → S → Prop) (stage : Stage ω S)
    (stage' : Stage ω' S) : Prop where
  name_eq : stage'.name = stage.name
  displayName_eq : stage'.displayName = stage.displayName
  repeats_eq : stage'.repeats = stage.repeats
  gate : Option.Rel (fun test test' => ∀ s s', V s s' →
    κ.Lockstep Eq (stage.matchesSource test s) (stage'.matchesSource test' s'))
    stage.gate stage'.gate
  visitor : Option.Rel (fun factory factory' => ∀ s s', V s s' →
    κ.Lockstep (Option.Rel V) (stage.visitSource factory s) (stage'.visitSource factory' s'))
    stage.visitor stage'.visitor
  batchTransform : Option.Rel (fun f f' => ∀ batch batch', Source.Distinct batch →
    List.Forall₂ V batch batch' →
    κ.Lockstep (List.Forall₂ V) (stage.transformBatch f batch) (stage'.transformBatch f' batch'))
    stage.batchTransform stage'.batchTransform

end Stage

end Codemod
