import Codemod.Proofs.Escalation
import Codemod.Proofs.Steady

namespace Codemod

structure Stage.IsConstant {ω S : Type} (hook : ErrorHook ω) (stage : Stage ω S) : Prop extends
    stage.Each hook (Action.IsConstant hook) where
  batchTransform {f : BatchTransform ω S} (h : stage.batchTransform = some f) (batch : List S) :
    Action.IsConstant hook (f batch).run

def muffled {α : Type} (unchanged : α) : Except VisitError α → Except VisitError α
  | .ok x => .ok x
  | .error _ => .ok unchanged

section
variable {ω S : Type}

def SourceVisitor.muffled (v : SourceVisitor ω S) : SourceVisitor ω S where
  accepts := v.accepts
  visit source := Codemod.muffled (some source) <$> v.visit source

def VisitorFactory.muffled (factory : VisitorFactory ω S) : VisitorFactory ω S :=
  (SourceVisitor.muffled <$> factory : Action ω (SourceVisitor ω S))

def BatchTransform.muffled (f : BatchTransform ω S) : BatchTransform ω S :=
  fun batch => ExceptT.mk (Codemod.muffled batch <$> (f batch).run)

/-- Where the code of the stage fails, it hands back what it was given. A test that does so does
not match. -/
def Stage.muffled (stage : Stage ω S) : Stage ω S :=
  { stage with
    gate := stage.gate.map VisitorFactory.muffled
    sourceTest := stage.sourceTest.map VisitorFactory.muffled
    visitor := stage.visitor.map VisitorFactory.muffled
    batchTransform := stage.batchTransform.map BatchTransform.muffled }

def Recipe.muffled (recipe : Recipe ω S) : Recipe ω S :=
  recipe.mapStages Stage.muffled

theorem Action.perform_map_of_constant {α β : Type} {hook : ErrorHook ω} {a : Action ω α} {x : α}
    (h : ∀ c, a.perform hook c = (x, c)) (g : α → β) (c : Context ω) :
    (g <$> a).perform hook c = (g x, c) := by
  have hg : (g <$> a).perform hook c = (g (a.perform hook c).1, (a.perform hook c).2) := rfl
  rw [hg, h]

variable [Source S]

def failures (events : List (Event S)) : List RecipeError :=
  events.filterMap Event.failure?

theorem failures_call (events : List (Event S)) (call : Call S) :
    failures (events ++ [.call call]) = failures events ++ call.failure?.toList := by
  rw [failures, List.filterMap_append]
  cases h : call.failure? <;> simp [failures, Event.failure?, h]

theorem failures_report (events : List (Event S)) (error : RecipeError)
    (answer : Except RecipeError Unit) :
    failures (events ++ [.report error answer]) = failures events := by
  simp [failures, Event.failure?]

def Context.Muffled (errors : List RecipeError) (c : Context (Logged ω S)) (c' : Context ω) :
    Prop :=
  c.unlogged.Alike c' ∧ c.errors = errors ++ failures c.client.events ∧ c'.errors = errors

def Coupling.muffling (ω S : Type) [Source S] (errors : List RecipeError) :
    Coupling (Logged ω S) ω where
  hook := ErrorHook.logged .record
  hook' := .record
  Related := Context.Muffled errors
  Ended _ := Context.Muffled errors
  cancelled h := h.1.cancelled
  writes h := h.1.writes
  seen h := h.1.seen
  reset h := ⟨⟨h.1.cancelled, h.1.writes, h.1.writes⟩, h.2⟩

end

namespace Coupling
variable {ω S α α' β β' : Type} [Source S] {errors : List RecipeError}
variable {W : β → β' → Prop} {a : Action ω α} {a' : Action ω α'} {x : α} {x' : α'}
variable {call : α → Call S} {f : α → Attempt (Logged ω S) β} {f' : α' → Attempt ω β'}

theorem lockstep_of_constant (ha : ∀ c, a.perform .record c = (x, c))
    (ha' : ∀ c, a'.perform .record c = (x', c))
    (h : ∀ c c', Context.Muffled errors c c' → (muffling ω S errors).Matched W
      ((f x).perform (ErrorHook.logged .record)
        (c.unlogged.logged (c.client.events ++ [.call (call x)])))
      ((f' x').perform .record c')) :
    (muffling ω S errors).Lockstep W (liftM (Action.logged .record a call) >>= f)
      (liftM a' >>= f') := by
  intro c c' hc
  have hx := Attempt.perform_logged_of_constant ha call (ErrorHook.logged .record) c
  have hx' : (liftM a' : Attempt ω α').perform .record c' = (.ok x', c') :=
    Attempt.lift_eq_ok.mpr (ha' c')
  change (muffling ω S errors).Matched W
    ((liftM (Action.logged .record a call) >>= f).perform (ErrorHook.logged .record) c)
    ((liftM a' >>= f').perform .record c')
  rw [Attempt.bind_of_ok hx, Attempt.bind_of_ok hx']
  exact h c c' hc

theorem lockstep_passing (ha : ∀ c, a.perform .record c = (x, c))
    (ha' : ∀ c, a'.perform .record c = (x', c)) (hf : (call x).failure? = none)
    (go : (muffling ω S errors).Lockstep W (f x) (f' x')) :
    (muffling ω S errors).Lockstep W (liftM (Action.logged .record a call) >>= f)
      (liftM a' >>= f') := by
  refine lockstep_of_constant ha ha' fun c c' ⟨hal, herr, herr'⟩ => go _ c' ⟨hal, ?_, herr'⟩
  change c.errors = errors ++ failures (c.client.events ++ [.call (call x)])
  rw [failures_call, hf, Option.toList_none, List.append_nil]
  exact herr

theorem lockstep_failing {e : RecipeError} {y : β} {y' : β'}
    (ha : ∀ c, a.perform .record c = (x, c)) (ha' : ∀ c, a'.perform .record c = (x', c))
    (hf : (call x).failure? = some e) (hy : W y y') (hfx : f x = (do Attempt.raise e; pure y))
    (hfx' : f' x' = pure y') :
    (muffling ω S errors).Lockstep W (liftM (Action.logged .record a call) >>= f)
      (liftM a' >>= f') := by
  refine lockstep_of_constant ha ha' fun c c' ⟨hal, herr, herr'⟩ => ?_
  rw [hfx, hfx', Attempt.bind_of_ok (Attempt.raise_eq_ok.mpr rfl)]
  refine .ok hy ⟨⟨hal.cancelled, hal.writes, hal.seen⟩, ?_, herr'⟩
  change c.errors ++ [e] =
    errors ++ failures (c.client.events ++ [.call (call x)] ++ [.report e (.ok ())])
  rw [failures_report, failures_call, hf, herr, List.append_assoc]
  rfl

theorem lockstep_muffled_make {factory : VisitorFactory ω S} {v : SourceVisitor ω S}
    {recipe : String} {role : Role} (hv : ∀ c, Action.perform factory .record c = (v, c)) :
    (muffling ω S errors).Lockstep
      (fun l m => l = v.logged .record recipe role ∧ m = v.muffled)
      (liftM (factory.logged .record recipe role :
          Action (Logged ω S) (SourceVisitor (Logged ω S) S)) :
        Attempt (Logged ω S) (SourceVisitor (Logged ω S) S))
      (liftM (factory.muffled : Action ω (SourceVisitor ω S)) :
        Attempt ω (SourceVisitor ω S)) := by
  change (muffling ω S errors).Lockstep _
    ((liftM (Action.logged .record factory fun _ => Call.make recipe role :
        Action (Logged ω S) (SourceVisitor ω S)) : Attempt (Logged ω S) (SourceVisitor ω S)) >>=
      fun v => pure (v.logged .record recipe role))
    (liftM (SourceVisitor.muffled <$> factory : Action ω (SourceVisitor ω S)) >>= pure)
  exact lockstep_passing hv (Action.perform_map_of_constant hv _) rfl (lockstep_pure ⟨rfl, rfl⟩)

end Coupling

namespace Stage
open Coupling
variable {ω S : Type} [Source S] {stage : Stage ω S} {source : S} {errors : List RecipeError}

theorem lockstep_muffled_matchesSource {test : VisitorFactory ω S} {role : Role}
    (hr : role ≠ .visitor) (ht : test.Each .record (Action.IsConstant .record)) :
    (muffling ω S errors).Lockstep Eq
      ((stage.logged .record).matchesSource (test.logged .record stage.name role) source)
      (stage.muffled.matchesSource test.muffled source) := by
  intro c c' hc
  obtain ⟨v, hmake, hv⟩ := ht.constant c.unlogged
  obtain ⟨accepted, haccept⟩ := hv.accepts source
  obtain ⟨result, hvisit⟩ := hv.visit source
  refine (lockstep_muffled_make hmake).bind (fun l m hlm => ?_) c c' hc
  obtain ⟨rfl, rfl⟩ := hlm
  refine lockstep_passing haccept haccept rfl ?_
  cases accepted with
  | false => exact lockstep_pure rfl
  | true =>
    cases result with
    | error cause =>
      exact lockstep_failing hvisit (Action.perform_map_of_constant hvisit _)
        (Call.failure?_of_test hr source cause) rfl rfl (by simp [Codemod.muffled])
    | ok kept =>
      refine lockstep_passing hvisit (Action.perform_map_of_constant hvisit _) rfl ?_
      cases kept with
      | none => exact lockstep_pure rfl
      | some after => exact lockstep_pure rfl

theorem lockstep_muffled_admitsSource (h : stage.IsConstant .record) :
    (muffling ω S errors).Lockstep Eq ((stage.logged .record).admitsSource source)
      (stage.muffled.admitsSource source) := by
  have hl : (stage.logged .record).sourceTest =
      stage.sourceTest.map (VisitorFactory.logged .record stage.name .sourceTest) := rfl
  have hm : stage.muffled.sourceTest = stage.sourceTest.map VisitorFactory.muffled := rfl
  rw [admitsSource, admitsSource, hl, hm]
  cases ht : stage.sourceTest with
  | none => exact lockstep_pure rfl
  | some test => exact lockstep_muffled_matchesSource (by decide) (h.sourceTest ht)

theorem lockstep_muffled_visitSource {factory : VisitorFactory ω S} (h : stage.IsConstant .record)
    (hf : factory.Each .record (Action.IsConstant .record)) :
    (muffling ω S errors).Lockstep (Option.Rel Eq)
      ((stage.logged .record).visitSource (factory.logged .record stage.name .visitor) source)
      (stage.muffled.visitSource factory.muffled source) := by
  refine (lockstep_muffled_admitsSource h).bind fun admitted _ he => ?_
  subst he
  cases admitted with
  | false => exact lockstep_pure (.some rfl)
  | true =>
    intro c c' hc
    obtain ⟨v, hmake, hv⟩ := hf.constant c.unlogged
    obtain ⟨result, hvisit⟩ := hv.visit source
    refine (lockstep_muffled_make hmake).bind (fun l m hlm => ?_) c c' hc
    obtain ⟨rfl, rfl⟩ := hlm
    cases result with
    | error cause =>
      exact lockstep_failing hvisit (Action.perform_map_of_constant hvisit _) rfl (.some rfl) rfl
        (by simp [Codemod.muffled])
    | ok kept =>
      refine lockstep_passing hvisit (Action.perform_map_of_constant hvisit _) rfl ?_
      cases kept with
      | none => exact lockstep_pure .none
      | some after =>
        simp only [Codemod.muffled]
        split
        · exact lockstep_pure (.some rfl)
        · exact fun _ _ hc => .error hc

theorem lockstep_muffled_transformBatch {f : BatchTransform ω S} {batch : List S}
    (hb : Source.Distinct batch) (hf : Action.IsConstant .record (f batch).run) :
    (muffling ω S errors).Lockstep Eq
      ((stage.logged .record).transformBatch (f.logged .record stage.name) batch)
      (stage.muffled.transformBatch f.muffled batch) := by
  obtain ⟨result, hresult⟩ := hf
  cases result with
  | error cause =>
    refine lockstep_failing hresult (Action.perform_map_of_constant hresult _) rfl rfl rfl ?_
    have hc : checkIds stage.muffled.name batch = .ok () := checkIds_eq_ok_iff.mpr hb
    simp only [Codemod.muffled, hc]
    rfl
  | ok after =>
    refine lockstep_passing hresult (Action.perform_map_of_constant hresult _) rfl ?_
    intro c c' hc
    change (muffling ω S errors).Matched Eq
      ((do Attempt.ofExcept (checkIds stage.name after); pure after :
        Attempt (Logged ω S) (List S)).perform (ErrorHook.logged .record) c)
      ((do Attempt.ofExcept (checkIds stage.name after); pure after :
        Attempt ω (List S)).perform .record c')
    cases checkIds stage.name after with
    | ok => exact .ok rfl hc
    | error => exact .error hc

theorem lockstep_muffled (h : stage.IsConstant .record) :
    (stage.logged .record).Lockstep (muffling ω S errors) Eq stage.muffled where
  name_eq := rfl
  displayName_eq := rfl
  repeats_eq := rfl
  gate := by
    change Option.Rel _ (stage.gate.map _) (stage.gate.map _)
    cases ht : stage.gate with
    | none => exact .none
    | some test =>
      refine .some fun s s' hs => ?_
      subst hs
      exact lockstep_muffled_matchesSource (by decide) (h.gate ht)
  visitor := by
    change Option.Rel _ (stage.visitor.map _) (stage.visitor.map _)
    cases hv : stage.visitor with
    | none => exact .none
    | some factory =>
      refine .some fun s s' hs => ?_
      subst hs
      exact lockstep_muffled_visitSource h (h.visitor hv)
  batchTransform := by
    change Option.Rel _ (stage.batchTransform.map _) (stage.batchTransform.map _)
    cases hf : stage.batchTransform with
    | none => exact .none
    | some f =>
      refine .some fun b b' hd hb => ?_
      rw [List.forall₂_eq_eq_eq] at hb ⊢
      subst hb
      exact lockstep_muffled_transformBatch hd (h.batchTransform hf b)

end Stage

namespace Scheduler
open Coupling
variable {ω S : Type} [Source S] {σ : Scheduler} {recipe : Recipe ω S}

theorem swallowed_failures_are_muffled (hf : ∀ stage ∈ recipe.stages, stage.IsConstant .record)
    (σ : Scheduler) (batch : List S) (c : Context ω) :
    ((σ.run recipe.muffled batch).perform .record c).1 =
        ((σ.run recipe batch).perform .record c).1 ∧
      ((σ.run recipe batch).perform .record c).2.errors =
        c.errors ++ failures (σ.events .record recipe batch c) ∧
      ((σ.run recipe.muffled batch).perform .record c).2.errors = c.errors := by
  have hl : (muffling ω S c.errors).Lockstep Eq
      (σ.run (recipe.mapStages (Stage.logged .record)) batch) (σ.run recipe.muffled batch) :=
    lockstep_run_eq (fun stage hs => Stage.lockstep_muffled (hf stage hs)) fun _ _ _ _ hc => hc
  have hm := hl (c.logged []) c ⟨.refl c, (List.append_nil _).symm, rfl⟩
  have he : (σ.run recipe batch).perform .record c = _ := perform_run_eq
  rw [he]
  unfold events loggedRun
  change (muffling ω S c.errors).Matched Eq
    ((σ.run (recipe.mapStages (Stage.logged .record)) batch).perform (ErrorHook.logged .record)
      (c.logged []))
    ((σ.run recipe.muffled batch).perform .record c) at hm
  generalize (σ.run (recipe.mapStages (Stage.logged .record)) batch).perform
    (ErrorHook.logged .record) (c.logged []) = o at hm
  generalize (σ.run recipe.muffled batch).perform .record c = o' at hm
  cases hm with
  | ok hv hd => exact ⟨congrArg Except.ok hv.symm, hd.2⟩
  | error hd => exact ⟨rfl, hd.2⟩

end Scheduler

namespace Sample

def stumblingStage : Stage Unit PlainText :=
  { name := "stumbling"
    gate := some (stumbling "z" "")
    sourceTest := some (stumbling "y" "z")
    visitor := some (stumbling "x" "z") }

def jammedStage : Stage Unit PlainText :=
  { name := "jammed", batchTransform := some fun _ => throw (.failed "full") }

def once : Stage Unit PlainText :=
  { name := "once", visitor := some (stumbling "x" "y") }

def jammed : Recipe Unit PlainText :=
  .composite "root" [⟨jammedStage, []⟩, ⟨once, []⟩, ⟨stumblingStage, []⟩]

theorem constant_stumbling (old new : String) :
    VisitorFactory.Each .record (Action.IsConstant .record) (stumbling old new) :=
  VisitorFactory.constant_pure _ _ _

theorem constant_jammed : ∀ stage ∈ jammed.stages, stage.IsConstant .record := by
  intro stage hs
  have hl : stage = jammed.stage ∨ stage = jammedStage ∨ stage = once ∨
      stage = stumblingStage := by
    simpa [jammed, Recipe.composite, Recipe.stages, Recipe.stagesOf] using hs
  rcases hl with rfl | rfl | rfl | rfl
  all_goals
    constructor
    case toEach =>
      constructor
      case gate => rintro test ⟨⟩ <;> exact constant_stumbling _ _
      case sourceTest => rintro test ⟨⟩ <;> exact constant_stumbling _ _
      case visitor => rintro factory ⟨⟩ <;> exact constant_stumbling _ _
    case batchTransform => rintro f ⟨⟩ <;> exact fun batch => ⟨_, fun c => rfl⟩

theorem jammed_run_is_muffled :
    ((scheduler.run jammed batch).perform .record start).2.errors =
        [.transformFailed "jammed" (.failed "full"),
          .visitFailed "once" ⟨["a"]⟩ (.failed "z"),
          .applicabilityFailed "stumbling" ⟨["a"]⟩ (.failed "y"),
          .visitFailed "stumbling" ⟨["a"]⟩ (.failed "y"),
          .applicabilityFailed "stumbling" ⟨["a"]⟩ (.failed "z")] ∧
      ((scheduler.run jammed.muffled batch).perform .record start).1 =
          ((scheduler.run jammed batch).perform .record start).1 ∧
        ((scheduler.run jammed batch).perform .record start).2.errors =
          start.errors ++ failures (scheduler.events .record jammed batch start) ∧
        ((scheduler.run jammed.muffled batch).perform .record start).2.errors = start.errors := by
  refine ⟨?_, Scheduler.swallowed_failures_are_muffled constant_jammed scheduler batch start⟩
  decide +kernel

end Sample

end Codemod
