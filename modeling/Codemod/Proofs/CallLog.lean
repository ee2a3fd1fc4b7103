import Codemod.Proofs.Congruence

namespace Codemod

inductive Role where
  | gate
  | sourceTest
  | visitor
deriving DecidableEq, Repr

def Role.failed : Role → String → SourcePath → VisitError → RecipeError
  | visitor => .visitFailed
  | gate | sourceTest => .applicabilityFailed

inductive Call (S : Type) where
  | make (recipe : String) (role : Role)
  | accept (recipe : String) (role : Role) (source : S) (accepted : Bool)
  | visit (recipe : String) (role : Role) (source : S) (result : VisitResult S)
  | transform (recipe : String) (batch : List S) (result : Except VisitError (List S))

inductive Event (S : Type) where
  | call (call : Call S)
  | report (error : RecipeError) (answer : Except RecipeError Unit)

namespace Call
variable {S : Type}

def recipe : Call S → String
  | make recipe _ | accept recipe _ _ _ | visit recipe _ _ _ | transform recipe _ _ => recipe

variable [Source S]

def failure? : Call S → Option RecipeError
  | visit recipe role source (.error cause) => some (role.failed recipe (Source.path source) cause)
  | transform recipe _ (.error cause) => some (.transformFailed recipe cause)
  | _ => none

theorem failure?_of_test {recipe : String} {role : Role} (hr : role ≠ .visitor) (source : S)
    (cause : VisitError) : (visit recipe role source (.error cause)).failure? =
      some (.applicabilityFailed recipe (Source.path source) cause) := by
  cases role with
  | visitor => exact absurd rfl hr
  | gate => rfl
  | sourceTest => rfl

def breach? : Call S → Option RecipeError
  | visit recipe .visitor source (.ok (some after)) =>
    if Tree.id after = Tree.id source then none
    else some (.contractViolation recipe
      (.replacedId (Tree.id source) (Source.path source) (Tree.id after)))
  | transform recipe _ (.ok after) =>
    match checkIds recipe after with
    | .error e => some e
    | .ok () => none
  | _ => none

theorem breach?_of_test {recipe : String} {role : Role} (hr : role ≠ .visitor) (source : S)
    (result : VisitResult S) : (visit recipe role source result).breach? = none := by
  cases role with
  | visitor => exact absurd rfl hr
  | gate => rfl
  | sourceTest => rfl

end Call

def Event.failure? {S : Type} [Source S] : Event S → Option RecipeError
  | call made => made.failure?
  | report _ _ => none

structure Logged (ω S : Type) where
  client : ω
  events : List (Event S)

section
variable {ω S : Type}

def Context.logged (c : Context ω) (events : List (Event S)) : Context (Logged ω S) :=
  { c with client := ⟨c.client, events⟩ }

def Context.unlogged (c : Context (Logged ω S)) : Context ω :=
  { c with client := c.client.client }

def Action.logged {α : Type} (hook : ErrorHook ω) (a : Action ω α) (call : α → Call S) :
    Action (Logged ω S) α :=
  modifyGet fun c =>
    let (x, d) := a.perform hook c.unlogged
    (x, d.logged (c.client.events ++ [.call (call x)]))

theorem Attempt.perform_logged_of_constant {α : Type} {hook : ErrorHook ω} {a : Action ω α} {x : α}
    (ha : ∀ c, a.perform hook c = (x, c)) (call : α → Call S) (hook' : ErrorHook (Logged ω S))
    (c : Context (Logged ω S)) :
    (liftM (Action.logged hook a call) : Attempt (Logged ω S) α).perform hook' c =
      (.ok x, c.unlogged.logged (c.client.events ++ [.call (call x)])) := by
  change (Except.ok (a.perform hook c.unlogged).1, (a.perform hook c.unlogged).2.logged
      (c.client.events ++ [.call (call (a.perform hook c.unlogged).1)])) = _
  rw [ha]

def ErrorHook.logged (hook : ErrorHook ω) : ErrorHook (Logged ω S) :=
  .custom fun e c =>
    let (answer, d) := hook.handle e c.unlogged
    (answer, d.logged (c.client.events ++ [.report e answer]))

def SourceVisitor.logged (hook : ErrorHook ω) (recipe : String) (role : Role)
    (v : SourceVisitor ω S) : SourceVisitor (Logged ω S) S where
  accepts source := Action.logged hook (v.accepts source) (.accept recipe role source)
  visit source := Action.logged hook (v.visit source) (.visit recipe role source)

def VisitorFactory.logged (hook : ErrorHook ω) (recipe : String) (role : Role)
    (factory : VisitorFactory ω S) : VisitorFactory (Logged ω S) S :=
  (SourceVisitor.logged hook recipe role <$> Action.logged hook factory fun _ => .make recipe role :
    Action (Logged ω S) (SourceVisitor (Logged ω S) S))

def BatchTransform.logged (hook : ErrorHook ω) (recipe : String) (f : BatchTransform ω S) :
    BatchTransform (Logged ω S) S :=
  fun batch => ExceptT.mk (Action.logged hook (f batch).run (.transform recipe batch))

/-- The same stage, entering each call of its code in the log. What the code itself reports to the
hook is no event of the run. -/
def Stage.logged (hook : ErrorHook ω) (stage : Stage ω S) : Stage (Logged ω S) S where
  name := stage.name
  displayName := stage.displayName
  description := stage.description
  tags := stage.tags
  gate := stage.gate.map (VisitorFactory.logged hook stage.name .gate)
  sourceTest := stage.sourceTest.map (VisitorFactory.logged hook stage.name .sourceTest)
  visitor := stage.visitor.map (VisitorFactory.logged hook stage.name .visitor)
  batchTransform := stage.batchTransform.map (BatchTransform.logged hook stage.name)
  repeats := stage.repeats

def Attempt.error? {α : Type} : Except RecipeError α → Option RecipeError
  | .ok _ => none
  | .error e => some e

def ErrorHook.Answers (hook : ErrorHook ω) (e : RecipeError) (answer : Except RecipeError Unit) :
    Prop :=
  ∃ c, (hook.handle e c).1 = answer

variable [Source S]

/-- The events of a run up to some point, and the error that ended it there, if any: what fails is
reported at once and nothing else is, and what breaks the contract is not reported. -/
inductive Course (hook : ErrorHook ω) : List (Event S) → Option RecipeError → Prop
  | nil : Course hook [] none
  | called {es call} (before : Course hook es none) (hf : call.failure? = none) :
      Course hook (es ++ [.call call]) call.breach?
  | reported {es call error answer} (before : Course hook es none)
      (hf : call.failure? = some error) (ha : hook.Answers error answer) :
      Course hook (es ++ [.call call] ++ [.report error answer]) (Attempt.error? answer)

def Coupling.logging (hook : ErrorHook ω) : Coupling ω (Logged ω S) where
  hook := hook
  hook' := hook.logged
  Related c c' := c'.unlogged = c ∧ Course hook c'.client.events none
  Ended e c c' := c'.unlogged = c ∧ Course hook c'.client.events (some e)
  cancelled h := h.1 ▸ rfl
  writes h := h.1 ▸ rfl
  seen h := h.1 ▸ rfl
  reset h := ⟨h.1 ▸ rfl, h.2⟩

end

namespace Coupling
variable {ω S α β : Type} [Source S] {hook : ErrorHook ω}

inductive Follows (hook : ErrorHook ω) (W : β → β → Prop) (call : Call S) :
    Attempt ω β → Attempt (Logged ω S) β → Prop
  | go {a a'} (hf : call.failure? = none) (hb : call.breach? = none)
      (h : (logging hook).Lockstep W a a') : Follows hook W call a a'
  | fail {e y} (hf : call.failure? = some e) (hy : W y y) :
      Follows hook W call (do Attempt.raise e; pure y) (do Attempt.raise e; pure y)
  | breach {e a a'} (hf : call.failure? = none) (hb : call.breach? = some e)
      (h : ∀ c, a.perform hook c = (.error e, c))
      (h' : ∀ c, a'.perform hook.logged c = (.error e, c)) : Follows hook W call a a'

theorem lockstep_call {W : β → β → Prop} {a : Action ω α} (call : α → Call S)
    {f : α → Attempt ω β} {f' : α → Attempt (Logged ω S) β}
    (h : ∀ x, Follows hook W (call x) (f x) (f' x)) :
    (logging hook).Lockstep W (liftM a >>= f) (liftM (Action.logged hook a call) >>= f') := by
  rintro _ c' ⟨rfl, hcourse⟩
  let x := (a.perform hook c'.unlogged).1
  let d := (a.perform hook c'.unlogged).2
  let d' : Context (Logged ω S) := d.logged (c'.client.events ++ [.call (call x)])
  have ha : (liftM a : Attempt ω α).perform hook c'.unlogged = (.ok x, d) := rfl
  have ha' : (liftM (Action.logged hook a call) : Attempt (Logged ω S) α).perform hook.logged c' =
      (.ok x, d') := rfl
  change (logging hook).Matched W ((liftM a >>= f).perform hook c'.unlogged)
    ((liftM (Action.logged hook a call) >>= f').perform hook.logged c')
  rw [Attempt.bind_of_ok ha, Attempt.bind_of_ok ha']
  generalize hb : f x = b
  generalize hb' : f' x = b'
  cases hb ▸ hb' ▸ h x with
  | go hf hn hl => exact hl d d' ⟨rfl, hn ▸ .called hcourse hf⟩
  | breach hf hs he he' =>
    rw [he, he']
    exact .error ⟨rfl, hs ▸ .called hcourse hf⟩
  | @fail e y hf hy =>
    rw [Attempt.perform_bind, Attempt.perform_bind, Attempt.perform_raise, Attempt.perform_raise]
    have hh : hook.logged.handle e d' = ((hook.handle e d).1,
        (hook.handle e d).2.logged (d'.client.events ++ [.report e (hook.handle e d).1])) := rfl
    rw [hh]
    cases hr : hook.handle e d with
    | mk r g =>
      have hans : hook.Answers e r := ⟨d, by rw [hr]⟩
      cases r with
      | ok => exact .ok hy ⟨rfl, .reported hcourse hf hans⟩
      | error => exact .error ⟨rfl, .reported hcourse hf hans⟩

theorem lockstep_make {factory : VisitorFactory ω S} {recipe : String} {role : Role} :
    (logging hook).Lockstep (fun v v' => v' = v.logged hook recipe role)
      (liftM factory : Attempt ω (SourceVisitor ω S))
      (liftM (factory.logged hook recipe role :
          Action (Logged ω S) (SourceVisitor (Logged ω S) S)) :
        Attempt (Logged ω S) (SourceVisitor (Logged ω S) S)) := by
  rintro _ c' ⟨rfl, hc⟩
  exact .ok rfl ⟨rfl, .called hc rfl⟩

theorem lockstep_accept {v : SourceVisitor ω S} {recipe : String} {role : Role} {source : S} :
    (logging hook).Lockstep Eq (liftM (v.accepts source) : Attempt ω Bool)
      (liftM ((v.logged hook recipe role).accepts source) : Attempt (Logged ω S) Bool) := by
  rintro _ c' ⟨rfl, hc⟩
  exact .ok rfl ⟨rfl, .called hc rfl⟩

end Coupling

namespace Stage
open Coupling
variable {ω S : Type} [Source S] {hook : ErrorHook ω} {stage : Stage ω S} {source : S}

theorem lockstep_logged_matchesSource {test : VisitorFactory ω S} {role : Role}
    (hr : role ≠ .visitor) :
    (logging hook).Lockstep Eq (stage.matchesSource test source)
      ((stage.logged hook).matchesSource (test.logged hook stage.name role) source) := by
  refine lockstep_make.bind fun v v' hv => ?_
  subst hv
  refine lockstep_accept.bind fun accepted _ he => ?_
  subst he
  cases accepted with
  | false => exact lockstep_pure rfl
  | true =>
    refine lockstep_call (.visit stage.name role source) fun result => ?_
    cases result with
    | error cause => exact .fail (Call.failure?_of_test hr source cause) rfl
    | ok kept =>
      refine .go rfl (Call.breach?_of_test hr source _) ?_
      cases kept with
      | none => exact lockstep_pure rfl
      | some after => exact lockstep_pure rfl

theorem lockstep_logged_admitsSource :
    (logging hook).Lockstep Eq (stage.admitsSource source)
      ((stage.logged hook).admitsSource source) := by
  have ht : (stage.logged hook).sourceTest =
      stage.sourceTest.map (VisitorFactory.logged hook stage.name .sourceTest) := rfl
  rw [admitsSource, admitsSource, ht]
  cases stage.sourceTest with
  | none => exact lockstep_pure rfl
  | some test => exact lockstep_logged_matchesSource (by decide)

theorem lockstep_logged_visitSource {factory : VisitorFactory ω S} :
    (logging hook).Lockstep (Option.Rel Eq) (stage.visitSource factory source)
      ((stage.logged hook).visitSource (factory.logged hook stage.name .visitor) source) := by
  refine lockstep_logged_admitsSource.bind fun admitted _ he => ?_
  subst he
  cases admitted with
  | false => exact lockstep_pure (.some rfl)
  | true =>
    refine lockstep_make.bind fun v v' hv => ?_
    subst hv
    refine lockstep_call (.visit stage.name .visitor source) fun result => ?_
    cases result with
    | error cause => exact .fail rfl (.some rfl)
    | ok kept =>
      cases kept with
      | none => exact .go rfl rfl (lockstep_pure .none)
      | some after =>
        by_cases hid : Tree.id after = Tree.id source
        · simp only [if_pos hid]
          exact .go rfl (if_pos hid) (lockstep_pure (.some rfl))
        · simp only [if_neg hid]
          exact .breach rfl (if_neg hid) (fun c => rfl) (fun c => rfl)

theorem lockstep_logged_transformBatch {f : BatchTransform ω S} {batch : List S} :
    (logging hook).Lockstep Eq (stage.transformBatch f batch)
      ((stage.logged hook).transformBatch (f.logged hook stage.name) batch) := by
  refine lockstep_call (.transform stage.name batch) fun result => ?_
  cases result with
  | error cause => exact .fail rfl rfl
  | ok after =>
    change Follows hook Eq _ (do Attempt.ofExcept (checkIds stage.name after); pure after)
      (do Attempt.ofExcept (checkIds stage.name after); pure after)
    cases hc : checkIds stage.name after with
    | ok => exact .go rfl (by simp [Call.breach?, hc]) fun c c' h => .ok rfl h
    | error e => exact .breach rfl (by simp [Call.breach?, hc]) (fun c => rfl) (fun c => rfl)

theorem lockstep_logged (stage : Stage ω S) :
    stage.Lockstep (logging hook) Eq (stage.logged hook) where
  name_eq := rfl
  displayName_eq := rfl
  repeats_eq := rfl
  gate := by
    change Option.Rel _ _ (stage.gate.map _)
    cases stage.gate with
    | none => exact .none
    | some test =>
      refine .some fun s s' hs => ?_
      subst hs
      exact lockstep_logged_matchesSource (by decide)
  visitor := by
    change Option.Rel _ _ (stage.visitor.map _)
    cases stage.visitor with
    | none => exact .none
    | some factory =>
      refine .some fun s s' hs => ?_
      subst hs
      exact lockstep_logged_visitSource
  batchTransform := by
    change Option.Rel _ _ (stage.batchTransform.map _)
    cases stage.batchTransform with
    | none => exact .none
    | some f =>
      refine .some fun b b' _ hb => ?_
      rw [List.forall₂_eq_eq_eq] at hb ⊢
      subst hb
      exact lockstep_logged_transformBatch

end Stage

namespace Scheduler
open Coupling
variable {ω S : Type} [Source S] {σ : Scheduler} {hook : ErrorHook ω} {recipe : Recipe ω S}
variable {batch : List S} {c : Context ω}

def loggedRun (σ : Scheduler) (hook : ErrorHook ω) (recipe : Recipe ω S) (batch : List S)
    (c : Context ω) : Except RecipeError (RecipeRun S) × Context (Logged ω S) :=
  (σ.run (recipe.mapStages (Stage.logged hook)) batch).perform hook.logged (c.logged [])

def events (σ : Scheduler) (hook : ErrorHook ω) (recipe : Recipe ω S) (batch : List S)
    (c : Context ω) : List (Event S) :=
  (σ.loggedRun hook recipe batch c).2.client.events

theorem checks_logged (σ : Scheduler) (hook : ErrorHook ω) (recipe : Recipe ω S) (batch : List S) :
    σ.checks (recipe.mapStages (Stage.logged hook)) batch = σ.checks recipe batch := by
  rw [← congrArg (σ.checks · batch) recipe.mapStages_id]
  exact checks_mapStages Source.likeness_eq (fun _ _ => rfl) (List.forall₂_refl batch)

theorem loggedRun_of_rejected {e : RecipeError} (h : σ.checks recipe batch = .error e) :
    σ.loggedRun hook recipe batch c = (.error e, c.logged []) := by
  rw [loggedRun, run, checks_logged, h, Attempt.bind_of_error (Attempt.perform_ofExcept _ _ _)]

theorem matched_loggedRun (hook : ErrorHook ω) (c : Context ω)
    (ha : σ.checks recipe batch = .ok ()) :
    (logging hook).Matched Eq ((σ.run recipe batch).perform hook c)
      (σ.loggedRun hook recipe batch c) := by
  rw [← recipe.mapStages_id] at ha
  have hl : (logging hook).Lockstep Eq (σ.run (recipe.mapStages id) batch)
      (σ.run (recipe.mapStages (Stage.logged hook)) batch) :=
    lockstep_run_eq (fun stage _ => stage.lockstep_logged) fun e c c' he _ => by simp [ha] at he
  rw [recipe.mapStages_id] at hl
  exact hl c (c.logged []) ⟨rfl, .nil⟩

theorem perform_run_eq : (σ.run recipe batch).perform hook c =
    ((σ.loggedRun hook recipe batch c).1, (σ.loggedRun hook recipe batch c).2.unlogged) := by
  cases hc : σ.checks recipe batch with
  | error e =>
    rw [loggedRun_of_rejected hc, run, hc, Attempt.bind_of_error (Attempt.perform_ofExcept _ _ _)]
    rfl
  | ok =>
    have hm := matched_loggedRun hook c hc
    generalize (σ.run recipe batch).perform hook c = o at hm
    generalize σ.loggedRun hook recipe batch c = o' at hm
    cases hm with
    | ok hv hd => rw [hv, ← hd.1]
    | error hd => rw [← hd.1]

theorem course_events (hook : ErrorHook ω) (c : Context ω) (ha : σ.checks recipe batch = .ok ()) :
    Course hook (σ.events hook recipe batch c)
      (Attempt.error? ((σ.run recipe batch).perform hook c).1) := by
  have hm := matched_loggedRun hook c ha
  unfold events
  generalize (σ.run recipe batch).perform hook c = o at hm
  generalize σ.loggedRun hook recipe batch c = o' at hm
  cases hm with
  | ok hv hd => exact hd.2
  | error hd => exact hd.2

end Scheduler

end Codemod
