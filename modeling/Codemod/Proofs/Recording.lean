import Codemod.Proofs.CallLog

namespace Codemod

namespace Coupling
variable {ω S α β : Type} {hook : ErrorHook ω} {P : Event S → Prop}

/-- A run beside one that keeps a log, in which every entry has a property. -/
def recording (hook : ErrorHook ω) (P : Event S → Prop) : Coupling ω (Logged ω S) where
  hook := hook
  hook' := hook.logged
  Related c c' := c'.unlogged = c ∧ ∀ event ∈ c'.client.events, P event
  Ended _ c c' := c'.unlogged = c ∧ ∀ event ∈ c'.client.events, P event
  cancelled h := h.1 ▸ rfl
  writes h := h.1 ▸ rfl
  seen h := h.1 ▸ rfl
  reset h := ⟨h.1 ▸ rfl, h.2⟩

theorem lockstep_lift_bind {ω' α' β' : Type} {κ : Coupling ω ω'} {V : α → α' → Prop}
    {W : β → β' → Prop} {a : Action ω α} {a' : Action ω' α'} {f : α → Action ω β}
    {f' : α' → Action ω' β'} (h : κ.Lockstep V (liftM a) (liftM a'))
    (hf : ∀ x x', V x x' → κ.Lockstep W (liftM (f x)) (liftM (f' x'))) :
    κ.Lockstep W (liftM (a >>= f)) (liftM (a' >>= f')) :=
  h.bind hf

theorem recorded_append {events : List (Event S)} {event : Event S}
    (h : ∀ event ∈ events, P event) (he : P event) : ∀ e ∈ events ++ [event], P e := by
  intro e hm
  rcases List.mem_append.mp hm with hm | hm
  · exact h e hm
  · exact List.mem_singleton.mp hm ▸ he

theorem routes_recording (hP : ∀ error answer, P (.report error answer)) :
    (recording hook P).Routes where
  ended h _ := h
  raise e := by
    rintro _ c' ⟨rfl, hc⟩
    rw [Attempt.perform_raise, Attempt.perform_raise]
    change (recording hook P).Matched Eq (hook.handle e c'.unlogged)
      ((hook.handle e c'.unlogged).1, (hook.handle e c'.unlogged).2.logged
        (c'.client.events ++ [.report e (hook.handle e c'.unlogged).1]))
    cases hook.handle e c'.unlogged with
    | mk answer d =>
      have hl := recorded_append hc (hP e answer)
      cases answer with
      | ok => exact .ok rfl ⟨rfl, hl⟩
      | error => exact .error ⟨rfl, hl⟩

theorem lockstep_recorded {a : Action ω α} {call : α → Call S}
    (hP : ∀ c, P (.call (call (a.perform hook c).1))) :
    (recording hook P).Lockstep Eq (liftM a) (liftM (Action.logged hook a call)) := by
  rintro _ c' ⟨rfl, hc⟩
  exact .ok rfl ⟨rfl, recorded_append hc (hP _)⟩

end Coupling

theorem VisitResult.matched_self {S : Type} [Source S] (s : S) (result : VisitResult S) :
    VisitResult.Matched Eq s result result := by
  match result with
  | .error _ => exact .failed
  | .ok none => exact .dropped
  | .ok (some _) => exact .kept rfl

theorem Stage.lockstep_of_factories {ω ω' S : Type} [Source S] {κ : Coupling ω ω'}
    {V : S → S → Prop} {stage : Stage ω S} {stage' : Stage ω' S} (hV : Source.Likeness V)
    (hκ : κ.Routes) (hname : stage'.name = stage.name)
    (hdisplay : stage'.displayName = stage.displayName) (hrepeats : stage'.repeats = stage.repeats)
    (hgate : Option.Rel (VisitorFactory.Lockstep κ V) stage.gate stage'.gate)
    (htest : Option.Rel (VisitorFactory.Lockstep κ V) stage.sourceTest stage'.sourceTest)
    (hvisitor : Option.Rel (VisitorFactory.Lockstep κ V) stage.visitor stage'.visitor)
    (hbatch : stage.batchTransform = none) (hbatch' : stage'.batchTransform = none) :
    stage.Lockstep κ V stage' where
  name_eq := hname
  displayName_eq := hdisplay
  repeats_eq := hrepeats
  gate := by
    generalize stage.gate = g at hgate ⊢
    generalize stage'.gate = g' at hgate ⊢
    cases hgate with
    | none => exact .none
    | some ht => exact .some fun s s' hs => lockstep_matchesSource hV hκ hname ht hs
  visitor := by
    generalize stage.visitor = v at hvisitor ⊢
    generalize stage'.visitor = v' at hvisitor ⊢
    cases hvisitor with
    | none => exact .none
    | some hf =>
      refine .some fun s s' hs => lockstep_visitSource hV hκ hname ?_ hf hs
      unfold admitsSource
      generalize stage.sourceTest = t at htest ⊢
      generalize stage'.sourceTest = t' at htest ⊢
      cases htest with
      | none => exact Coupling.lockstep_pure rfl
      | some ht => exact lockstep_matchesSource hV hκ hname ht hs
  batchTransform := by
    rw [hbatch, hbatch']
    exact .none

namespace Scheduler
open Coupling
variable {ω S : Type} [Source S] {σ : Scheduler} {hook : ErrorHook ω} {recipe : Recipe ω S}
variable {batch : List S} {P : Event S → Prop} {f : Stage ω S → Stage (Logged ω S) S}

theorem recorded_run (hP : ∀ error answer, P (.report error answer))
    (hf : ∀ stage ∈ recipe.stages, stage.Lockstep (recording hook P) Eq (f stage))
    (c : Context ω) :
    let recorded := (σ.run (recipe.mapStages f) batch).perform hook.logged (c.logged [])
    (σ.run recipe batch).perform hook c = (recorded.1, recorded.2.unlogged) ∧
      ∀ event ∈ recorded.2.client.events, P event := by
  have hl : (recording hook P).Lockstep Eq (σ.run (recipe.mapStages id) batch)
      (σ.run (recipe.mapStages f) batch) :=
    lockstep_run_eq hf fun e c c' _ h => (routes_recording hP).ended h e
  rw [recipe.mapStages_id] at hl
  have hm := hl c (c.logged []) ⟨rfl, by simp [Context.logged]⟩
  change (recording hook P).Matched Eq ((σ.run recipe batch).perform hook c)
    ((σ.run (recipe.mapStages f) batch).perform hook.logged (c.logged [])) at hm
  generalize (σ.run recipe batch).perform hook c = o at hm
  generalize (σ.run (recipe.mapStages f) batch).perform hook.logged (c.logged []) = o' at hm
  cases hm with
  | ok hv hd => exact ⟨by rw [hv, ← hd.1], hd.2⟩
  | error hd => exact ⟨by rw [← hd.1], hd.2⟩

end Scheduler

end Codemod
