import Codemod.Proofs.Cancellation
import Codemod.Proofs.Itinerary
import Codemod.Proofs.Muffling

namespace Codemod

section
variable {S : Type}

def Event.reported? : Event S → Option RecipeError
  | .call _ => none
  | .report error _ => some error

def reports (events : List (Event S)) : List RecipeError :=
  events.filterMap Event.reported?

theorem reports_call (events : List (Event S)) (call : Call S) :
    reports (events ++ [.call call]) = reports events := by
  simp [reports, Event.reported?]

theorem reports_report (events : List (Event S)) (error : RecipeError)
    (answer : Except RecipeError Unit) :
    reports (events ++ [.report error answer]) = reports events ++ [error] := by
  simp [reports, Event.reported?]

end

section
variable {ω S : Type} {hook : ErrorHook ω}

def Attempt.Reporting (S : Type) (hook : ErrorHook ω) : Attempt.Account (Logged ω S) :=
  fun a r es => ∀ c, ∃ d, a.perform hook.logged c = (r, d) ∧ c.Alike d ∧
    reports d.client.events = reports c.client.events ++ es

theorem Attempt.lawful_reporting (hh : hook.Swallows) : Attempt.Lawful (Reporting S hook) where
  returns _ c := ⟨c, rfl, .refl c, (List.append_nil _).symm⟩
  throws _ c := ⟨c, rfl, .refl c, (List.append_nil _).symm⟩
  raises error c := by
    obtain ⟨hok, hal⟩ := hh error c.unlogged
    refine ⟨(hook.logged.handle error c).2, ?_, ⟨hal.cancelled, hal.writes, hal.seen⟩,
      reports_report _ _ _⟩
    have ha : (hook.logged.handle error c).1 = .ok () := hok
    rw [perform_raise, ← ha]
  chains ha hf c := by
    obtain ⟨d, hd, hcd, hr⟩ := ha c
    obtain ⟨e, he, hde, hs⟩ := hf d
    refine ⟨e, (bind_of_ok hd).trans he, hcd.trans hde, ?_⟩
    rw [hs, hr, List.append_assoc]
  fails ha c := by
    obtain ⟨d, hd, hcd, hr⟩ := ha c
    exact ⟨d, bind_of_error hd, hcd, hr⟩

theorem Attempt.Reporting.inv {α : Type} {a : Attempt (Logged ω S) α} {r r' : Except RecipeError α}
    {es : List RecipeError} {c d : Context (Logged ω S)} (h : Reporting S hook a r es)
    (ha : a.perform hook.logged c = (r', d)) :
    r' = r ∧ c.Alike d ∧ reports d.client.events = reports c.client.events ++ es := by
  obtain ⟨e, he, hal, hr⟩ := h c
  cases ha.symm.trans he
  exact ⟨rfl, hal, hr⟩

theorem Attempt.reporting_logged {α : Type} {a : Action ω α} {x : α}
    (ha : ∀ c, a.perform hook c = (x, c)) (call : α → Call S) :
    Reporting S hook (liftM (Action.logged hook a call) : Attempt (Logged ω S) α) (.ok x) [] := by
  intro c
  refine ⟨_, perform_logged_of_constant ha call _ c, ⟨rfl, rfl, rfl⟩, ?_⟩
  rw [List.append_nil]
  exact reports_call _ _

theorem VisitorFactory.Each.answers_logged (hh : hook.Swallows) {factory : VisitorFactory ω S}
    (h : factory.Each hook (Action.IsConstant hook)) (c : Context ω) (recipe : String)
    (role : Role) : (factory.logged hook recipe role).Answers (Attempt.Reporting S hook) := by
  obtain ⟨v, hmake, hv⟩ := h.constant c
  refine ⟨v.logged hook recipe role, ?_, fun s => ?_, fun s => ?_⟩
  · have hQ := Attempt.lawful_reporting (S := S) hh
    have hm := Attempt.reporting_logged hmake fun _ => Call.make (S := S) recipe role
    exact hQ.chains (f := fun v => pure (v.logged hook recipe role)) hm (hQ.returns _)
  · obtain ⟨accepted, ha⟩ := hv.accepts s
    exact ⟨accepted, Attempt.reporting_logged ha _⟩
  · obtain ⟨result, hr⟩ := hv.visit s
    exact ⟨result, Attempt.reporting_logged hr _⟩

theorem Stage.IsConstant.answers_logged (hh : hook.Swallows) {stage : Stage ω S}
    (h : stage.IsConstant hook) (c : Context ω) :
    (stage.logged hook).Answers (Attempt.Reporting S hook) where
  gate ht := by
    obtain ⟨test, hg, rfl⟩ := Option.map_eq_some_iff.mp ht
    exact (h.gate hg).answers_logged hh c _ _
  sourceTest ht := by
    obtain ⟨test, hs, rfl⟩ := Option.map_eq_some_iff.mp ht
    exact (h.sourceTest hs).answers_logged hh c _ _
  visitor hv := by
    obtain ⟨factory, hf, rfl⟩ := Option.map_eq_some_iff.mp hv
    exact (h.visitor hf).answers_logged hh c _ _
  batchTransform hb batch := by
    obtain ⟨f, hf, rfl⟩ := Option.map_eq_some_iff.mp hb
    obtain ⟨result, hr⟩ := h.batchTransform hf batch
    exact ⟨result, Attempt.reporting_logged hr _⟩

theorem Recipe.answers_logged (hh : hook.Swallows) {recipe : Recipe ω S}
    (hs : ∀ stage ∈ recipe.stages, stage.IsConstant hook) (c : Context ω) :
    ∀ stage ∈ (recipe.mapStages (Stage.logged hook)).stages,
      stage.Answers (Attempt.Reporting S hook) := by
  intro stage hm
  obtain ⟨original, ho, rfl⟩ := mem_stages_mapStages.mp hm
  exact (hs original ho).answers_logged hh c

end

namespace Invocation
variable {ω S : Type} {x x' : Invocation (Logged ω S) S} {errors errors' : List RecipeError}

def reports (x : Invocation (Logged ω S) S) : List RecipeError :=
  (Codemod.reports x.finish.client.events).drop (Codemod.reports x.entry.client.events).length

structure Mirrors (x x' : Invocation (Logged ω S) S) : Prop where
  cycle : x'.cycle = x.cycle
  path : x'.path = x.path
  stage : x'.stage = x.stage
  admitted : x'.admitted = x.admitted
  before : x'.before = x.before
  after : x'.after = x.after
  reports : x'.reports.Perm x.reports

structure Tells (x : Invocation (Logged ω S) S) (errors : List RecipeError) : Prop where
  gated : x.entry.Alike x.gated
  finish : x.entry.Alike x.finish
  events : Codemod.reports x.finish.client.events =
    Codemod.reports x.entry.client.events ++ errors

theorem Tells.reports_eq (h : x.Tells errors) : x.reports = errors := by
  rw [reports, h.events, List.drop_left]

theorem Tells.mirrors {c g f : Context (Logged ω S)} (h : x.Tells errors)
    (h' : Tells { x with entry := c, gated := g, finish := f } errors')
    (hp : errors'.Perm errors) : x.Mirrors { x with entry := c, gated := g, finish := f } where
  cycle := rfl
  path := rfl
  stage := rfl
  admitted := rfl
  before := rfl
  after := rfl
  reports := by rwa [h.reports_eq, h'.reports_eq]

theorem Tells.self (h : x.Tells errors) : x.Tells x.reports := by
  rwa [h.reports_eq]

theorem Mirrors.below_eq (h : x.Mirrors x') (children : List (Recipe (Logged ω S) S)) :
    x'.below children = x.below children := by
  rw [below, below, h.admitted, h.path]

variable [Source S] {σ : Scheduler} {hook : ErrorHook ω}

theorem Mirrors.replay_eq (h : x.Mirrors x') (ht : x.Tells errors) (ht' : x'.Tells errors')
    (p : Pass S) : p.replay x'.applications = p.replay x.applications := by
  have happ : x'.applies = x.applies := by rw [applies, applies, h.admitted, h.stage]
  have hw : x.finish.writes = x.gated.writes := ht.finish.writes.trans ht.gated.writes.symm
  have hw' : x'.finish.writes = x'.gated.writes := ht'.finish.writes.trans ht'.gated.writes.symm
  have hd : x'.application.diff = x.application.diff := by
    change Diff.between x'.before x'.after = Diff.between x.before x.after
    rw [h.before, h.after]
  have hasks : x'.application.asks = x.application.asks := by
    change (x'.stage.repeats &&
        (!x'.application.diff.isEmpty || x'.finish.writes != x'.gated.writes)) =
      (x.stage.repeats && (!x.application.diff.isEmpty || x.finish.writes != x.gated.writes))
    rw [hd, hw, hw', h.stage, bne_self_eq_false, bne_self_eq_false]
  have ha : p.apply x'.application = p.apply x.application := by
    change Pass.mk x'.after (p.ledger.recordDiff x'.application.diff x'.path)
        (p.anotherCycle || x'.application.asks)
      = Pass.mk x.after (p.ledger.recordDiff x.application.diff x.path)
        (p.anotherCycle || x.application.asks)
    rw [hasks, hd, h.after, h.path]
  rw [applications, applications, happ]
  split
  case isTrue => exact ha
  case isFalse => rfl

theorem Performed.mirrored (hh : hook.Swallows)
    (hs : x.stage.Answers (Attempt.Reporting S hook)) (hx : x.Performed σ hook.logged) :
    x.Tells x.reports ∧ ∀ (τ : Scheduler) c, c.cancelled = false →
      ∃ x' : Invocation (Logged ω S) S, x'.Performed τ hook.logged ∧ x'.entry = c ∧ x.Mirrors x' ∧
        x'.Tells x'.reports := by
  have hQ := Attempt.lawful_reporting (S := S) hh
  obtain ⟨admitted, es, hg⟩ := Stage.returns_admits hQ hs x.before
  obtain ⟨hm, hal, hr⟩ := hg.inv hx.gate
  cases hm
  cases happ : x.applies with
  | false =>
    obtain ⟨hafter, hfinish⟩ := hx.idle happ
    have ht : x.Tells es := ⟨hal, hfinish ▸ hal, hfinish ▸ hr⟩
    refine ⟨ht.self, fun τ c hc => ?_⟩
    obtain ⟨g, hgate, hal', hr'⟩ := hg c
    let x' : Invocation (Logged ω S) S := { x with entry := c, gated := g, finish := g }
    have ht' : x'.Tells es := ⟨hal', hal', hr'⟩
    have hx' : x'.Performed τ hook.logged :=
      ⟨hc, hgate, fun h => absurd (happ.symm.trans h) Bool.false_ne_true, fun _ => ⟨hafter, rfl⟩⟩
    exact ⟨x', hx', rfl, ht.mirrors ht' (.refl es), ht'.self⟩
  | true =>
    have hf := hx.transform happ
    rcases Scheduler.returns_or_breaks_transform hQ hs x.before with ⟨after, fs, hret⟩ | hbreak
    case inr =>
      obtain ⟨breach, fs, hb⟩ := hbreak σ x.cycle x.path
      cases (hb.inv hf).1
    obtain ⟨fs₁, hp₁, hq₁⟩ := hret σ x.cycle x.path
    obtain ⟨ha, hal₁, hr₁⟩ := hq₁.inv hf
    cases ha
    have ht : x.Tells (es ++ fs₁) := by
      refine ⟨hal, hal.trans hal₁, ?_⟩
      rw [hr₁, hr, List.append_assoc]
    refine ⟨ht.self, fun τ c hc => ?_⟩
    obtain ⟨g, hgate, halg, hrg⟩ := hg c
    obtain ⟨fs₂, hp₂, hq₂⟩ := hret τ x.cycle x.path
    obtain ⟨f, htransform, half, hrf⟩ := hq₂ g
    let x' : Invocation (Logged ω S) S := { x with entry := c, gated := g, finish := f }
    have ht' : x'.Tells (es ++ fs₂) := by
      refine ⟨halg, halg.trans half, ?_⟩
      rw [hrf, hrg, List.append_assoc]
    have hx' : x'.Performed τ hook.logged :=
      ⟨hc, hgate, fun _ => htransform, fun h => absurd (h.symm.trans happ) Bool.false_ne_true⟩
    exact ⟨x', hx', rfl, ht.mirrors ht' ((hp₂.trans hp₁.symm).append_left es), ht'.self⟩

end Invocation

namespace Scheduler
variable {ω S : Type} [Source S] {σ τ : Scheduler} {hook : ErrorHook ω}
variable {recipe : Recipe (Logged ω S) S} {batch : List S} {m m' : Moment (Logged ω S) S}
variable {own trail : List (Invocation (Logged ω S) S)} {c d : Context (Logged ω S)}

theorem Over.of_alike (h : σ.Over m) (hmax : τ.config.maxCycles = σ.config.maxCycles)
    (hmin : τ.config.minCycles = σ.config.minCycles) (hc : m.context.Alike c) :
    τ.Over { m with context := c } where
  rows := h.rows
  reason := by
    rw [hmax, hmin]
    have ha : Moment.asksAgain { m with context := c } = m.asksAgain := by
      rw [Moment.asksAgain, Moment.asksAgain, hc.hasNewMessages]
    rw [ha, hc.cancelled]
    exact h.reason

theorem Step.mirrored (hh : hook.Swallows) (hmax : τ.config.maxCycles = σ.config.maxCycles)
    (hmin : τ.config.minCycles = σ.config.minCycles) (hs : Step σ hook.logged recipe m own m')
    (ha : ∀ x ∈ own, x.stage.Answers (Attempt.Reporting S hook)) (hc : m.context.Alike c) :
    ∃ own' d, Step τ hook.logged recipe { m with context := c } own' { m' with context := d } ∧
      m'.context.Alike d ∧ List.Forall₂ Invocation.Mirrors own own' := by
  cases hs with
  | close => exact ⟨[], c, .close, hc, .nil⟩
  | skip hcancel => exact ⟨[], c, .skip (hc.cancelled.trans hcancel), hc, .nil⟩
  | again hr hcancel hl hask =>
    have hasks : Moment.asksAgain { m with context := c } = m.asksAgain := by
      rw [Moment.asksAgain, Moment.asksAgain, hc.hasNewMessages]
    refine ⟨[], c.resetNewMessages, .again hr (hc.uncancelled hcancel) (hmax ▸ hl) ?_,
      ⟨hc.cancelled, hc.writes, hc.writes⟩, .nil⟩
    rw [hmin, hasks]
    exact hask
  | @invoke opening path position children rs rows p x hx hp hb =>
    obtain ⟨ht, hmirror⟩ := hx.mirrored hh (ha x (List.mem_singleton.mpr rfl))
    obtain ⟨x', hx', rfl, hm, ht'⟩ := hmirror τ c (hc.uncancelled hx.uncancelled)
    have hp' : x'.path = path ++ [x'.stage.frame position] := by rw [hm.path, hm.stage, hp]
    have hstep : Step τ hook.logged recipe
        ⟨x'.cycle, opening, ⟨path, position, ⟨x'.stage, children⟩ :: rs⟩ :: rows, p, x'.entry⟩ [x']
        ⟨x'.cycle, opening, x'.below children ++ ⟨path, position + 1, rs⟩ :: rows,
          p.replay x'.applications, x'.finish⟩ :=
      .invoke hx' hp' (hb.trans hm.before.symm)
    rw [hm.cycle, hm.stage, hm.below_eq, hm.replay_eq ht ht'] at hstep
    exact ⟨[x'], x'.finish, hstep, (ht.finish.symm.trans hc).trans ht'.finish, .cons hm .nil⟩

theorem Step.reports_eq (hh : hook.Swallows) (hs : Step σ hook.logged recipe m own m')
    (ha : ∀ x ∈ own, x.stage.Answers (Attempt.Reporting S hook)) :
    reports m'.context.client.events =
      reports m.context.client.events ++ own.flatMap Invocation.reports := by
  cases hs with
  | close => simp
  | skip => simp
  | again => exact (List.append_nil _).symm
  | @invoke opening path position children rs rows p x hx hp hb =>
    rw [List.flatMap_singleton]
    exact (hx.mirrored hh (ha x (List.mem_singleton.mpr rfl))).1.events

theorem Fails.mirrored {stage : Stage (Logged ω S) S} {error : RecipeError} (hh : hook.Swallows)
    (hf : Fails σ hook.logged m stage error d) (hs : stage.Answers (Attempt.Reporting S hook))
    (hc : m.context.Alike c) (τ : Scheduler) :
    (∃ breach, error = .contractViolation stage.name breach) ∧
      ∃ breach d', Fails τ hook.logged { m with context := c } stage
        (.contractViolation stage.name breach) d' := by
  have hQ := Attempt.lawful_reporting (S := S) hh
  cases hf with
  | @gate n opening path position stage children rs rows p c _ _ hcancel hg =>
    obtain ⟨admitted, es, hq⟩ := Stage.returns_admits hQ hs p.batch
    cases (hq.inv hg).1
  | @transform n opening path position stage children rs rows p c₀ g _ _ hcancel hg ht hf =>
    obtain ⟨admitted, es, hq⟩ := Stage.returns_admits hQ hs p.batch
    cases (hq.inv hg).1
    rcases returns_or_breaks_transform hQ hs p.batch with ⟨after, fs, hret⟩ | hbreak
    · obtain ⟨fs', -, hq'⟩ := hret σ n (path ++ [stage.frame position])
      cases (hq'.inv hf).1
    · obtain ⟨breach, fs, hb⟩ := hbreak σ n (path ++ [stage.frame position])
      obtain ⟨breach', fs', hb'⟩ := hbreak τ n (path ++ [stage.frame position])
      obtain ⟨g', hgate, -, -⟩ := hq c
      obtain ⟨d', htransform, -, -⟩ := hb' g'
      exact ⟨⟨breach, Except.error.inj (hb.inv hf).1⟩, breach', d',
        .transform (hc.uncancelled hcancel) hgate ht htransform⟩

namespace Reaches

theorem mirrored (hh : hook.Swallows) (hmax : τ.config.maxCycles = σ.config.maxCycles)
    (hmin : τ.config.minCycles = σ.config.minCycles)
    (hs : ∀ stage ∈ recipe.stages, stage.Answers (Attempt.Reporting S hook))
    (ha : τ.checks recipe batch = .ok ())
    (h : Reaches σ hook.logged recipe batch c trail m) :
    ∃ trail' d, Reaches τ hook.logged recipe batch c trail' { m with context := d } ∧
      m.context.Alike d ∧ List.Forall₂ Invocation.Mirrors trail trail' := by
  induction h with
  | start _ hc => exact ⟨[], _, .start ha hc, .refl _, .nil⟩
  | step h hstep ih =>
    obtain ⟨trail', d, h', hd, hall⟩ := ih
    obtain ⟨own', e, hstep', he, hown⟩ := hstep.mirrored hh hmax hmin
      (fun x hx => hs x.stage (h.mem_stages_of_step hstep hx)) hd
    exact ⟨trail' ++ own', e, h'.step hstep', he, List.rel_append hall hown⟩

theorem reports_eq (hh : hook.Swallows)
    (hs : ∀ stage ∈ recipe.stages, stage.Answers (Attempt.Reporting S hook))
    (h : Reaches σ hook.logged recipe batch c trail m) :
    reports m.context.client.events =
      reports c.client.events ++ trail.flatMap Invocation.reports := by
  induction h with
  | start => exact (List.append_nil _).symm
  | step h hstep ih =>
    rw [hstep.reports_eq hh fun x hx => hs x.stage (h.mem_stages_of_step hstep hx), ih,
      List.flatMap_append, List.append_assoc]

theorem exists_last_mirrored (hh : hook.Swallows) (hmax : τ.config.maxCycles = σ.config.maxCycles)
    (hmin : τ.config.minCycles = σ.config.minCycles)
    (hs : ∀ stage ∈ recipe.stages, stage.Answers (Attempt.Reporting S hook))
    (ha : σ.checks recipe batch = .ok ()) (ha' : τ.checks recipe batch = .ok ())
    (hc : c.cancelled = false) :
    ∃ trail trail' m d, Reaches σ hook.logged recipe batch c trail m ∧
      Reaches τ hook.logged recipe batch c trail' { m with context := d } ∧
      List.Forall₂ Invocation.Mirrors trail trail' ∧
      ((σ.Over m ∧ τ.Over { m with context := d }) ∨
        ∃ stage breach breach' e e',
          Fails σ hook.logged m stage (.contractViolation stage.name breach) e ∧
          Fails τ hook.logged { m with context := d } stage
            (.contractViolation stage.name breach') e') := by
  have hstart : Reaches σ hook.logged recipe batch c [] _ := .start ha hc
  obtain ⟨trail, m, h, hlast⟩ := hstart.exists_last
  obtain ⟨trail', d, h', hd, hall⟩ := h.mirrored hh hmax hmin hs ha'
  refine ⟨trail, trail', m, d, h, h', hall, ?_⟩
  rcases hlast with ho | ⟨stage, error, e, hf⟩
  · exact .inl ⟨ho, ho.of_alike hmax hmin hd⟩
  · have hstage := hs stage (h.mem_stages_of_fails hf)
    obtain ⟨⟨breach, rfl⟩, breach', e', hf'⟩ := hf.mirrored hh hstage hd τ
    exact .inr ⟨stage, breach, breach', e, e', hf, hf'⟩

end Reaches

end Scheduler

namespace Scheduler
variable {ω S : Type} [Source S]

inductive Journal (σ : Scheduler) (hook : ErrorHook ω) (recipe : Recipe ω S) (batch : List S)
    (c : Context ω) : List (Invocation (Logged ω S) S) → Prop
  | refused {error} (hc : σ.checks recipe batch = .error error) : Journal σ hook recipe batch c []
  | cancelled (hc : c.cancelled = true) : Journal σ hook recipe batch c []
  | over {trail m}
      (h : Reaches σ hook.logged (recipe.mapStages (Stage.logged hook)) batch (c.logged []) trail m)
      (ho : σ.Over m) : Journal σ hook recipe batch c trail
  | failed {trail m stage error d}
      (h : Reaches σ hook.logged (recipe.mapStages (Stage.logged hook)) batch (c.logged []) trail m)
      (hf : Fails σ hook.logged m stage error d) : Journal σ hook recipe batch c trail

variable {σ τ : Scheduler} {hook : ErrorHook ω} {recipe : Recipe ω S}

theorem visit_order_is_invisible (hh : hook.Swallows)
    (hs : ∀ stage ∈ recipe.stages, stage.IsConstant hook) (hn : recipe.hasBlankName = false)
    (hv : σ.config.fault? = none) (hmax : τ.config.maxCycles = σ.config.maxCycles)
    (hmin : τ.config.minCycles = σ.config.minCycles) (batch : List S) (c : Context ω) :
    ∃ trail trail', σ.Journal hook recipe batch c trail ∧ τ.Journal hook recipe batch c trail' ∧
      List.Forall₂ Invocation.Mirrors trail trail' ∧
      ((∃ stage ∈ recipe.stages, ∃ breach breach',
          ((σ.run recipe batch).perform hook c).1 =
            .error (.contractViolation stage.name breach) ∧
          ((τ.run recipe batch).perform hook c).1 =
            .error (.contractViolation stage.name breach')) ∨
        ∃ run, ((σ.run recipe batch).perform hook c).1 = .ok run ∧
          ((τ.run recipe batch).perform hook c).1 = .ok run ∧
          reports (σ.events hook recipe batch c) = trail.flatMap Invocation.reports ∧
          reports (τ.events hook recipe batch c) = trail'.flatMap Invocation.reports) := by
  have hv' : τ.config.fault? = none := by
    rw [Config.fault?_eq_none_iff, hmax, hmin]
    exact Config.fault?_eq_none_iff.mp hv
  cases hi : checkIds recipe.stage.name batch with
  | error error =>
    obtain ⟨breach, rfl⟩ := checkIds_eq_error hi
    have hc := (checks_of_valid hv hn).trans hi
    have hc' := (checks_of_valid hv' hn).trans hi
    exact ⟨[], [], .refused hc, .refused hc', .nil,
      .inl ⟨recipe.stage, recipe.mem_stages_self, breach, breach, (rejected_run hc).2,
        (rejected_run hc').2⟩⟩
  | ok =>
    have ha := (checks_logged σ hook recipe batch).trans ((checks_of_valid hv hn).trans hi)
    have ha' := (checks_logged τ hook recipe batch).trans ((checks_of_valid hv' hn).trans hi)
    rw [perform_run_eq, perform_run_eq, events, events, loggedRun, loggedRun]
    cases hcancel : c.cancelled with
    | true =>
      refine ⟨[], [], .cancelled hcancel, .cancelled hcancel, .nil,
        .inr ⟨⟨[], batch.map Source.unstamp, 0⟩, ?_⟩⟩
      rw [run_cancelled_before ha hcancel, run_cancelled_before ha' hcancel]
      exact ⟨rfl, rfl, rfl, rfl⟩
    | false =>
      have hl := Recipe.answers_logged hh hs c
      obtain ⟨trail, trail', m, d, h, h', hall, hlast⟩ :=
        Reaches.exists_last_mirrored (c := c.logged []) hh hmax hmin hl ha ha' hcancel
      rcases hlast with ⟨ho, ho'⟩ | ⟨stage, breach, breach', e, e', hf, hf'⟩
      · let run := Report.ofRun batch m.pass.batch m.pass.ledger m.cycle
        refine ⟨trail, trail', .over h ho, .over h' ho', hall, .inr ⟨run, ?_⟩⟩
        rw [h.run_of_over ho, h'.run_of_over ho']
        exact ⟨rfl, rfl, h.reports_eq hh hl, h'.reports_eq hh hl⟩
      · obtain ⟨original, ho, rfl⟩ := Recipe.mem_stages_mapStages.mp (h.mem_stages_of_fails hf)
        refine ⟨trail, trail', .failed h hf, .failed h' hf', hall,
          .inl ⟨original, ho, breach, breach', ?_⟩⟩
        rw [h.run_of_fails hf, h'.run_of_fails hf']
        exact ⟨rfl, rfl⟩

end Scheduler

namespace Sample

-- Any batch is long enough to be visited out of order.
def hasty : Scheduler where
  config := { maxCycles := 5, parallelThreshold := 0 }
  order := lastFirst

theorem jammed_run_in_any_order :
    ((hasty.run jammed batch).perform .record start).2.errors =
        [.transformFailed "jammed" (.failed "full"),
          .visitFailed "once" ⟨["a"]⟩ (.failed "z"),
          .applicabilityFailed "stumbling" ⟨["a"]⟩ (.failed "y"),
          .applicabilityFailed "stumbling" ⟨["a"]⟩ (.failed "z"),
          .visitFailed "stumbling" ⟨["a"]⟩ (.failed "y")] ∧
      ∃ trail trail', scheduler.Journal .record jammed batch start trail ∧
        hasty.Journal .record jammed batch start trail' ∧
        List.Forall₂ Invocation.Mirrors trail trail' ∧
        ((∃ stage ∈ jammed.stages, ∃ breach breach',
            ((scheduler.run jammed batch).perform .record start).1 =
              .error (.contractViolation stage.name breach) ∧
            ((hasty.run jammed batch).perform .record start).1 =
              .error (.contractViolation stage.name breach')) ∨
          ∃ run, ((scheduler.run jammed batch).perform .record start).1 = .ok run ∧
            ((hasty.run jammed batch).perform .record start).1 = .ok run ∧
            reports (scheduler.events .record jammed batch start) =
              trail.flatMap Invocation.reports ∧
            reports (hasty.events .record jammed batch start) =
              trail'.flatMap Invocation.reports) := by
  have hn : jammed.hasBlankName = false := by decide +kernel
  have hrun := Scheduler.visit_order_is_invisible (σ := scheduler) (τ := hasty)
    ErrorHook.swallows_record constant_jammed hn rfl rfl rfl batch start
  exact ⟨by decide +kernel, hrun⟩

end Sample

end Codemod
