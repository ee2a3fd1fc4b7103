import Codemod.Proofs.Rounds

namespace Codemod

/-- A recipe's own part of its invocation: its gate and, where that lets the batch through, its own
transform. Its children are no part of it. -/
structure Invocation (ω S : Type) where
  cycle : Nat
  path : RecipePath
  stage : Stage ω S
  entry : Context ω
  gated : Context ω
  finish : Context ω
  admitted : Bool
  before : List S
  after : List S

structure Row (ω S : Type) where
  path : RecipePath
  position : Nat
  recipes : List (Recipe ω S)

/-- A point of a run between two invocations: what the current cycle has still to do, nearest
first, and what the run holds. -/
structure Moment (ω S : Type) where
  cycle : Nat
  opening : List S
  rows : List (Row ω S)
  pass : Pass S
  context : Context ω

namespace Invocation
variable {ω S : Type} {x : Invocation ω S}

def applies (x : Invocation ω S) : Bool :=
  x.admitted && x.stage.hasTransform

def application (x : Invocation ω S) : Application ω S :=
  ⟨x.path, x.stage, x.entry, x.gated, x.finish, x.before, x.after⟩

def applications (x : Invocation ω S) : List (Application ω S) :=
  if x.applies then [x.application] else []

def below (x : Invocation ω S) (children : List (Recipe ω S)) : List (Row ω S) :=
  if x.admitted then [⟨x.path, 0, children⟩] else []

def applied (trail : List (Invocation ω S)) : List (Application ω S) :=
  trail.flatMap applications

theorem mem_applied_append_singleton {trail : List (Invocation ω S)} {a : Application ω S} :
    a ∈ applied (trail ++ [x]) ↔ a ∈ applied trail ∨ a ∈ x.applications := by
  simp [applied]

theorem path_of_mem_applications {a : Application ω S} (h : a ∈ x.applications) :
    a.path = x.path := by
  unfold applications at h
  split at h
  · rw [List.mem_singleton.mp h]
    rfl
  · simp at h

variable [Source S]

structure Performed (σ : Scheduler) (hook : ErrorHook ω) (x : Invocation ω S) : Prop where
  uncancelled : x.entry.cancelled = false
  gate : (x.stage.admits x.before).perform hook x.entry = (.ok x.admitted, x.gated)
  transform (h : x.applies = true) :
    (σ.transform x.cycle x.path x.stage x.before).perform hook x.gated = (.ok x.after, x.finish)
  idle (h : x.applies = false) : x.after = x.before ∧ x.finish = x.gated

variable {σ : Scheduler} {hook : ErrorHook ω}

theorem Performed.performed (h : x.Performed σ hook) :
    ∀ a ∈ x.applications, a.Performed σ hook x.cycle := by
  intro a ha
  unfold applications at ha
  split at ha
  case isTrue hx =>
    obtain rfl := List.mem_singleton.mp ha
    obtain ⟨hm, ht⟩ := Bool.and_eq_true_iff.mp hx
    have hg := h.gate
    rw [hm] at hg
    exact ⟨h.uncancelled, hg, ht, h.transform hx⟩
  case isFalse => simp at ha

theorem Performed.batch_replay (h : x.Performed σ hook) {p : Pass S} (hp : p.batch = x.before) :
    (p.replay x.applications).batch = x.after := by
  unfold applications
  split
  case isTrue => rfl
  case isFalse hx => exact hp.trans (h.idle (by simpa using hx)).1.symm

theorem Performed.distinct (h : x.Performed σ hook) (hb : Source.Distinct x.before) :
    Source.Distinct x.after ∧ ∀ a ∈ x.applications, a.Distinct := by
  unfold applications
  split
  case isTrue hx =>
    have ha : x.application.Performed σ hook x.cycle :=
      h.performed _ (by simp [applications, hx])
    refine ⟨(ha.distinct hb).after, fun a hm => ?_⟩
    rw [List.mem_singleton.mp hm]
    exact ha.distinct hb
  case isFalse hx =>
    rw [(h.idle (by simpa using hx)).1]
    exact ⟨hb, by simp⟩

end Invocation

def Row.Within {ω S : Type} (recipe : Recipe ω S) (row : Row ω S) : Prop :=
  ∀ tail stage, Recipe.At row.position row.recipes tail stage →
    Recipe.At 0 [recipe] (row.path ++ tail) stage

namespace Moment
variable {ω S : Type}

def start (recipe : Recipe ω S) (f : Flight S) (c : Context ω) : Moment ω S :=
  ⟨f.cycles + 1, f.batch, [⟨[], 0, [recipe]⟩], ⟨f.batch, f.ledger, false⟩, c.resetNewMessages⟩

def flight (m : Moment ω S) : Flight S :=
  ⟨m.pass.batch, m.pass.ledger, m.cycle⟩

def asksAgain [Source S] (m : Moment ω S) : Bool :=
  m.pass.anotherCycle && (m.pass.batch ≠ m.opening || m.context.hasNewMessages)

end Moment

namespace Scheduler
variable {ω S : Type} [Source S]

inductive Step (σ : Scheduler) (hook : ErrorHook ω) (recipe : Recipe ω S) :
    Moment ω S → List (Invocation ω S) → Moment ω S → Prop
  | close {n opening path position rows p c} :
      Step σ hook recipe ⟨n, opening, ⟨path, position, []⟩ :: rows, p, c⟩ []
        ⟨n, opening, rows, p, c⟩
  | skip {n opening path position r rs rows p c} (hc : c.cancelled = true) :
      Step σ hook recipe ⟨n, opening, ⟨path, position, r :: rs⟩ :: rows, p, c⟩ []
        ⟨n, opening, ⟨path, position + 1, rs⟩ :: rows, p, c⟩
  | invoke {opening path position children rs rows p} {x : Invocation ω S}
      (hx : x.Performed σ hook) (hp : x.path = path ++ [x.stage.frame position])
      (hb : p.batch = x.before) :
      Step σ hook recipe
        ⟨x.cycle, opening, ⟨path, position, ⟨x.stage, children⟩ :: rs⟩ :: rows, p, x.entry⟩ [x]
        ⟨x.cycle, opening, x.below children ++ ⟨path, position + 1, rs⟩ :: rows,
          p.replay x.applications, x.finish⟩
  | again {m} (hr : m.rows = []) (hc : m.context.cancelled = false)
      (hl : m.cycle < σ.config.maxCycles)
      (ha : σ.config.minCycles ≤ m.cycle → m.asksAgain = true) :
      Step σ hook recipe m [] (.start recipe m.flight m.context)

inductive Reaches (σ : Scheduler) (hook : ErrorHook ω) (recipe : Recipe ω S) (batch : List S)
    (c : Context ω) : List (Invocation ω S) → Moment ω S → Prop
  | start (ha : σ.checks recipe batch = .ok ()) (hc : c.cancelled = false) :
      Reaches σ hook recipe batch c [] (.start recipe ⟨batch, {}, 0⟩ c)
  | step {trail m own m'} (h : Reaches σ hook recipe batch c trail m)
      (hs : Step σ hook recipe m own m') : Reaches σ hook recipe batch c (trail ++ own) m'

def finishRows (σ : Scheduler) (cycle : Nat) : List (Row ω S) → Pass S → Attempt ω (Pass S)
  | [], p => pure p
  | row :: rows, p => do
    let p ← σ.invokeAll cycle row.path row.position row.recipes p
    σ.finishRows cycle rows p

def goOn (σ : Scheduler) (recipe : Recipe ω S) (m : Moment ω S) : Attempt ω (Flight S) :=
  if σ.config.minCycles ≤ m.cycle && !m.asksAgain then pure m.flight
  else σ.cycles recipe (σ.config.maxCycles - m.cycle) m.flight

def resume (σ : Scheduler) (recipe : Recipe ω S) (m : Moment ω S) : Attempt ω (Flight S) := do
  let p ← σ.finishRows m.cycle m.rows m.pass
  let context ← Attempt.context
  σ.goOn recipe ⟨m.cycle, m.opening, [], p, context⟩

variable {σ : Scheduler} {hook : ErrorHook ω} {recipe : Recipe ω S} {batch : List S}
variable {c d : Context ω} {m m' : Moment ω S} {own trail : List (Invocation ω S)}
variable {x : Invocation ω S}

theorem resume_eq_of_finishRows (hn : m'.cycle = m.cycle) (ho : m'.opening = m.opening)
    (h : (σ.finishRows m.cycle m.rows m.pass).perform hook m.context =
      (σ.finishRows m'.cycle m'.rows m'.pass).perform hook m'.context) :
    (σ.resume recipe m).perform hook m.context = (σ.resume recipe m').perform hook m'.context := by
  unfold resume
  rw [Attempt.perform_bind, Attempt.perform_bind, h, hn, ho]

theorem resume_of_rows_eq_nil (h : m.rows = []) :
    (σ.resume recipe m).perform hook m.context = (σ.goOn recipe m).perform hook m.context := by
  obtain ⟨n, opening, rows, p, c⟩ := m
  obtain rfl : rows = [] := h
  rfl

theorem finishRows_cons (row : Row ω S) (rows : List (Row ω S)) (n : Nat) (p : Pass S) :
    σ.finishRows n (row :: rows) p =
      σ.invokeAll n row.path row.position row.recipes p >>= σ.finishRows n rows := by
  rw [finishRows]

theorem finishRows_singleton (row : Row ω S) (n : Nat) (p : Pass S) :
    σ.finishRows n [row] p = σ.invokeAll n row.path row.position row.recipes p := by
  rw [finishRows_cons]
  exact bind_pure _

theorem finishRows_append (rows rows' : List (Row ω S)) (n : Nat) (p : Pass S) :
    σ.finishRows n (rows ++ rows') p = σ.finishRows n rows p >>= σ.finishRows n rows' := by
  induction rows generalizing p with
  | nil => rfl
  | cons row rows ih =>
    rw [List.cons_append, finishRows_cons, finishRows_cons, bind_assoc]
    exact congrArg _ (funext ih)

theorem cycles_eq_resume {limit : Nat} {f : Flight S} (hc : c.cancelled = false)
    (hl : f.cycles + (limit + 1) = σ.config.maxCycles) :
    (σ.cycles recipe (limit + 1) f).perform hook c =
      (σ.resume recipe (.start recipe f c)).perform hook c.resetNewMessages := by
  have hn : σ.config.maxCycles - (f.cycles + 1) = limit := by omega
  rw [cycles_succ hc, Attempt.perform_bind, cycle, Attempt.update_bind, Attempt.perform_bind, resume,
    Attempt.perform_bind, Moment.start, finishRows_singleton, perform_invokeAll_singleton]
  cases (σ.invoke (f.cycles + 1) [] 0 recipe ⟨f.batch, f.ledger, false⟩).perform hook
    c.resetNewMessages with
  | mk r e =>
    cases r with
    | error error => rfl
    | ok p =>
      simp only [Attempt.context_bind, Attempt.perform_pure, goOn, hn]
      rfl

theorem invokeAll_cancelled {n position : Nat} {path : RecipePath} {p : Pass S}
    (hc : c.cancelled = true) (rs : List (Recipe ω S)) :
    (σ.invokeAll n path position rs p).perform hook c = (.ok p, c) := by
  induction rs generalizing position with
  | nil => rfl
  | cons r rs ih =>
    rw [invokeAll_cons, Attempt.bind_of_ok (invoke_cancelled r hc)]
    exact ih

theorem finishRows_cancelled {n : Nat} {p : Pass S} (hc : c.cancelled = true)
    (rows : List (Row ω S)) : (σ.finishRows n rows p).perform hook c = (.ok p, c) := by
  induction rows with
  | nil => rfl
  | cons row rows ih =>
    rw [finishRows_cons, Attempt.bind_of_ok (invokeAll_cancelled hc _)]
    exact ih

theorem cycles_cancelled (hc : c.cancelled = true) (limit : Nat) (f : Flight S) :
    (σ.cycles recipe limit f).perform hook c = (.ok f, c) := by
  cases limit with
  | zero => rfl
  | succ limit =>
    rw [cycles, Attempt.context_bind, if_pos hc]
    rfl

theorem resume_cancelled (hc : m.context.cancelled = true) :
    (σ.resume recipe m).perform hook m.context = (.ok m.flight, m.context) := by
  rw [resume, Attempt.bind_of_ok (finishRows_cancelled hc _), Attempt.context_bind, goOn]
  split
  case isTrue => rfl
  case isFalse => exact cycles_cancelled hc _ _

theorem perform_invoke {position : Nat} {path : RecipePath} {children : List (Recipe ω S)}
    {p : Pass S} (hx : x.Performed σ hook) (hp : x.path = path ++ [x.stage.frame position])
    (hb : p.batch = x.before) :
    (σ.invoke x.cycle path position ⟨x.stage, children⟩ p).perform hook x.entry =
      (σ.finishRows x.cycle (x.below children) (p.replay x.applications)).perform hook x.finish := by
  have hg := hx.gate
  rw [← hb] at hg
  rw [Invocation.below, Invocation.applications]
  cases hm : x.admitted with
  | false =>
    have hn : x.applies = false := by simp [Invocation.applies, hm]
    rw [hm] at hg
    rw [invoke_of_admits hx.uncancelled hg, (hx.idle hn).2, hn]
    rfl
  | true =>
    rw [if_pos rfl, finishRows_singleton]
    cases ht : x.stage.hasTransform with
    | false =>
      have hn : x.applies = false := by simp [Invocation.applies, ht]
      rw [hm] at hg
      rw [invoke_composite hx.uncancelled hg ht, hp, (hx.idle hn).2, hn]
      rfl
    | true =>
      have hn : x.applies = true := by simp [Invocation.applies, hm, ht]
      have ha : x.application.Performed σ hook x.cycle :=
        hx.performed _ (by simp [Invocation.applications, hn])
      have hi := @invoke_applied ω S _ σ hook x.cycle position path p x.application children ha hb hp
      rw [hn, if_pos rfl]
      exact hi

namespace Step

theorem resume_eq (h : Step σ hook recipe m own m') :
    (σ.resume recipe m).perform hook m.context = (σ.resume recipe m').perform hook m'.context := by
  cases h with
  | close => rfl
  | @skip n opening path position r rs rows p c hc =>
    refine resume_eq_of_finishRows rfl rfl ?_
    rw [finishRows_cons, finishRows_cons, Attempt.bind_of_ok (invokeAll_cancelled hc _),
      Attempt.bind_of_ok (invokeAll_cancelled hc _)]
  | @invoke opening path position children rs rows p x hx hp hb =>
    refine resume_eq_of_finishRows rfl rfl ?_
    rw [finishRows_cons, invokeAll_cons, bind_assoc, Attempt.perform_bind, perform_invoke hx hp hb,
      finishRows_append, Attempt.perform_bind]
    rfl
  | @again m hr hc hl ha =>
    have hn : m.cycle + (σ.config.maxCycles - m.cycle - 1 + 1) = σ.config.maxCycles := by omega
    have hm : σ.config.maxCycles - m.cycle = σ.config.maxCycles - m.cycle - 1 + 1 := by omega
    have hg : ¬ (σ.config.minCycles ≤ m.cycle && !m.asksAgain) = true := by simpa using ha
    rw [resume_of_rows_eq_nil hr, goOn, if_neg hg, hm]
    exact cycles_eq_resume hc hn

end Step

namespace Reaches

theorem accepted (h : Reaches σ hook recipe batch c trail m) : σ.checks recipe batch = .ok () := by
  induction h with
  | start ha _ => exact ha
  | step _ _ ih => exact ih

-- No step changes what the run comes to, so the whole run comes to what is left of it at any point.
theorem cycles_eq_resume (h : Reaches σ hook recipe batch c trail m) :
    (σ.cycles recipe σ.config.maxCycles ⟨batch, {}, 0⟩).perform hook c =
      (σ.resume recipe m).perform hook m.context := by
  induction h with
  | start ha hc =>
    have hm : 0 < σ.config.maxCycles := (checks_eq_ok_iff.mp ha).1.1
    have hl : σ.config.maxCycles = σ.config.maxCycles - 1 + 1 := by omega
    rw [hl]
    exact Scheduler.cycles_eq_resume hc (by simp only; omega)
  | step _ hs ih => exact ih.trans hs.resume_eq

structure Coherent (σ : Scheduler) (hook : ErrorHook ω) (recipe : Recipe ω S)
    (trail : List (Invocation ω S)) (m : Moment ω S) : Prop where
  performed : ∀ x ∈ trail, x.Performed σ hook
  located : ∀ x ∈ trail, Recipe.At 0 [recipe] x.path x.stage
  rows : ∀ row ∈ m.rows, row.Within recipe
  ledger : m.pass.ledger = Ledger.empty.replay (Invocation.applied trail)
  batch : Source.Distinct m.pass.batch
  applied : ∀ a ∈ Invocation.applied trail, a.Distinct

theorem Coherent.step (h : Coherent σ hook recipe trail m) (hs : Step σ hook recipe m own m') :
    Coherent σ hook recipe (trail ++ own) m' := by
  cases hs with
  | close =>
    rw [List.append_nil]
    exact { h with rows := fun row hr => h.rows row (List.mem_cons_of_mem _ hr) }
  | @skip n opening path position r rs rows p c hc =>
    rw [List.append_nil]
    refine { h with rows := fun row hr => ?_ }
    rcases List.mem_cons.mp hr with rfl | hr
    · intro tail stage ht
      exact h.rows ⟨path, position, r :: rs⟩ (by simp) tail stage ht.next
    · exact h.rows row (List.mem_cons_of_mem _ hr)
  | again hr =>
    rw [List.append_nil]
    refine { h with rows := fun row hm => ?_ }
    obtain rfl := List.mem_singleton.mp hm
    exact fun tail stage ht => ht
  | @invoke opening path position children rs rows p x hx hp hb =>
    have hw : Row.Within recipe ⟨path, position, ⟨x.stage, children⟩ :: rs⟩ := h.rows _ (by simp)
    have hd := hx.distinct (hb ▸ h.batch)
    constructor
    case performed =>
      intro y hy
      rcases List.mem_append.mp hy with hy | hy
      · exact h.performed y hy
      · exact List.mem_singleton.mp hy ▸ hx
    case located =>
      intro y hy
      rcases List.mem_append.mp hy with hy | hy
      · exact h.located y hy
      · rw [List.mem_singleton.mp hy, hp]
        exact hw _ _ .here
    case rows =>
      intro row hr
      rcases List.mem_append.mp hr with hr | hr
      · unfold Invocation.below at hr
        split at hr
        case isTrue =>
          rw [List.mem_singleton.mp hr]
          intro tail stage ht
          have hu := hw _ _ ht.under
          rwa [List.append_cons, ← hp] at hu
        case isFalse => simp at hr
      · rcases List.mem_cons.mp hr with rfl | hr
        · exact fun tail stage ht => hw tail stage ht.next
        · exact h.rows row (List.mem_cons_of_mem _ hr)
    case ledger =>
      have hl : p.ledger = Ledger.empty.replay (Invocation.applied trail) := h.ledger
      simp only [Pass.ledger_replay, hl, Invocation.applied, List.flatMap_append,
        List.flatMap_singleton, Ledger.replay_append]
    case batch =>
      rw [hx.batch_replay hb]
      exact hd.1
    case applied =>
      intro a ha
      rcases Invocation.mem_applied_append_singleton.mp ha with ha | ha
      · exact h.applied a ha
      · exact hd.2 a ha

theorem coherent (h : Reaches σ hook recipe batch c trail m) :
    Coherent σ hook recipe trail m := by
  induction h with
  | start ha _ =>
    constructor
    case performed => simp
    case located => simp
    case rows =>
      intro row hm
      obtain rfl := List.mem_singleton.mp hm
      exact fun tail stage ht => ht
    case ledger => rfl
    case batch => exact (checks_eq_ok_iff.mp ha).2.2
    case applied => simp [Invocation.applied]
  | step _ hs ih => exact ih.step hs

theorem path_ne_nil (h : Reaches σ hook recipe batch c trail m) :
    ∀ a ∈ Invocation.applied trail, a.path ≠ [] := by
  intro a ha
  obtain ⟨x, hx, ha⟩ := List.mem_flatMap.mp ha
  rw [Invocation.path_of_mem_applications ha]
  exact (h.coherent.located x hx).path_ne_nil

theorem perform_run (h : Reaches σ hook recipe batch c trail m) :
    (σ.run recipe batch).perform hook c =
      (σ.resume recipe m >>= fun f =>
        pure (Report.ofRun batch f.batch f.ledger f.cycles)).perform hook m.context := by
  rw [run_of_accepted h.accepted, Attempt.perform_bind, Attempt.perform_bind, h.cycles_eq_resume]

end Reaches

end Scheduler

end Codemod
