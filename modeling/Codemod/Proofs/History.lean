import Codemod.Proofs.Survival

namespace Codemod

/-- One recipe's own transform at work: `entry` is where its invocation began, `start` where its
gate had let the batch through. -/
structure Application (ω S : Type) where
  path : RecipePath
  stage : Stage ω S
  entry : Context ω
  start : Context ω
  finish : Context ω
  before : List S
  after : List S

namespace Application
variable {ω S : Type} [Source S]

structure Performed (σ : Scheduler) (hook : ErrorHook ω) (cycle : Nat) (a : Application ω S) :
    Prop where
  uncancelled : a.entry.cancelled = false
  admitted : (a.stage.admits a.before).perform hook a.entry = (.ok true, a.start)
  transforms : a.stage.hasTransform = true
  transformed : (σ.transform cycle a.path a.stage a.before).perform hook a.start =
    (.ok a.after, a.finish)

def diff (a : Application ω S) : Diff :=
  Diff.between a.before a.after

def Changes (a : Application ω S) (id : TreeId) : Prop :=
  Source.Changed a.before a.after id

instance (a : Application ω S) (id : TreeId) : Decidable (a.Changes id) :=
  inferInstanceAs (Decidable (Source.Changed _ _ id))

def asks (a : Application ω S) : Bool :=
  a.stage.repeats && (!a.diff.isEmpty || a.finish.writes != a.start.writes)

structure Distinct (a : Application ω S) : Prop where
  before : Source.Distinct a.before
  after : Source.Distinct a.after

theorem Performed.distinct {σ : Scheduler} {hook : ErrorHook ω} {cycle : Nat}
    {a : Application ω S} (h : a.Performed σ hook cycle) (hb : Source.Distinct a.before) :
    a.Distinct :=
  ⟨hb, Scheduler.distinct_transform h.transformed hb⟩

end Application

namespace Pass
variable {ω S : Type} [Source S]

def apply (p : Pass S) (a : Application ω S) : Pass S :=
  ⟨a.after, p.ledger.recordDiff a.diff a.path, p.anotherCycle || a.asks⟩

def replay (p : Pass S) (log : List (Application ω S)) : Pass S :=
  log.foldl apply p

theorem replay_cons (p : Pass S) (a : Application ω S) (log : List (Application ω S)) :
    p.replay (a :: log) = (p.apply a).replay log := rfl

theorem replay_append (p : Pass S) (log log' : List (Application ω S)) :
    p.replay (log ++ log') = (p.replay log).replay log' := by
  simp [replay]

theorem anotherCycle_replay (p : Pass S) (log : List (Application ω S)) :
    (p.replay log).anotherCycle = (p.anotherCycle || log.any Application.asks) := by
  induction log generalizing p with
  | nil => simp [replay]
  | cons a log ih => simp [replay_cons, ih, apply, Bool.or_assoc]

end Pass

namespace Ledger
variable {ω S : Type} [Source S]

def replay (l : Ledger) (log : List (Application ω S)) : Ledger :=
  log.foldl (fun l a => l.recordDiff a.diff a.path) l

theorem replay_append (l : Ledger) (log log' : List (Application ω S)) :
    l.replay (log ++ log') = (l.replay log).replay log' := by
  simp [replay]

end Ledger

theorem Pass.ledger_replay {ω S : Type} [Source S] (p : Pass S) (log : List (Application ω S)) :
    (p.replay log).ledger = p.ledger.replay log := by
  induction log generalizing p with
  | nil => rfl
  | cons a log ih => exact ih (p.apply a)

/-- The stages of a row of siblings and below it, each at the frames that lead to it; the first
sibling has the given position. -/
inductive Recipe.At {ω S : Type} :
    Nat → List (Recipe ω S) → RecipePath → Stage ω S → Prop
  | here {position stage children rs} :
      Recipe.At position (⟨stage, children⟩ :: rs) [stage.frame position] stage
  | under {position stage children rs path inner} (h : Recipe.At 0 children path inner) :
      Recipe.At position (⟨stage, children⟩ :: rs) (stage.frame position :: path) inner
  | next {position r rs path stage} (h : Recipe.At (position + 1) rs path stage) :
      Recipe.At position (r :: rs) path stage

theorem Recipe.At.path_ne_nil {ω S : Type} {position : Nat} {rs : List (Recipe ω S)}
    {path : RecipePath} {stage : Stage ω S} (h : Recipe.At position rs path stage) :
    path ≠ [] := by
  induction h with
  | here => simp
  | under => simp
  | next _ ih => exact ih

namespace Scheduler
variable {ω S : Type} [Source S]

inductive Walk (σ : Scheduler) (hook : ErrorHook ω) (cycle : Nat) :
    RecipePath → Nat → List (Recipe ω S) → List S → Context ω →
      List (Application ω S) → List S → Context ω → Prop
  | nil {path position batch c} : Walk σ hook cycle path position [] batch c [] batch c
  | cancelled {path position r rs batch c log after d} (hc : c.cancelled = true)
      (rest : Walk σ hook cycle path (position + 1) rs batch c log after d) :
      Walk σ hook cycle path position (r :: rs) batch c log after d
  | refused {path position stage children rs batch c e log after d} (hc : c.cancelled = false)
      (hg : (Stage.admits stage batch).perform hook c = (.ok false, e))
      (rest : Walk σ hook cycle path (position + 1) rs batch e log after d) :
      Walk σ hook cycle path position (⟨stage, children⟩ :: rs) batch c log after d
  | composite {path position stage children rs batch c e below batch' e' log after d}
      (hc : c.cancelled = false)
      (hg : (Stage.admits stage batch).perform hook c = (.ok true, e))
      (ht : stage.hasTransform = false)
      (inner : Walk σ hook cycle (path ++ [stage.frame position]) 0 children batch e
        below batch' e')
      (rest : Walk σ hook cycle path (position + 1) rs batch' e' log after d) :
      Walk σ hook cycle path position (⟨stage, children⟩ :: rs) batch c (below ++ log) after d
  | applied {path position children rs below batch' e' log after d} {a : Application ω S}
      (ha : a.Performed σ hook cycle) (hp : a.path = path ++ [a.stage.frame position])
      (inner : Walk σ hook cycle a.path 0 children a.after a.finish below batch' e')
      (rest : Walk σ hook cycle path (position + 1) rs batch' e' log after d) :
      Walk σ hook cycle path position (⟨a.stage, children⟩ :: rs) a.before a.entry
        (a :: below ++ log) after d

variable {σ : Scheduler} {hook : ErrorHook ω} {cycle position : Nat} {path : RecipePath}
variable {c d : Context ω} {p q : Pass S}

theorem applyStage_composite {stage : Stage ω S} (ht : stage.hasTransform = false) :
    (σ.applyStage cycle path stage p).perform hook c = (.ok p, c) := by
  unfold applyStage
  rw [ht]
  rfl

theorem applyStage_eq_ok {stage : Stage ω S} (ht : stage.hasTransform = true)
    (entry : Context ω) :
    (σ.applyStage cycle path stage p).perform hook c = (.ok q, d) ↔
      (σ.transform cycle path stage p.batch).perform hook c = (.ok q.batch, d) ∧
        q = p.apply ⟨path, stage, entry, c, d, p.batch, q.batch⟩ := by
  unfold applyStage
  rw [ht, if_pos rfl, Attempt.context_bind]
  constructor
  · intro h
    obtain ⟨after, e, hf, h⟩ := Attempt.bind_eq_ok.mp h
    rw [Attempt.context_bind] at h
    obtain ⟨rfl, rfl⟩ := Attempt.pure_eq_ok.mp h
    exact ⟨hf, rfl⟩
  · rintro ⟨hf, hq⟩
    rw [Attempt.bind_of_ok hf, Attempt.context_bind, hq]
    rfl

theorem invoke_cancelled (r : Recipe ω S) (hc : c.cancelled = true) :
    (σ.invoke cycle path position r p).perform hook c = (.ok p, c) := by
  cases r with
  | mk stage children =>
    rw [invoke, Attempt.context_bind, if_pos hc]
    rfl

theorem invoke_of_admits {stage : Stage ω S} {children : List (Recipe ω S)} {admitted : Bool}
    (hc : c.cancelled = false) (hg : (stage.admits p.batch).perform hook c = (.ok admitted, d)) :
    (σ.invoke cycle path position ⟨stage, children⟩ p).perform hook c =
      if admitted then
        (σ.applyStage cycle (path ++ [stage.frame position]) stage p >>=
          σ.invokeAll cycle (path ++ [stage.frame position]) 0 children).perform hook d
      else (.ok p, d) := by
  rw [invoke, Attempt.context_bind, hc, if_neg Bool.false_ne_true, Attempt.bind_of_ok hg]
  cases admitted <;> rfl

theorem invoke_composite {stage : Stage ω S} {children : List (Recipe ω S)}
    (hc : c.cancelled = false) (hg : (stage.admits p.batch).perform hook c = (.ok true, d))
    (ht : stage.hasTransform = false) :
    (σ.invoke cycle path position ⟨stage, children⟩ p).perform hook c =
      (σ.invokeAll cycle (path ++ [stage.frame position]) 0 children p).perform hook d := by
  rw [invoke_of_admits hc hg, if_pos rfl, Attempt.bind_of_ok (applyStage_composite ht)]

theorem invoke_applied {a : Application ω S} {children : List (Recipe ω S)}
    (ha : a.Performed σ hook cycle) (hp : p.batch = a.before)
    (hpath : a.path = path ++ [a.stage.frame position]) :
    (σ.invoke cycle path position ⟨a.stage, children⟩ p).perform hook a.entry =
      (σ.invokeAll cycle a.path 0 children (p.apply a)).perform hook a.finish := by
  have hg : (a.stage.admits p.batch).perform hook a.entry = (.ok true, a.start) := by
    rw [hp]
    exact ha.admitted
  have ht : (σ.applyStage cycle a.path a.stage p).perform hook a.start =
      (.ok (p.apply a), a.finish) := by
    refine (applyStage_eq_ok ha.transforms a.entry).mpr ⟨?_, ?_⟩ <;> rw [hp]
    · exact ha.transformed
    · rfl
  rw [invoke_of_admits ha.uncancelled hg, if_pos rfl, ← hpath, Attempt.bind_of_ok ht]

theorem invokeAll_cons (r : Recipe ω S) (rs : List (Recipe ω S)) :
    σ.invokeAll cycle path position (r :: rs) p =
      σ.invoke cycle path position r p >>= σ.invokeAll cycle path (position + 1) rs := by
  rw [invokeAll]

namespace Walk
variable {rs : List (Recipe ω S)} {batch after : List S} {log : List (Application ω S)}

theorem batch_replay (h : Walk σ hook cycle path position rs batch c log after d)
    (p : Pass S) (hp : p.batch = batch) : (p.replay log).batch = after := by
  induction h generalizing p with
  | nil => exact hp
  | cancelled _ _ ih => exact ih p hp
  | refused _ _ _ ih => exact ih p hp
  | composite _ _ _ _ _ ihi ihr =>
    rw [Pass.replay_append]
    exact ihr _ (ihi p hp)
  | @applied _ _ _ _ _ _ _ _ _ _ a _ _ _ _ ihi ihr =>
    rw [List.cons_append, Pass.replay_cons, Pass.replay_append]
    exact ihr _ (ihi (p.apply a) rfl)

theorem perform_invokeAll (h : Walk σ hook cycle path position rs batch c log after d)
    (p : Pass S) (hp : p.batch = batch) :
    (σ.invokeAll cycle path position rs p).perform hook c = (.ok (p.replay log), d) := by
  induction h generalizing p with
  | nil => rfl
  | cancelled hc rest ih =>
    rw [invokeAll_cons, Attempt.bind_of_ok (invoke_cancelled _ hc)]
    exact ih p hp
  | refused hc hg rest ih =>
    subst hp
    rw [invokeAll_cons, Attempt.bind_of_ok (invoke_of_admits hc hg)]
    exact ih p rfl
  | composite hc hg ht inner rest ihi ihr =>
    subst hp
    have hi := (invoke_composite hc hg ht).trans (ihi p rfl)
    rw [invokeAll_cons, Attempt.bind_of_ok hi, Pass.replay_append]
    exact ihr _ (inner.batch_replay p rfl)
  | @applied _ _ _ _ _ _ _ _ _ _ a ha hpath inner rest ihi ihr =>
    have hi := (invoke_applied ha hp hpath).trans (ihi (p.apply a) rfl)
    rw [invokeAll_cons, Attempt.bind_of_ok hi]
    exact (ihr _ (inner.batch_replay (p.apply a) rfl)).trans (by
      rw [List.cons_append, Pass.replay_cons, Pass.replay_append])

theorem performed (h : Walk σ hook cycle path position rs batch c log after d) :
    ∀ a ∈ log, a.Performed σ hook cycle := by
  induction h with
  | nil => simp
  | cancelled _ _ ih => exact ih
  | refused _ _ _ ih => exact ih
  | composite _ _ _ _ _ ihi ihr =>
    intro a ha
    exact (List.mem_append.mp ha).elim (ihi a) (ihr a)
  | applied hb _ _ _ ihi ihr =>
    intro a ha
    rcases List.mem_cons.mp ha with rfl | ha
    · exact hb
    · exact (List.mem_append.mp ha).elim (ihi a) (ihr a)

theorem distinct (h : Walk σ hook cycle path position rs batch c log after d)
    (hb : Source.Distinct batch) : (∀ a ∈ log, a.Distinct) ∧ Source.Distinct after := by
  induction h with
  | nil => exact ⟨by simp, hb⟩
  | cancelled _ _ ih => exact ih hb
  | refused _ _ _ ih => exact ih hb
  | composite _ _ _ _ _ ihi ihr =>
    obtain ⟨hi, hm⟩ := ihi hb
    obtain ⟨hr, ha⟩ := ihr hm
    exact ⟨fun a hl => (List.mem_append.mp hl).elim (hi a) (hr a), ha⟩
  | @applied _ _ _ _ _ _ _ _ _ _ a hp _ _ _ ihi ihr =>
    have ha := hp.distinct hb
    obtain ⟨hi, hm⟩ := ihi ha.after
    obtain ⟨hr, hd⟩ := ihr hm
    refine ⟨fun b hl => ?_, hd⟩
    rcases List.mem_cons.mp hl with rfl | hl
    · exact ha
    · exact (List.mem_append.mp hl).elim (hi b) (hr b)

theorem located (h : Walk σ hook cycle path position rs batch c log after d) :
    ∀ a ∈ log, ∃ tail, a.path = path ++ tail ∧ Recipe.At position rs tail a.stage := by
  induction h with
  | nil => simp
  | cancelled _ _ ih =>
    intro a ha
    obtain ⟨tail, hp, ht⟩ := ih a ha
    exact ⟨tail, hp, ht.next⟩
  | refused _ _ _ ih =>
    intro a ha
    obtain ⟨tail, hp, ht⟩ := ih a ha
    exact ⟨tail, hp, ht.next⟩
  | composite _ _ _ _ _ ihi ihr =>
    intro a ha
    rcases List.mem_append.mp ha with ha | ha
    · obtain ⟨tail, hp, ht⟩ := ihi a ha
      exact ⟨_ :: tail, by simp [hp], ht.under⟩
    · obtain ⟨tail, hp, ht⟩ := ihr a ha
      exact ⟨tail, hp, ht.next⟩
  | applied _ hpath _ _ ihi ihr =>
    intro a ha
    rcases List.mem_cons.mp ha with rfl | ha
    · exact ⟨_, hpath, .here⟩
    rcases List.mem_append.mp ha with ha | ha
    · obtain ⟨tail, hp, ht⟩ := ihi a ha
      exact ⟨_ :: tail, by simp [hp, hpath], ht.under⟩
    · obtain ⟨tail, hp, ht⟩ := ihr a ha
      exact ⟨tail, hp, ht.next⟩

theorem cons {r : Recipe ω S} {batch' : List S} {e : Context ω}
    {own below : List (Application ω S)}
    (h : Walk σ hook cycle path position [r] batch c own batch' e)
    (rest : Walk σ hook cycle path (position + 1) rs batch' e below after d) :
    Walk σ hook cycle path position (r :: rs) batch c (own ++ below) after d := by
  cases h with
  | cancelled hc t =>
    cases t
    exact .cancelled hc rest
  | refused hc hg t =>
    cases t
    exact .refused hc hg rest
  | composite hc hg ht inner t =>
    cases t
    rw [List.append_nil]
    exact .composite hc hg ht inner rest
  | applied ha hpath inner t =>
    cases t
    rw [List.append_nil]
    exact .applied ha hpath inner rest

end Walk

theorem admits_of_invoke {stage : Stage ω S} {children : List (Recipe ω S)}
    (hc : c.cancelled = false)
    (h : (σ.invoke cycle path position ⟨stage, children⟩ p).perform hook c = (.ok q, d)) :
    ∃ admitted e, (stage.admits p.batch).perform hook c = (.ok admitted, e) := by
  rw [invoke, Attempt.context_bind, hc, if_neg Bool.false_ne_true] at h
  obtain ⟨admitted, e, hg, -⟩ := Attempt.bind_eq_ok.mp h
  exact ⟨admitted, e, hg⟩

theorem walk_of_applyStage {stage : Stage ω S} {children : List (Recipe ω S)} {e e' : Context ω}
    {p' : Pass S} {below : List (Application ω S)} {after : List S} (hc : c.cancelled = false)
    (hg : (stage.admits p.batch).perform hook c = (.ok true, e))
    (hs : (σ.applyStage cycle (path ++ [stage.frame position]) stage p).perform hook e =
      (.ok p', e'))
    (hw : Walk σ hook cycle (path ++ [stage.frame position]) 0 children p'.batch e'
      below after d) :
    ∃ log, Walk σ hook cycle path position [⟨stage, children⟩] p.batch c log after d ∧
      p'.replay below = p.replay log := by
  cases ht : stage.hasTransform with
  | false =>
    rw [applyStage_composite ht] at hs
    cases hs
    have hlog := Walk.composite hc hg ht hw .nil
    rw [List.append_nil] at hlog
    exact ⟨below, hlog, rfl⟩
  | true =>
    obtain ⟨hf, hp⟩ := (applyStage_eq_ok ht c).mp hs
    let a : Application ω S :=
      ⟨path ++ [stage.frame position], stage, c, e, e', p.batch, p'.batch⟩
    have ha : a.Performed σ hook cycle := ⟨hc, hg, ht, hf⟩
    have hlog := Walk.applied ha rfl hw .nil
    rw [List.append_nil] at hlog
    exact ⟨a :: below, hlog, by rw [hp, Pass.replay_cons]⟩

mutual
theorem walk_of_invoke {c d : Context ω} {path : RecipePath} {position : Nat} {p q : Pass S} :
    (r : Recipe ω S) → (σ.invoke cycle path position r p).perform hook c = (.ok q, d) →
      ∃ log, Walk σ hook cycle path position [r] p.batch c log q.batch d ∧ q = p.replay log
  | ⟨stage, children⟩, h => by
    cases hc : c.cancelled with
    | true =>
      rw [invoke_cancelled _ hc] at h
      cases h
      exact ⟨[], .cancelled hc .nil, rfl⟩
    | false =>
      obtain ⟨admitted, e, hg⟩ := admits_of_invoke hc h
      rw [invoke_of_admits hc hg] at h
      cases admitted with
      | false =>
        cases h
        exact ⟨[], .refused hc hg .nil, rfl⟩
      | true =>
        obtain ⟨p', e', hs, h⟩ := Attempt.bind_eq_ok.mp h
        obtain ⟨below, hw, rfl⟩ := walk_of_invokeAll children h
        exact walk_of_applyStage hc hg hs hw

theorem walk_of_invokeAll {c d : Context ω} {path : RecipePath} {position : Nat} {p q : Pass S} :
    (rs : List (Recipe ω S)) → (σ.invokeAll cycle path position rs p).perform hook c = (.ok q, d) →
      ∃ log, Walk σ hook cycle path position rs p.batch c log q.batch d ∧ q = p.replay log
  | [], h => by
    obtain ⟨rfl, rfl⟩ := Attempt.pure_eq_ok.mp h
    exact ⟨[], .nil, rfl⟩
  | r :: rs, h => by
    rw [invokeAll_cons] at h
    obtain ⟨p', e, hr, h⟩ := Attempt.bind_eq_ok.mp h
    obtain ⟨own, hown, rfl⟩ := walk_of_invoke r hr
    obtain ⟨below, hbelow, rfl⟩ := walk_of_invokeAll rs h
    exact ⟨own ++ below, hown.cons hbelow, (Pass.replay_append p own below).symm⟩
end

theorem perform_invokeAll_singleton (r : Recipe ω S) :
    (σ.invokeAll cycle path position [r] p).perform hook c =
      (σ.invoke cycle path position r p).perform hook c := by
  rw [invokeAll_cons, Attempt.perform_bind]
  split
  case h_1 q e hr => rw [hr, invokeAll, Attempt.perform_pure]
  case h_2 e d hr => rw [hr]

theorem invoke_eq_ok_iff {r : Recipe ω S} :
    (σ.invoke cycle path position r p).perform hook c = (.ok q, d) ↔
      ∃ log, Walk σ hook cycle path position [r] p.batch c log q.batch d ∧ q = p.replay log := by
  constructor
  · exact walk_of_invoke r
  · rintro ⟨log, hw, hq⟩
    rw [hq, ← perform_invokeAll_singleton]
    exact hw.perform_invokeAll p rfl

end Scheduler

end Codemod
