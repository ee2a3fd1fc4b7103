import Codemod.Proofs.Account
import Codemod.Proofs.Rounds

namespace Codemod

/-- Contexts that differ in nothing that decides how a run goes on: the errors, the client's own
state and the messages are left open. -/
structure Context.Alike {ω : Type} (c d : Context ω) : Prop where
  cancelled : d.cancelled = c.cancelled
  writes : d.writes = c.writes
  seen : d.seen = c.seen

namespace Context.Alike
variable {ω : Type} {c d e : Context ω}

theorem refl (c : Context ω) : c.Alike c :=
  ⟨rfl, rfl, rfl⟩

theorem symm (h : c.Alike d) : d.Alike c :=
  ⟨h.cancelled.symm, h.writes.symm, h.seen.symm⟩

theorem trans (h : c.Alike d) (h' : d.Alike e) : c.Alike e :=
  ⟨h'.cancelled.trans h.cancelled, h'.writes.trans h.writes, h'.seen.trans h.seen⟩

theorem uncancelled (h : c.Alike d) (hc : c.cancelled = false) : d.cancelled = false :=
  h.cancelled.trans hc

theorem hasNewMessages (h : c.Alike d) : d.hasNewMessages = c.hasNewMessages := by
  rw [Context.hasNewMessages, Context.hasNewMessages, h.writes, h.seen]

end Context.Alike

def Action.IsConstant {ω α : Type} (hook : ErrorHook ω) (a : Action ω α) : Prop :=
  ∃ x, ∀ c, a.perform hook c = (x, c)

def ErrorHook.Swallows {ω : Type} (hook : ErrorHook ω) : Prop :=
  ∀ e c, (hook.handle e c).1 = .ok () ∧ c.Alike (hook.handle e c).2

theorem ErrorHook.swallows_record {ω : Type} : (ErrorHook.record : ErrorHook ω).Swallows :=
  fun _ _ => ⟨rfl, rfl, rfl, rfl⟩

structure Stage.Functional {ω S : Type} (hook : ErrorHook ω) (stage : Stage ω S) : Prop extends
    stage.Each hook (Action.IsConstant hook) where
  perSource : stage.batchTransform = none
  repeats (h : stage.hasTransform = true) : stage.repeats = true

namespace Attempt
variable {ω α β : Type}

def Yields (hook : ErrorHook ω) (a : Attempt ω α) (x : α) : Prop :=
  ∀ c, c.cancelled = false → ∃ d, a.perform hook c = (.ok x, d) ∧ c.Alike d

variable {hook : ErrorHook ω} {a : Attempt ω α} {f : α → Attempt ω β} {c d : Context ω}
variable {x y : α}

theorem Yields.eq_of_ok (h : Yields hook a x) (hc : c.cancelled = false)
    (ha : a.perform hook c = (.ok y, d)) : y = x ∧ c.Alike d := by
  obtain ⟨e, he, hal⟩ := h c hc
  rw [ha] at he
  cases he
  exact ⟨rfl, hal⟩

theorem yields_pure (x : α) : Yields hook (pure x) x :=
  fun c _ => ⟨c, rfl, .refl c⟩

theorem Yields.bind {z : β} (h : Yields hook a x) (hf : Yields hook (f x) z) :
    Yields hook (a >>= f) z := by
  intro c hc
  obtain ⟨d, hx, hd⟩ := h c hc
  obtain ⟨e, hz, he⟩ := hf d (hd.uncancelled hc)
  exact ⟨e, bind_eq_ok.mpr ⟨x, d, hx, hz⟩, hd.trans he⟩

def Constantly (hook : ErrorHook ω) : Account ω :=
  fun a r _ => ∀ c, ∃ d, a.perform hook c = (r, d) ∧ c.Alike d

theorem lawful_constantly (hh : hook.Swallows) : Lawful (Constantly hook) where
  returns _ c := ⟨c, rfl, .refl c⟩
  throws _ c := ⟨c, rfl, .refl c⟩
  raises error c := by
    obtain ⟨hok, hal⟩ := hh error c
    refine ⟨(hook.handle error c).2, ?_, hal⟩
    rw [perform_raise, ← hok]
  chains ha hf c := by
    obtain ⟨d, hd, hcd⟩ := ha c
    obtain ⟨e, he, hde⟩ := hf d
    exact ⟨e, (bind_of_ok hd).trans he, hcd.trans hde⟩
  fails ha c := by
    obtain ⟨d, hd, hcd⟩ := ha c
    exact ⟨d, bind_of_error hd, hcd⟩

theorem Returns.eq_of_ok (h : Returns (Constantly hook) a x)
    (ha : a.perform hook c = (.ok y, d)) : y = x := by
  obtain ⟨_, h⟩ := h
  obtain ⟨e, he, -⟩ := h c
  cases ha.symm.trans he
  rfl

theorem Returns.yields (h : Returns (Constantly hook) a x) : Yields hook a x := by
  obtain ⟨_, h⟩ := h
  exact fun c _ => h c

theorem answers_of_constant {b : Action ω α} (h : b.IsConstant hook) :
    b.Answers (Constantly hook) := by
  obtain ⟨x, hx⟩ := h
  exact ⟨x, fun c => ⟨c, lift_eq_ok.mpr (hx c), .refl c⟩⟩

end Attempt

section
variable {ω S : Type} {hook : ErrorHook ω} {c d : Context ω}

theorem VisitorFactory.constant_pure (hook : ErrorHook ω) (accepts : S → Bool)
    (visit : S → Except VisitError (Option S)) :
    VisitorFactory.Each hook (Action.IsConstant hook)
      (pure { accepts := fun s => pure (accepts s), visit := fun s => pure (visit s) } :
        Action ω (SourceVisitor ω S)) := by
  constructor
  case makes => exact ⟨_, fun c => rfl⟩
  case made => exact fun c => ⟨fun s => ⟨accepts s, fun c => rfl⟩, fun s => ⟨visit s, fun c => rfl⟩⟩

theorem VisitorFactory.Each.constant {factory : VisitorFactory ω S}
    (h : factory.Each hook (Action.IsConstant hook)) (c : Context ω) :
    ∃ v, (∀ c, Action.perform factory hook c = (v, c)) ∧ v.Each (Action.IsConstant hook) := by
  obtain ⟨v, hv⟩ := h.makes
  exact ⟨v, hv, h.visitor (hv c)⟩

theorem VisitorFactory.Each.answers {factory : VisitorFactory ω S}
    (h : factory.Each hook (Action.IsConstant hook)) (c : Context ω) :
    factory.Answers (Attempt.Constantly hook) := by
  obtain ⟨v, hmake, hv⟩ := h.constant c
  exact ⟨v, fun c => ⟨c, Attempt.lift_eq_ok.mpr (hmake c), .refl c⟩,
    fun s => Attempt.answers_of_constant (hv.accepts s),
    fun s => Attempt.answers_of_constant (hv.visit s)⟩

theorem Stage.Each.answers {stage : Stage ω S} (h : stage.Each hook (Action.IsConstant hook))
    (hb : stage.batchTransform = none) (c : Context ω) :
    stage.Answers (Attempt.Constantly hook) where
  gate ht := (h.gate ht).answers c
  sourceTest ht := (h.sourceTest ht).answers c
  visitor hv := (h.visitor hv).answers c
  batchTransform hf := by
    rw [hb] at hf
    cases hf

variable [Source S] {stage : Stage ω S} {batch : List S}

theorem Stage.yields_admits (hh : hook.Swallows) (hs : stage.Functional hook) {admitted : Bool}
    (h : (stage.admits batch).perform hook c = (.ok admitted, d)) :
    Attempt.Yields hook (stage.admits batch) admitted := by
  have hQ := Attempt.lawful_constantly hh
  obtain ⟨verdict, hr⟩ := Stage.returns_admits hQ (hs.toEach.answers hs.perSource c) batch
  obtain rfl := hr.eq_of_ok h
  exact hr.yields

theorem Scheduler.yields_transform {σ : Scheduler} {n : Nat} {path : RecipePath} {after : List S}
    (hh : hook.Swallows) (hs : stage.Functional hook)
    (h : (σ.transform n path stage batch).perform hook c = (.ok after, d)) (σ' : Scheduler)
    (n' : Nat) (path' : RecipePath) :
    Attempt.Yields hook (σ'.transform n' path' stage batch) after := by
  have hQ := Attempt.lawful_constantly hh
  rcases returns_or_breaks_transform hQ (hs.toEach.answers hs.perSource c) batch with ⟨after', es, hr⟩ | hb
  · have hret : ∀ (τ : Scheduler) k p,
        Attempt.Returns (Attempt.Constantly hook) (τ.transform k p stage batch) after' := by
      intro τ k p
      obtain ⟨es', -, hq⟩ := hr τ k p
      exact ⟨es', hq⟩
    obtain rfl := (hret σ n path).eq_of_ok h
    exact (hret σ' n' path').yields
  · obtain ⟨breach, es, hq⟩ := hb σ n path
    obtain ⟨e, he, -⟩ := hq c
    cases h.symm.trans he

end

theorem Sample.functional_rewriting (old new : String) :
    VisitorFactory.Each .record (Action.IsConstant .record) (rewriting old new) :=
  VisitorFactory.constant_pure _ _ _

end Codemod
