import Codemod.Proofs.Kinds
import Codemod.Proofs.Steady
namespace Codemod

namespace Action
variable {ω α β : Type} {hook : ErrorHook ω}

theorem isConstant_pure (x : α) : IsConstant hook (pure x : Action ω α) :=
  ⟨x, fun _ => rfl⟩

theorem IsConstant.bind {a : Action ω α} {f : α → Action ω β} (ha : IsConstant hook a)
    (hf : ∀ x, IsConstant hook (f x)) : IsConstant hook (a >>= f) := by
  obtain ⟨x, hx⟩ := ha
  obtain ⟨y, hy⟩ := hf x
  refine ⟨y, fun c => ?_⟩
  rw [perform_bind, hx]
  exact hy c

end Action

namespace Hook
variable {ω τ α β : Type} {hook : ErrorHook ω}

def IsConstant (hook : ErrorHook ω) (h : Hook ω τ α) : Prop :=
  ∀ state, Action.IsConstant hook (h.attempt.run state)

theorem isConstant_pure (x : α) : IsConstant hook (pure x : Hook ω τ α) :=
  fun _ => Action.isConstant_pure _

theorem isConstant_discard : IsConstant hook (discard : Hook ω τ α) :=
  fun _ => Action.isConstant_pure _

theorem isConstant_fail (e : VisitError) : IsConstant hook (fail e : Hook ω τ α) :=
  fun _ => Action.isConstant_pure _

theorem isConstant_state : IsConstant hook (state : Hook ω τ τ) :=
  fun _ => Action.isConstant_pure _

theorem isConstant_updateState (f : τ → τ) : IsConstant hook (updateState f : Hook ω τ Unit) :=
  fun _ => Action.isConstant_pure _

variable {h : Hook ω τ α} {f : α → Hook ω τ β}

theorem attempt_bind (h : Hook ω τ α) (f : α → Hook ω τ β) (s : τ) :
    (h >>= f).attempt.run s = (h.attempt.run s : Action ω (VisitResult α × τ)) >>= fun p =>
      match p.1 with
      | .ok (some x) => (f x).attempt.run p.2
      | .ok none => pure (.ok none, p.2)
      | .error e => pure (.error e, p.2) := by
  simp only [attempt, OptionT.run_bind, Option.elimM, ExceptT.run_bind, StateT.run_bind]
  refine congrArg (Bind.bind _) (funext ?_)
  rintro ⟨_ | _ | x, t⟩
  · rfl
  · rfl
  · rfl

theorem attempt_keep? (h : Hook ω τ α) (s : τ) :
    (keep? h).attempt.run s = (h.attempt.run s : Action ω (VisitResult α × τ)) >>= fun p =>
      match p.1 with
      | .ok kept => pure (.ok (some kept), p.2)
      | .error e => pure (.error e, p.2) := by
  simp only [attempt, keep?, OptionT.run_lift, ExceptT.run_bind, StateT.run_bind]
  refine congrArg (Bind.bind _) (funext ?_)
  rintro ⟨_ | x, t⟩
  · rfl
  · rfl

namespace IsConstant

theorem bind (hh : IsConstant hook h) (hf : ∀ x, IsConstant hook (f x)) :
    IsConstant hook (h >>= f) := by
  intro s
  rw [attempt_bind]
  refine Action.IsConstant.bind (hh s) ?_
  rintro ⟨_ | _ | x, t⟩
  · exact Action.isConstant_pure _
  · exact Action.isConstant_pure _
  · exact hf x t

theorem keep? (hh : IsConstant hook h) : IsConstant hook (Hook.keep? h) := by
  intro s
  rw [attempt_keep?]
  refine Action.IsConstant.bind (hh s) ?_
  rintro ⟨_ | x, t⟩
  · exact Action.isConstant_pure _
  · exact Action.isConstant_pure _

theorem filterMap {g : α → Hook ω τ α} (hg : ∀ x, IsConstant hook (g x)) (xs : List α) :
    IsConstant hook (Hook.filterMap g xs) := by
  induction xs with
  | nil => exact isConstant_pure []
  | cons x xs ih => exact (keep? (hg x)).bind fun kept => ih.bind fun rest => isConstant_pure _

theorem start (hh : IsConstant hook h) (initial : τ) :
    Action.IsConstant hook (h.start initial) := by
  obtain ⟨x, hx⟩ := hh initial
  refine ⟨x.1, fun c => ?_⟩
  rw [Hook.start, map_eq_pure_bind, Action.perform_bind, hx]
  rfl

end IsConstant

end Hook

structure TreeVisitor.IsConstant {ω τ T : Type} (hook : ErrorHook ω) (v : TreeVisitor ω τ T) :
    Prop where
  accepts (tree : T) : Action.IsConstant hook (v.accepts tree)
  preVisit (tree : T) : (v.preVisit tree).IsConstant hook
  visitNode (tree : T) : (v.visitNode tree).IsConstant hook
  postVisit (tree : T) : (v.postVisit tree).IsConstant hook
  whole {visit : T → Hook ω τ T} (h : v.whole = some visit) (tree : T) :
    (visit tree).IsConstant hook

namespace TreeVisitor.IsConstant
variable {ω τ S T : Type} [Tree T] {hook : ErrorHook ω} {v : TreeVisitor ω τ T}

theorem descend (hv : v.IsConstant hook) (depth : Nat) (tree : T) :
    (v.descend depth tree).IsConstant hook := by
  induction depth generalizing tree with
  | zero => exact Hook.isConstant_fail _
  | succ depth ih =>
    exact (hv.preVisit tree).bind fun t => (hv.visitNode t).bind fun t =>
      (Hook.IsConstant.filterMap ih _).bind fun children => hv.postVisit _

theorem visit (hv : v.IsConstant hook) (tree : T) : (v.visit tree).IsConstant hook := by
  unfold TreeVisitor.visit
  cases hw : v.whole with
  | none => exact hv.descend _ tree
  | some visit => exact hv.whole hw tree

theorem onKind [Accepts S T] (hv : v.IsConstant hook) (initial : τ) :
    (v.onKind initial : SourceVisitor ω S).Each (Action.IsConstant hook) where
  accepts s := by
    change Action.IsConstant hook (v.acceptsKind s)
    unfold TreeVisitor.acceptsKind
    split
    · exact hv.accepts _
    · exact Action.isConstant_pure _
  visit s := by
    change Action.IsConstant hook (v.visitKind initial s)
    unfold TreeVisitor.visitKind
    split
    · exact Action.isConstant_pure _
    · refine (hv.accepts _).bind fun accepted => ?_
      split
      · exact ((hv.visit _).start initial).bind fun result => Action.isConstant_pure _
      · exact Action.isConstant_pure _

end TreeVisitor.IsConstant

namespace KindFactory
variable {ω S T : Type} [Tree T] [Accepts S T] {hook : ErrorHook ω} {k : KindFactory ω T}

def IsConstant (hook : ErrorHook ω) (k : KindFactory ω T) : Prop :=
  ∃ v initial, (∀ c, k.make.perform hook c = ((v, initial), c)) ∧ v.IsConstant hook

theorem IsConstant.factory (h : k.IsConstant hook) :
    (k.factory S).Each hook (Action.IsConstant hook) := by
  obtain ⟨v, initial, hmake, hv⟩ := h
  have hmade : ∀ c, Action.perform (k.factory S) hook c = (v.onKind initial, c) := by
    intro c
    rw [KindFactory.factory, map_eq_pure_bind, Action.perform_bind, hmake]
    rfl
  constructor
  case makes => exact ⟨_, hmade⟩
  case made =>
    intro c
    rw [hmade]
    exact hv.onKind initial

end KindFactory

end Codemod
