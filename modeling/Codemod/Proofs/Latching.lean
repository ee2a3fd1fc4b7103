import Codemod.Proofs.Calls
import Codemod.Proofs.Trail

namespace Codemod

def Action.Latches {ω α : Type} (hook : ErrorHook ω) (a : Action ω α) : Prop :=
  ∀ c, c.cancelled = true → (a.perform hook c).2.cancelled = true

def ErrorHook.Latches {ω : Type} (hook : ErrorHook ω) : Prop :=
  ∀ e c, c.cancelled = true → (hook.handle e c).2.cancelled = true

structure Stage.Latches {ω S : Type} (hook : ErrorHook ω) (stage : Stage ω S) : Prop extends
    stage.Each hook (Action.Latches hook) where
  batchTransform {f : BatchTransform ω S} (h : stage.batchTransform = some f) (batch : List S) :
    Action.Latches hook (f batch).run

inductive Context.Latched {ω : Type} : Context ω → List (Context ω) → Context ω → Prop
  | nil {c} : Latched c [] c
  | cons {c e d es} (h : c.cancelled = true → e.cancelled = true) (rest : Latched e es d) :
      Latched c (e :: es) d

namespace Context.Latched
variable {ω : Type} {c d e : Context ω} {es es' : List (Context ω)}

theorem single (h : c.cancelled = true → d.cancelled = true) : Latched c [d] d :=
  .cons h .nil

theorem append (h : Latched c es e) (h' : Latched e es' d) : Latched c (es ++ es') d := by
  induction h with
  | nil => exact h'
  | cons hc _ ih => exact .cons hc (ih h')

theorem cancelled (h : Latched c es d) (hc : c.cancelled = true) : d.cancelled = true := by
  induction h with
  | nil => exact hc
  | cons he _ ih => exact ih (he hc)

end Context.Latched

section
variable {ω S : Type} (hook : ErrorHook ω)

namespace Stage
variable [Source S]

end Stage

end

section
variable {ω S : Type} {hook : ErrorHook ω} {c d e : Context ω}

theorem Action.Latches.cancelled {α : Type} {a : Action ω α} {x : α} (hl : a.Latches hook)
    (ha : a.perform hook c = (x, d)) : c.cancelled = true → d.cancelled = true := by
  intro hc
  have hd := hl c hc
  rwa [ha] at hd

namespace Stage
variable [Source S] {stage : Stage ω S} {test factory : VisitorFactory ω S} {source : S}

end Stage

end

end Codemod
