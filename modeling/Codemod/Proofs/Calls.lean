import Codemod.Recipe

namespace Codemod
variable {ω S : Type}

structure SourceVisitor.Each (P : ∀ {α : Type}, Action ω α → Prop) (v : SourceVisitor ω S) :
    Prop where
  accepts (source : S) : P (v.accepts source)
  visit (source : S) : P (v.visit source)

structure VisitorFactory.Each (hook : ErrorHook ω) (P : ∀ {α : Type}, Action ω α → Prop)
    (factory : VisitorFactory ω S) : Prop where
  makes : P factory
  made (c : Context ω) : (Action.perform factory hook c).1.Each P

theorem VisitorFactory.Each.visitor {hook : ErrorHook ω} {P : ∀ {α : Type}, Action ω α → Prop}
    {factory : VisitorFactory ω S} {visitor : SourceVisitor ω S} {c d : Context ω}
    (h : factory.Each hook P) (hm : Action.perform factory hook c = (visitor, d)) :
    visitor.Each P := by
  have hv := h.made c
  rwa [hm] at hv

structure Stage.Each (hook : ErrorHook ω) (P : ∀ {α : Type}, Action ω α → Prop)
    (stage : Stage ω S) : Prop where
  gate {test : VisitorFactory ω S} (h : stage.gate = some test) : test.Each hook P
  sourceTest {test : VisitorFactory ω S} (h : stage.sourceTest = some test) : test.Each hook P
  visitor {factory : VisitorFactory ω S} (h : stage.visitor = some factory) : factory.Each hook P

end Codemod
