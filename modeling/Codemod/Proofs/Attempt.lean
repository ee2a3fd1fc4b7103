import Codemod.Context

namespace Codemod.Attempt
variable {ω α β : Type} {hook : ErrorHook ω} {c d : Context ω}

theorem bind_eq_ok {a : Attempt ω α} {f : α → Attempt ω β} {y : β} :
    (a >>= f).perform hook c = (.ok y, d) ↔
      ∃ x e, a.perform hook c = (.ok x, e) ∧ (f x).perform hook e = (.ok y, d) := by
  rw [perform_bind]
  constructor
  · intro h
    split at h
    case h_1 x e ha => exact ⟨x, e, ha, h⟩
    case h_2 => simp at h
  · rintro ⟨x, e, ha, hf⟩
    rw [ha]
    exact hf

theorem bind_of_ok {a : Attempt ω α} {f : α → Attempt ω β} {x : α} {e : Context ω}
    (ha : a.perform hook c = (.ok x, e)) :
    (a >>= f).perform hook c = (f x).perform hook e := by
  rw [perform_bind, ha]

theorem bind_of_error {a : Attempt ω α} {f : α → Attempt ω β} {error : RecipeError}
    (ha : a.perform hook c = (.error error, d)) :
    (a >>= f).perform hook c = (.error error, d) := by
  rw [perform_bind, ha]

theorem bind_congr {a a' : Attempt ω α} {f f' : α → Attempt ω β}
    (ha : a'.perform hook c = a.perform hook c)
    (hf : ∀ x d, a.perform hook c = (.ok x, d) → (f' x).perform hook d = (f x).perform hook d) :
    (a' >>= f').perform hook c = (a >>= f).perform hook c := by
  rw [perform_bind, perform_bind, ha]
  split
  case h_1 x d hx => exact hf x d hx
  case h_2 => rfl

theorem pure_eq_ok {x y : α} :
    (pure x : Attempt ω α).perform hook c = (.ok y, d) ↔ y = x ∧ d = c := by
  rw [perform_pure]
  simp [eq_comm]

theorem context_bind (f : Context ω → Attempt ω β) :
    (context >>= f).perform hook c = (f c).perform hook c :=
  bind_of_ok (perform_context hook c)

theorem update_bind (g : Context ω → Context ω) (f : Unit → Attempt ω β) :
    (update g >>= f).perform hook c = (f ()).perform hook (g c) :=
  bind_of_ok (perform_update g hook c)

theorem ofExcept_eq_ok {r : Except RecipeError α} {y : α} :
    (ofExcept r).perform hook c = (.ok y, d) ↔ r = .ok y ∧ d = c := by
  rw [perform_ofExcept, Prod.mk.injEq, eq_comm (a := c)]

theorem lift_eq_ok {a : Action ω α} {y : α} :
    (liftM a : Attempt ω α).perform hook c = (.ok y, d) ↔ a.perform hook c = (y, d) := by
  rw [perform_lift, Prod.mk.injEq, Except.ok.injEq, ← Prod.mk.injEq]

theorem raise_eq_ok {e : RecipeError} :
    (raise e : Attempt ω Unit).perform hook c = (.ok (), d) ↔ hook.handle e c = (.ok (), d) := by
  rw [perform_raise]

theorem throw_ne_ok {e : RecipeError} {y : α} :
    (throw e : Attempt ω α).perform hook c ≠ (.ok y, d) := by
  rw [perform_throw]
  simp

theorem exists_ok {γ : Type} {a : Attempt ω α} {g : α → γ} {y : γ}
    (h : (a.perform hook c).1.toOption.map g = some y) :
    ∃ x d, a.perform hook c = (.ok x, d) ∧ g x = y := by
  obtain ⟨x, hx, hy⟩ := Option.map_eq_some_iff.mp h
  generalize ha : a.perform hook c = outcome at hx
  obtain ⟨r, d⟩ := outcome
  cases r with
  | error e => simp [Except.toOption] at hx
  | ok z =>
    obtain rfl : z = x := Option.some.inj hx
    exact ⟨z, d, rfl, hy⟩

end Codemod.Attempt
