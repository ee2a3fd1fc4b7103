import Codemod.Proofs.CallLog

namespace Codemod

def RecipeError.IsUnrouted : RecipeError → Prop
  | contractViolation _ _ | invalidRecipe _ | config _ => True
  | visitFailed _ _ _ | transformFailed _ _ | applicabilityFailed _ _ _ | aborted _ => False

theorem Attempt.error?_eq_some_iff {α : Type} {r : Except RecipeError α} {e : RecipeError} :
    Attempt.error? r = some e ↔ r = .error e := by
  cases r <;> simp [Attempt.error?]

theorem checkIds_isError_iff {S : Type} [Source S] (recipe : String) {batch : List S} :
    (∃ e, checkIds recipe batch = .error e) ↔ ¬ Source.Distinct batch := by
  rw [Source.Distinct, ← checkIds_eq_ok_iff]
  cases checkIds recipe batch <;> simp

namespace Call
variable {S : Type} [Source S] {call : Call S} {e : RecipeError}

def Breaks : Call S → Prop
  | visit _ .visitor source (.ok (some after)) => Tree.id after ≠ Tree.id source
  | transform _ _ (.ok after) => ¬ Source.Distinct after
  | _ => False

theorem of_failure? (h : call.failure? = some e) :
    e.isFatal = false ∧ e.recipe? = some call.recipe ∧ call.breach? = none := by
  match call with
  | visit recipe role source (.error cause) =>
    obtain rfl := Option.some.inj h
    cases role <;> exact ⟨rfl, rfl, rfl⟩
  | transform recipe batch (.error cause) =>
    obtain rfl := Option.some.inj h
    exact ⟨rfl, rfl, rfl⟩

theorem of_breach? (h : call.breach? = some e) :
    ∃ breach, e = .contractViolation call.recipe breach := by
  match call with
  | visit recipe .visitor source (.ok (some after)) =>
    simp only [breach?, Option.ite_none_left_eq_some, Option.some.injEq] at h
    exact ⟨_, h.2.symm⟩
  | transform recipe batch (.ok after) =>
    cases hc : checkIds recipe after with
    | ok => simp [breach?, hc] at h
    | error e' =>
      obtain rfl : e' = e := by simpa [breach?, hc] using h
      exact checkIds_eq_error hc

theorem breaks_iff : call.Breaks ↔ ∃ e, call.breach? = some e := by
  match call with
  | visit recipe .visitor source (.ok (some after)) => simp [Breaks, breach?]
  | visit recipe .visitor source (.ok none) => simp [Breaks, breach?]
  | visit recipe .visitor source (.error cause) => simp [Breaks, breach?]
  | visit recipe .gate source result => simp [Breaks, breach?]
  | visit recipe .sourceTest source result => simp [Breaks, breach?]
  | make recipe role => simp [Breaks, breach?]
  | accept recipe role source accepted => simp [Breaks, breach?]
  | transform recipe batch (.error cause) => simp [Breaks, breach?]
  | transform recipe batch (.ok after) =>
    rw [Breaks, ← checkIds_isError_iff recipe, breach?]
    cases checkIds recipe after <;> simp

end Call

theorem prefix_append_singleton_iff {α : Type} {pre l : List α} {x y : α} :
    pre ++ [x] <+: l ++ [y] ↔ pre = l ∧ x = y ∨ pre ++ [x] <+: l := by
  rw [List.prefix_concat_iff, List.append_singleton_inj]

namespace Course
variable {ω S : Type} [Source S] {hook : ErrorHook ω} {es pre : List (Event S)}
variable {last : Option RecipeError} {call : Call S} {error e : RecipeError}
variable {answer : Except RecipeError Unit}

theorem after_failure (h : Course hook es last) (hp : pre ++ [.report error answer] <+: es) :
    ∃ init call, pre = init ++ [.call call] ∧ call.failure? = some error ∧
      hook.Answers error answer := by
  induction h with
  | nil => simp at hp
  | called _ _ ih =>
    rcases prefix_append_singleton_iff.mp hp with ⟨-, hr⟩ | hp
    · cases hr
    · exact ih hp
  | reported _ hf ha ih =>
    rcases prefix_append_singleton_iff.mp hp with ⟨rfl, hr⟩ | hp
    · cases hr
      exact ⟨_, _, rfl, hf, ha⟩
    · rcases prefix_append_singleton_iff.mp hp with ⟨-, hr⟩ | hp
      · cases hr
      · exact ih hp

theorem before_report (h : Course hook es last) (hp : pre ++ [.call call] <+: es)
    (hf : call.failure? = some error) :
    ∃ answer, pre ++ [.call call] ++ [.report error answer] <+: es := by
  induction h with
  | nil => simp at hp
  | called _ hn ih =>
    rcases prefix_append_singleton_iff.mp hp with ⟨-, hc⟩ | hp
    · cases hc
      simp [hn] at hf
    · obtain ⟨answer, hr⟩ := ih hp
      exact ⟨answer, hr.trans (List.prefix_append _ _)⟩
  | @reported _ _ _ answer _ hf' _ ih =>
    rcases prefix_append_singleton_iff.mp hp with ⟨-, hc⟩ | hp
    · cases hc
    · rcases prefix_append_singleton_iff.mp hp with ⟨rfl, hc⟩ | hp
      · cases hc
        obtain rfl := Option.some.inj (hf'.symm.trans hf)
        exact ⟨answer, List.prefix_refl _⟩
      · obtain ⟨answer, hr⟩ := ih hp
        exact ⟨answer, (hr.trans (List.prefix_append _ _)).trans (List.prefix_append _ _)⟩

theorem handed_back (h : Course hook es last) (hp : pre ++ [.report error (.error e)] <+: es) :
    es = pre ++ [.report error (.error e)] ∧ last = some e := by
  induction h with
  | nil => simp at hp
  | called _ _ ih =>
    rcases prefix_append_singleton_iff.mp hp with ⟨-, hr⟩ | hp
    · cases hr
    · cases (ih hp).2
  | reported _ _ _ ih =>
    rcases prefix_append_singleton_iff.mp hp with ⟨rfl, hr⟩ | hp
    · cases hr
      exact ⟨rfl, rfl⟩
    · rcases prefix_append_singleton_iff.mp hp with ⟨-, hr⟩ | hp
      · cases hr
      · cases (ih hp).2

theorem broken (h : Course hook es last) (hp : pre ++ [.call call] <+: es)
    (hb : call.breach? = some e) : es = pre ++ [.call call] ∧ last = some e := by
  induction h with
  | nil => simp at hp
  | called _ _ ih =>
    rcases prefix_append_singleton_iff.mp hp with ⟨rfl, hc⟩ | hp
    · cases hc
      exact ⟨rfl, hb⟩
    · cases (ih hp).2
  | reported _ hf _ ih =>
    rcases prefix_append_singleton_iff.mp hp with ⟨-, hc⟩ | hp
    · cases hc
    · rcases prefix_append_singleton_iff.mp hp with ⟨rfl, hc⟩ | hp
      · cases hc
        simp [(Call.of_failure? hf).2.2] at hb
      · cases (ih hp).2

theorem ended (h : Course hook es last) (hl : last = some e) :
    (∃ init call, es = init ++ [.call call] ∧ call.breach? = some e) ∨
      ∃ init error, es = init ++ [.report error (.error e)] := by
  cases h with
  | nil => cases hl
  | @called init call _ _ => exact .inl ⟨init, call, rfl, hl⟩
  | @reported init call error answer _ _ _ =>
    obtain rfl := Attempt.error?_eq_some_iff.mp hl
    exact .inr ⟨init ++ [.call call], error, rfl⟩

end Course

namespace Scheduler
variable {ω S : Type} [Source S]

/-- How a run deals with failures and breaches of the contract. A prefix of the events is where the
run stood at some moment. -/
structure Conduct (σ : Scheduler) (hook : ErrorHook ω) (recipe : Recipe ω S) (batch : List S)
    (events : List (Event S)) (result : Except RecipeError (RecipeRun S)) : Prop where
  reported {pre error answer} (h : pre ++ [.report error answer] <+: events) :
    ∃ init call, pre = init ++ [.call call] ∧ call.failure? = some error ∧
      error.isFatal = false ∧ error.recipe? = some call.recipe ∧ hook.Answers error answer
  routed {pre call error} (h : pre ++ [.call call] <+: events) (hf : call.failure? = some error) :
    ∃ answer, pre ++ [.call call] ++ [.report error answer] <+: events
  handed_back {pre error e} (h : pre ++ [.report error (.error e)] <+: events) :
    events = pre ++ [.report error (.error e)] ∧ result = .error e
  broken {pre call e} (h : pre ++ [.call call] <+: events) (hb : call.breach? = some e) :
    events = pre ++ [.call call] ∧ result = .error e
  doors {e} (h : result = .error e) :
    (∃ pre error, events = pre ++ [.report error (.error e)]) ∨
      e.IsUnrouted ∧ (∀ error e', .report error (.error e') ∉ events) ∧
        (σ.checks recipe batch = .error e ∧ events = [] ∨
          ∃ pre call, events = pre ++ [.call call] ∧ call.breach? = some e)

variable {σ : Scheduler} {hook : ErrorHook ω} {recipe : Recipe ω S} {batch : List S}

theorem checks_of_valid (hv : σ.config.fault? = none) (hn : recipe.hasBlankName = false) :
    σ.checks recipe batch = checkIds recipe.stage.name batch := by
  simp [checks, Config.validate, Recipe.validate, hv, hn, bind, Except.bind]

theorem isUnrouted_of_checks {e : RecipeError} (h : σ.checks recipe batch = .error e) :
    e.IsUnrouted := by
  cases hv : σ.config.fault? with
  | some fault =>
    obtain rfl : .config fault = e := by
      simpa [checks, Config.validate, hv, bind, Except.bind] using h
    trivial
  | none =>
    cases hn : recipe.hasBlankName with
    | true =>
      obtain rfl : .invalidRecipe .blankName = e := by
        simpa [checks, Config.validate, Recipe.validate, hv, hn, bind, Except.bind] using h
      trivial
    | false =>
      rw [checks_of_valid hv hn] at h
      obtain ⟨breach, rfl⟩ := checkIds_eq_error h
      trivial

theorem rejected_run {c : Context ω} {e : RecipeError} (h : σ.checks recipe batch = .error e) :
    σ.events hook recipe batch c = [] ∧ ((σ.run recipe batch).perform hook c).1 = .error e := by
  constructor
  · rw [events, loggedRun_of_rejected h]
    rfl
  · rw [perform_run_eq, loggedRun_of_rejected h]

theorem conduct_run (c : Context ω) :
    σ.Conduct hook recipe batch (σ.events hook recipe batch c)
      ((σ.run recipe batch).perform hook c).1 := by
  cases hc : σ.checks recipe batch with
  | error e =>
    obtain ⟨hev, hr⟩ : σ.events hook recipe batch c = [] ∧
        ((σ.run recipe batch).perform hook c).1 = .error e := rejected_run hc
    rw [hev, hr]
    constructor
    case reported => simp
    case routed => simp
    case handed_back => simp
    case broken => simp
    case doors =>
      rintro e' ⟨⟩
      exact .inr ⟨isUnrouted_of_checks hc, by simp, .inl ⟨hc, rfl⟩⟩
  | ok =>
    have hcourse := course_events hook c hc
    constructor
    case reported =>
      intro pre error answer hp
      obtain ⟨init, call, hpre, hf, ha⟩ := hcourse.after_failure hp
      obtain ⟨hfatal, hname, -⟩ := Call.of_failure? hf
      exact ⟨init, call, hpre, hf, hfatal, hname, ha⟩
    case routed => exact fun hp hf => hcourse.before_report hp hf
    case handed_back =>
      intro pre error e hp
      obtain ⟨hes, hl⟩ := hcourse.handed_back hp
      exact ⟨hes, Attempt.error?_eq_some_iff.mp hl⟩
    case broken =>
      intro pre call e hp hb
      obtain ⟨hes, hl⟩ := hcourse.broken hp hb
      exact ⟨hes, Attempt.error?_eq_some_iff.mp hl⟩
    case doors =>
      intro e hr
      rcases hcourse.ended (Attempt.error?_eq_some_iff.mpr hr) with ⟨pre, call, hes, hb⟩ | h
      · refine .inr ⟨?_, fun error e' hm => ?_, .inr ⟨pre, call, hes, hb⟩⟩
        · obtain ⟨breach, rfl⟩ := Call.of_breach? hb
          trivial
        · obtain ⟨pre', post, hes'⟩ := List.append_of_mem hm
          have hp : pre' ++ [.report error (.error e')] <+: σ.events hook recipe batch c :=
            ⟨post, by rw [hes']; simp⟩
          have hlast := (hcourse.handed_back hp).1
          rw [hes] at hlast
          cases (List.append_singleton_inj.mp hlast).2
      · exact .inl h

theorem Conduct.isUnrouted {events : List (Event S)} {result : Except RecipeError (RecipeRun S)}
    (h : σ.Conduct hook recipe batch events result) (hh : ∀ e c, (hook.handle e c).1 = .ok ())
    {e : RecipeError} (hr : result = .error e) : e.IsUnrouted := by
  rcases h.doors hr with ⟨pre, error, hes⟩ | ⟨he, -⟩
  · have hp : pre ++ [.report error (.error e)] <+: events := hes ▸ List.prefix_refl _
    obtain ⟨-, -, -, -, -, -, c, ha⟩ := h.reported hp
    simp [hh error c] at ha
  · exact he

theorem Conduct.breach_iff {events : List (Event S)} {result : Except RecipeError (RecipeRun S)}
    (h : σ.Conduct hook recipe batch events result)
    (hc : ∀ e, σ.checks recipe batch = .error e → events = [] ∧ result = .error e)
    (hv : σ.config.fault? = none) (hn : recipe.hasBlankName = false) :
    (∃ recipe breach, result = .error (.contractViolation recipe breach) ∧
        ∀ error e, .report error (.error e) ∉ events) ↔
      ¬ Source.Distinct batch ∨ ∃ call, .call call ∈ events ∧ call.Breaks := by
  rw [← checkIds_isError_iff recipe.stage.name, ← checks_of_valid hv hn]
  constructor
  · rintro ⟨recipe, breach, hr, hno⟩
    rcases h.doors hr with ⟨pre, error, rfl⟩ | ⟨-, -, ⟨he, -⟩ | ⟨pre, call, rfl, hb⟩⟩
    · exact absurd (List.mem_append_right _ (List.mem_singleton.mpr rfl)) (hno error _)
    · exact .inl ⟨_, he⟩
    · exact .inr ⟨call, by simp, Call.breaks_iff.mpr ⟨_, hb⟩⟩
  · rintro (⟨e, he⟩ | ⟨call, hm, hb⟩)
    · obtain ⟨rfl, hr⟩ := hc e he
      rw [checks_of_valid hv hn] at he
      obtain ⟨breach, rfl⟩ := checkIds_eq_error he
      exact ⟨_, breach, hr, by simp⟩
    · obtain ⟨e, hb⟩ := Call.breaks_iff.mp hb
      obtain ⟨pre, post, hes⟩ := List.append_of_mem hm
      have hp : pre ++ [.call call] <+: events := ⟨post, by rw [hes]; simp⟩
      obtain ⟨rfl, hr⟩ := h.broken hp hb
      obtain ⟨breach, rfl⟩ := Call.of_breach? hb
      rcases h.doors hr with ⟨pre', error, hes⟩ | ⟨-, hno, -⟩
      · cases (List.append_singleton_inj.mp hes).2
      · exact ⟨_, breach, hr, hno⟩

theorem errors_leave_by_two_doors (σ : Scheduler) (hook : ErrorHook ω) (recipe : Recipe ω S)
    (batch : List S) (c : Context ω) :
    σ.Conduct hook recipe batch (σ.events hook recipe batch c)
        ((σ.run recipe batch).perform hook c).1 ∧
      ((∀ e c, (hook.handle e c).1 = .ok ()) →
        ∀ e, ((σ.run recipe batch).perform hook c).1 = .error e → e.IsUnrouted) ∧
      (σ.config.fault? = none → recipe.hasBlankName = false →
        ((∃ recipe' breach, ((σ.run recipe batch).perform hook c).1 =
              .error (.contractViolation recipe' breach) ∧
            ∀ error e, .report error (.error e) ∉ σ.events hook recipe batch c) ↔
          ¬ Source.Distinct batch ∨
            ∃ call, .call call ∈ σ.events hook recipe batch c ∧ call.Breaks)) := by
  have h : σ.Conduct hook recipe batch _ _ := conduct_run c
  exact ⟨h, fun hh e hr => h.isUnrouted hh hr, h.breach_iff fun e he => rejected_run he⟩

end Scheduler

namespace Sample

def stumbling (old new : String) : VisitorFactory Unit PlainText :=
  (pure {
    accepts := fun t => pure (t.text ≠ "")
    visit := fun t => pure (
      if t.text = "" then .ok (some t)
      else if t.text = old then .ok (some { t with text := new })
      else .error (.failed t.text)) } :
    Action Unit (SourceVisitor Unit PlainText))

def stumblingRecipe : Recipe Unit PlainText :=
  .composite "root" [⟨{ name := "stumbling", visitor := some (stumbling "y" "y!") }, []⟩, swap]

-- Swallows the first error only.
def impatient : ErrorHook Unit :=
  .custom fun e c =>
    (if c.errors = [] then .ok () else .error (.aborted "again"), c.recordError e)

def misnaming : Stage Unit PlainText :=
  { name := "misnaming"
    visitor := some (pure {
      accepts := fun _ => pure true
      visit := fun t => pure (.ok (some { t with id := ⟨0⟩ })) } :
      Action Unit (SourceVisitor Unit PlainText)) }

def misnamed : Recipe Unit PlainText :=
  .composite "root" [swap, ⟨misnaming, []⟩]

theorem impatient_and_misnamed_runs_end :
    (∃ pre error, scheduler.events impatient stumblingRecipe batch start =
        pre ++ [.report error (.error (.aborted "again"))]) ∧
      ∃ e, ((scheduler.run misnamed batch).perform .record start).1 = .error e ∧ e.IsUnrouted ∧
        ∃ recipe breach, e = .contractViolation recipe breach := by
  constructor
  · have hr : Attempt.error? ((scheduler.run stumblingRecipe batch).perform impatient start).1 =
        some (.aborted "again") := by
      decide +kernel
    obtain ⟨hconduct, -⟩ :=
      Scheduler.errors_leave_by_two_doors scheduler impatient stumblingRecipe batch start
    rcases hconduct.doors (Attempt.error?_eq_some_iff.mp hr) with h | ⟨h, -⟩
    · exact h
    · exact h.elim
  · obtain ⟨-, hunrouted, hbreach⟩ :=
      Scheduler.errors_leave_by_two_doors scheduler .record misnamed batch start
    -- The stage before makes a visitor for each of the three sources and calls it.
    have hcall : (scheduler.events .record misnamed batch start)[7]? = some (.call
        (.visit "misnaming" .visitor (text 1 "") (.ok (some { text 1 "" with id := ⟨0⟩ })))) :=
      rfl
    have hbreaks : (Call.visit "misnaming" .visitor (text 1 "")
        (.ok (some { text 1 "" with id := ⟨0⟩ }))).Breaks := by
      unfold Call.Breaks
      decide
    obtain ⟨recipe, breach, hr, -⟩ :=
      (hbreach rfl rfl).mpr (.inr ⟨_, List.mem_of_getElem? hcall, hbreaks⟩)
    exact ⟨_, hr, hunrouted (fun _ _ => rfl) _ hr, recipe, breach, rfl⟩

end Sample

end Codemod
