import Codemod.Proofs.CycleControl
import Codemod.Proofs.Escalation

namespace Codemod

namespace Recipe
variable {ω S : Type} {stage : Stage ω S}

mutual
theorem exists_at_of_mem_stages (position : Nat) (rs : List (Recipe ω S)) (r : Recipe ω S)
    (h : stage ∈ r.stages) : ∃ path, At position (r :: rs) path stage := by
  cases r with
  | mk own children =>
    rw [stages, List.mem_cons] at h
    rcases h with rfl | h
    · exact ⟨_, .here⟩
    · obtain ⟨path, hp⟩ := exists_at_of_mem_stagesOf 0 children h
      exact ⟨_, .under hp⟩

theorem exists_at_of_mem_stagesOf (position : Nat) (rs : List (Recipe ω S))
    (h : stage ∈ stagesOf rs) : ∃ path, At position rs path stage := by
  cases rs with
  | nil => simp [stagesOf] at h
  | cons r rs =>
    rw [stagesOf, List.mem_append] at h
    rcases h with h | h
    · exact exists_at_of_mem_stages position rs r h
    · obtain ⟨path, hp⟩ := exists_at_of_mem_stagesOf (position + 1) rs h
      exact ⟨path, .next hp⟩
end

def HoldsBlank (r : Recipe ω S) : Prop :=
  ∃ path stage, At 0 [r] path stage ∧ ∀ ch ∈ stage.name.toList, Text.isBlankChar ch = true

theorem holdsBlank_iff {r : Recipe ω S} : r.HoldsBlank ↔ r.hasBlankName = true := by
  rw [hasBlankName, List.any_eq_true]
  constructor
  · rintro ⟨path, stage, hat, hb⟩
    exact ⟨stage, hat.mem_stages, Text.isBlank_iff.mpr hb⟩
  · rintro ⟨stage, hm, hb⟩
    obtain ⟨path, hat⟩ := exists_at_of_mem_stages 0 [] r hm
    exact ⟨path, stage, hat, Text.isBlank_iff.mp hb⟩

theorem build_eq_ok_iff {children : List (Recipe ω S)} {r : Recipe ω S} :
    build stage children = .ok r ↔
      ¬ (Recipe.mk stage children).HoldsBlank ∧ r = ⟨stage, children⟩ := by
  rw [build_eq, holdsBlank_iff]
  split
  case isTrue hb => simp [hb]
  case isFalse hb => simp [hb, eq_comm]

end Recipe

namespace Source
variable {S : Type} [Source S]

def RepeatsFirst (batch : List S) (s : S) : Prop :=
  ∃ before after, batch = before ++ s :: after ∧ Distinct before ∧ Tree.id s ∈ ids before

end Source

section
variable {S : Type} [Source S]

theorem firstRepeated_eq_some_iff {seen : List TreeId} {batch : List S} {s : S} :
    firstRepeated seen batch = some s ↔ ∃ before after, batch = before ++ s :: after ∧
      firstRepeated seen before = none ∧ (Tree.id s ∈ Source.ids before ∨ Tree.id s ∈ seen) := by
  induction batch generalizing seen with
  | nil => simp [firstRepeated]
  | cons first batch ih =>
    rw [firstRepeated]
    split
    case isTrue hm =>
      constructor
      · rintro ⟨⟩
        exact ⟨[], batch, rfl, rfl, .inr hm⟩
      · rintro ⟨before, after, he, hn, -⟩
        cases before with
        | nil => exact congrArg some (List.cons.inj he).1
        | cons b before =>
          obtain ⟨rfl, -⟩ := List.cons.inj he
          simp [firstRepeated, hm] at hn
    case isFalse hm =>
      rw [ih]
      constructor
      · rintro ⟨before, after, rfl, hn, hs⟩
        refine ⟨first :: before, after, rfl, by rw [firstRepeated, if_neg hm, hn], ?_⟩
        rw [Source.ids_cons]
        rcases hs with hs | hs
        · exact .inl (List.mem_cons_of_mem _ hs)
        · rcases List.mem_cons.mp hs with hs | hs
          · exact .inl (hs ▸ List.mem_cons_self)
          · exact .inr hs
      · rintro ⟨before, after, he, hn, hs⟩
        cases before with
        | nil =>
          obtain ⟨rfl, -⟩ := List.cons.inj he
          exact absurd (hs.resolve_left (by simp [Source.ids])) hm
        | cons b before =>
          obtain ⟨rfl, rfl⟩ := List.cons.inj he
          rw [firstRepeated, if_neg hm] at hn
          refine ⟨before, after, rfl, hn, ?_⟩
          rw [Source.ids_cons, List.mem_cons] at hs
          rw [List.mem_cons]
          exact (or_assoc.trans or_left_comm).mp hs

theorem repeatsFirst_iff {batch : List S} {s : S} :
    Source.RepeatsFirst batch s ↔ firstRepeated [] batch = some s := by
  rw [firstRepeated_eq_some_iff]
  simp [Source.RepeatsFirst, Source.Distinct, firstRepeated_eq_none_iff]

theorem exists_repeatsFirst_iff {batch : List S} :
    (∃ s, Source.RepeatsFirst batch s) ↔ ¬ Source.Distinct batch := by
  have hd : firstRepeated [] batch = none ↔ Source.Distinct batch := by
    simp [Source.Distinct, firstRepeated_eq_none_iff]
  simp only [repeatsFirst_iff, ← hd, ← Option.ne_none_iff_exists', ne_eq]

theorem checkIds_eq_error_iff {recipe : String} {batch : List S} {e : RecipeError} :
    checkIds recipe batch = .error e ↔ ∃ s, Source.RepeatsFirst batch s ∧
      e = .contractViolation recipe (.duplicateId (Tree.id s) (Source.path s)) := by
  simp only [repeatsFirst_iff]
  unfold checkIds
  cases firstRepeated [] batch <;> simp [eq_comm]

end

theorem Config.fault?_ne_none_iff {c : Config} :
    c.fault? ≠ none ↔ c.maxCycles = 0 ∨ c.maxCycles < c.minCycles := by
  rw [ne_eq, fault?_eq_none_iff]
  omega

namespace Scheduler
variable {ω S : Type} [Source S] {σ : Scheduler} {hook : ErrorHook ω} {recipe : Recipe ω S}
variable {batch : List S} {c : Context ω} {e : RecipeError}

def Refuses (σ : Scheduler) (hook : ErrorHook ω) (recipe : Recipe ω S) (batch : List S)
    (c : Context ω) (e : RecipeError) : Prop :=
  (σ.run recipe batch).perform hook c = (.error e, c) ∧ σ.events hook recipe batch c = []

theorem refuses_iff : σ.Refuses hook recipe batch c e ↔ σ.checks recipe batch = .error e := by
  constructor
  · rintro ⟨hr, hev⟩
    have hconduct : σ.Conduct hook recipe batch _ _ := conduct_run c
    rw [hr, hev] at hconduct
    rcases hconduct.doors rfl with ⟨pre, error, he⟩ | ⟨-, -, ⟨hc, -⟩ | ⟨pre, call, he, -⟩⟩
    · simp at he
    · exact hc
    · simp at he
  · intro hc
    refine ⟨?_, (rejected_run hc).1⟩
    rw [run, hc, Attempt.bind_of_error (Attempt.perform_ofExcept _ _ _)]

theorem checks_of_fault {fault : ConfigFault} (h : σ.config.fault? = some fault) :
    σ.checks recipe batch = .error (.config fault) := by
  simp [checks, Config.validate, h, bind, Except.bind]

theorem checks_of_blank (hv : σ.config.fault? = none) (hn : recipe.hasBlankName = true) :
    σ.checks recipe batch = .error (.invalidRecipe .blankName) := by
  simp [checks, Config.validate, Recipe.validate, hv, hn, bind, Except.bind]

-- The first check that fails decides the error.
theorem checks_eq_error_iff : σ.checks recipe batch = .error e ↔
    (∃ fault, σ.config.fault? = some fault ∧ e = .config fault) ∨
    (σ.config.fault? = none ∧ recipe.HoldsBlank ∧ e = .invalidRecipe .blankName) ∨
    (σ.config.fault? = none ∧ ¬ recipe.HoldsBlank ∧ ∃ s, Source.RepeatsFirst batch s ∧
      e = .contractViolation recipe.stage.name (.duplicateId (Tree.id s) (Source.path s))) := by
  rw [Recipe.holdsBlank_iff, ← checkIds_eq_error_iff]
  cases hv : σ.config.fault? with
  | some fault =>
    rw [checks_of_fault hv]
    constructor
    · rintro ⟨⟩
      exact .inl ⟨fault, rfl, rfl⟩
    · rintro (⟨_, ⟨⟩, rfl⟩ | ⟨⟨⟩, -⟩ | ⟨⟨⟩, -⟩)
      rfl
  | none =>
    cases hn : recipe.hasBlankName with
    | true => simp [checks_of_blank hv hn, eq_comm]
    | false => simp [checks_of_valid hv hn]

theorem handed_back_of_accepted (ha : σ.checks recipe batch = .ok ())
    (hr : ((σ.run recipe batch).perform hook c).1 = .error e)
    (he : (∃ fault, e = .config fault) ∨ ∃ flaw, e = .invalidRecipe flaw) :
    ∃ pre error, σ.events hook recipe batch c = pre ++ [.report error (.error e)] := by
  have hconduct : σ.Conduct hook recipe batch _ _ := conduct_run c
  rcases hconduct.doors hr with h | ⟨-, -, ⟨hc, -⟩ | ⟨pre, call, -, hb⟩⟩
  · exact h
  · rw [ha] at hc
    cases hc
  · obtain ⟨breach, rfl⟩ := Call.of_breach? hb
    rcases he with ⟨fault, he⟩ | ⟨flaw, he⟩ <;> cases he

/-- Bad input is refused before anything is done, for the first reason that there is: the
configuration, a blank name in the tree, an id that comes twice. Of what is not refused, only the
hook brings out an error of the first two kinds. -/
theorem bad_input_is_refused (σ : Scheduler) (hook : ErrorHook ω) (recipe : Recipe ω S)
    (batch : List S) (c : Context ω) :
    let refuses := σ.Refuses hook recipe batch c
    let inconsistent := σ.config.maxCycles = 0 ∨ σ.config.maxCycles < σ.config.minCycles
    ((∃ fault, refuses (.config fault)) ↔ inconsistent) ∧
    ((∃ flaw, refuses (.invalidRecipe flaw)) ↔ ¬ inconsistent ∧ recipe.HoldsBlank) ∧
    (∀ name breach, refuses (.contractViolation name breach) ↔
      ¬ inconsistent ∧ ¬ recipe.HoldsBlank ∧ ∃ s, Source.RepeatsFirst batch s ∧
        name = recipe.stage.name ∧ breach = .duplicateId (Tree.id s) (Source.path s)) ∧
    ((∃ s, Source.RepeatsFirst batch s) ↔ ¬ Source.Distinct batch) ∧
    (¬ inconsistent → ¬ recipe.HoldsBlank → Source.Distinct batch →
      ∀ e, ((σ.run recipe batch).perform hook c).1 = .error e →
        ((∃ fault, e = .config fault) ∨ ∃ flaw, e = .invalidRecipe flaw) →
        ∃ pre error, σ.events hook recipe batch c = pre ++ [.report error (.error e)]) ∧
    ∀ (stage : Stage ω S) (children : List (Recipe ω S)) (r : Recipe ω S),
      Recipe.build stage children = .ok r ↔
        ¬ (Recipe.mk stage children).HoldsBlank ∧ r = ⟨stage, children⟩ := by
  intro refuses inconsistent
  have hi : σ.config.fault? ≠ none ↔ inconsistent := Config.fault?_ne_none_iff
  have hv : σ.config.fault? = none ↔ ¬ inconsistent := not_not.symm.trans (not_congr hi)
  have hrefuses : ∀ e, refuses e ↔ _ := fun e => refuses_iff.trans checks_eq_error_iff
  refine ⟨?_, ?_, ?_, exists_repeatsFirst_iff, ?_, fun stage children r => Recipe.build_eq_ok_iff⟩
  · rw [← hi, Option.ne_none_iff_exists']
    simp [hrefuses]
  · simp [hrefuses, hv]
  · intro name breach
    simp [hrefuses, hv]
  · intro hc hb hd e
    refine handed_back_of_accepted ?_
    rw [checks_of_valid (hv.mpr hc) (by simpa [Recipe.holdsBlank_iff] using hb)]
    exact checkIds_eq_ok_iff.mpr hd

end Scheduler

namespace Sample

def lateBlank : Recipe Unit PlainText :=
  recipe.addChild (.composite "late" [.composite " \t" []])

theorem first_fault_is_refused :
    let twice := [text 1 "x", text 2 "x", text 2 "y", text 1 "y"]
    let unbounded : Scheduler := { config := { maxCycles := 1, minCycles := 2 } }
    (∃ fault, unbounded.Refuses .record lateBlank twice start (.config fault)) ∧
      (∃ flaw, scheduler.Refuses .record lateBlank twice start (.invalidRecipe flaw)) ∧
      scheduler.Refuses .record recipe twice start
        (.contractViolation "root" (.duplicateId ⟨2⟩ ⟨["a"]⟩)) ∧
      ¬ Source.Distinct twice := by
  intro twice unbounded
  obtain ⟨hconfig, -⟩ := Scheduler.bad_input_is_refused unbounded .record lateBlank twice start
  obtain ⟨-, hinvalid, -⟩ := Scheduler.bad_input_is_refused scheduler .record lateBlank twice start
  obtain ⟨-, -, hbreach, hdistinct, -⟩ :=
    Scheduler.bad_input_is_refused scheduler .record recipe twice start
  have hr : Source.RepeatsFirst twice (text 2 "y") :=
    ⟨[text 1 "x", text 2 "x"], [text 1 "y"], rfl,
      (by decide : (Source.ids [text 1 "x", text 2 "x"]).Nodup), by decide⟩
  refine ⟨hconfig.mpr (by decide), hinvalid.mpr ⟨by decide, ?_⟩, ?_, hdistinct.mp ⟨_, hr⟩⟩
  · exact Recipe.holdsBlank_iff.mpr (by decide)
  · refine (hbreach _ _).mpr ⟨by decide, ?_, _, hr, rfl, rfl⟩
    exact mt Recipe.holdsBlank_iff.mp (by decide)

end Sample

end Codemod
