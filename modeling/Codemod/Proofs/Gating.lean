import Codemod.Proofs.Kinds
import Codemod.Proofs.Substitution

namespace Codemod

theorem Recipe.hasBlankName_of_children {ω S : Type} (r : Recipe ω S)
    (h : ∀ stage ∈ stagesOf r.children, Text.isBlank stage.name = false) :
    r.hasBlankName = Text.isBlank r.stage.name := by
  obtain ⟨stage, children⟩ := r
  have hc : (stagesOf children).any (fun s => Text.isBlank s.name) = false := by simpa using h
  rw [hasBlankName, stages, List.any_cons, hc, Bool.or_false]

namespace Stage
variable {ω S : Type}

def bare (stage : Stage ω S) : Stage ω S :=
  { name := stage.name, displayName := stage.displayName }

def ungated (stage : Stage ω S) : Stage ω S :=
  { stage with gate := none }

end Stage

section
variable {ω S : Type} [Source S]

/-- The test neither fails nor has to do with the context, and the sources that it matches, those
that it accepts and then changes or deletes, are the picked ones. -/
def VisitorFactory.Tests (hook : ErrorHook ω) (picks : S → Bool) (test : VisitorFactory ω S) :
    Prop :=
  ∃ v, (∀ c, Action.perform test hook c = (v, c)) ∧ ∀ s, ∃ accepted,
    (∀ c, (v.accepts s).perform hook c = (accepted, c)) ∧
      if accepted then
        ∃ kept, (∀ c, (v.visit s).perform hook c = (.ok kept, c)) ∧ (picks s ↔ kept ≠ some s)
      else picks s = false

namespace Stage
variable {hook : ErrorHook ω} {picks : S → Bool} {test : VisitorFactory ω S} {stage : Stage ω S}

theorem matchesSource_of_tests (ht : test.Tests hook picks) (stage : Stage ω S) (s : S)
    (c : Context ω) : (stage.matchesSource test s).perform hook c = (.ok (picks s), c) := by
  obtain ⟨v, hmake, hv⟩ := ht
  obtain ⟨accepted, haccept, hs⟩ := hv s
  rw [matchesSource, Attempt.bind_of_ok (Attempt.lift_eq_ok.mpr (hmake c)),
    Attempt.bind_of_ok (Attempt.lift_eq_ok.mpr (haccept c))]
  cases accepted with
  | false =>
    obtain hs : picks s = false := hs
    rw [hs]
    rfl
  | true =>
    obtain ⟨kept, hvisit, hs⟩ := hs
    rw [if_pos rfl, Attempt.bind_of_ok (Attempt.lift_eq_ok.mpr (hvisit c))]
    cases kept with
    | none =>
      have hp : picks s = true := by simpa using hs
      rw [hp]
      rfl
    | some after =>
      have hp : picks s = decide (after ≠ s) := by
        rw [Bool.eq_iff_iff, hs]
        simp
      rw [hp]
      rfl

theorem admits_of_tests (hg : stage.gate = some test) (ht : test.Tests hook picks) (batch : List S)
    (c : Context ω) : (stage.admits batch).perform hook c = (.ok (batch.any picks), c) := by
  rw [admits, hg]
  change (stage.matchesAny test batch).perform hook c = _
  induction batch with
  | nil => rfl
  | cons s batch ih =>
    rw [matchesAny, Attempt.bind_of_ok (matchesSource_of_tests ht stage s c), List.any_cons]
    cases picks s with
    | true => rfl
    | false => exact ih

theorem visitSource_ungated (stage : Stage ω S) (factory : VisitorFactory ω S) (s : S) :
    stage.ungated.visitSource factory s = stage.visitSource factory s :=
  rfl

theorem visitInTurn_ungated (stage : Stage ω S) (factory : VisitorFactory ω S) (batch : List S) :
    stage.ungated.visitInTurn factory batch = stage.visitInTurn factory batch := by
  induction batch with
  | nil => rfl
  | cons s batch ih => rw [visitInTurn, visitInTurn, visitSource_ungated, ih]

theorem visitPositions_ungated (stage : Stage ω S) (factory : VisitorFactory ω S) (batch : List S)
    (positions : List Nat) :
    stage.ungated.visitPositions factory batch positions =
      stage.visitPositions factory batch positions := by
  induction positions with
  | nil => rfl
  | cons i positions ih => simp only [visitPositions, visitSource_ungated, ih]

end Stage

theorem Scheduler.transform_ungated (σ : Scheduler) (n : Nat) (path : RecipePath)
    (stage : Stage ω S) (batch : List S) :
    σ.transform n path stage.ungated batch = σ.transform n path stage batch := by
  unfold transform Stage.visitArranged
  simp only [Stage.visitInTurn_ungated, Stage.visitPositions_ungated]
  rfl

namespace Invocation
variable {σ : Scheduler} {hook : ErrorHook ω} {x : Invocation ω S}

def ungated (x : Invocation ω S) : Invocation ω S :=
  { x with stage := x.stage.ungated }

theorem replay_ungated (x : Invocation ω S) (p : Pass S) :
    p.replay x.ungated.applications = p.replay x.applications := by
  have h : x.ungated.applies = x.applies := rfl
  rw [applications, applications, h]
  split <;> rfl

theorem Performed.ungated (hx : x.Performed σ hook) (ha : x.admitted = true)
    (hg : x.gated = x.entry) : x.ungated.Performed σ hook where
  uncancelled := hx.uncancelled
  gate := by
    change (Except.ok true, x.entry) = (Except.ok x.admitted, x.gated)
    rw [ha, hg]
  transform h := by
    change (σ.transform x.cycle x.path x.stage.ungated x.before).perform hook x.gated = _
    rw [Scheduler.transform_ungated]
    exact hx.transform h
  idle := hx.idle

end Invocation

namespace Scheduler
variable {σ : Scheduler} {hook : ErrorHook ω} {recipe node new : Recipe ω S} {batch : List S}
variable {address : List Nat} {c : Context ω} {m m' : Moment ω S}
variable {own trail : List (Invocation ω S)}
variable {picks : S → Bool} {test : VisitorFactory ω S} {p : Pass S}

theorem serves_of_shut (ha : (node.stage.admits p.batch).perform hook c = (.ok false, c)) :
    σ.Serves hook node ⟨node.stage.bare, []⟩ p c where
  invoked {x} hx hs hb hc := by
    have hg := hx.gate
    rw [hs, hb, hc, ha] at hg
    obtain ⟨hadmitted, hgated⟩ := Prod.mk.inj hg
    have hadmitted : x.admitted = false := (Except.ok.inj hadmitted).symm
    have hn : x.applies = false := by simp [Invocation.applies, hadmitted]
    refine ⟨⟨x.cycle, x.path, node.stage.bare, x.entry, x.entry, x.entry, true, x.before, x.before⟩,
      ⟨hx.uncancelled, rfl, (fun ha => by cases ha), fun _ => ⟨rfl, rfl⟩⟩,
      rfl, rfl, rfl, rfl, rfl, ?_, ?_, ?_⟩
    · rw [(hx.idle hn).2, ← hgated, hc]
    · intro q
      rw [Invocation.applications.eq_def x, hn]
      rfl
    · exact .inr ⟨rfl, by simp [Invocation.below, hadmitted]⟩
  failing h := by
    cases h with
    | gate _ hg => cases ha.symm.trans hg
    | transform _ hg => cases ha.symm.trans hg

theorem serves_of_open (ha : (node.stage.admits p.batch).perform hook c = (.ok true, c)) :
    σ.Serves hook node ⟨node.stage.ungated, node.children⟩ p c where
  invoked {x} hx hs hb hc := by
    have hg := hx.gate
    rw [hs, hb, hc, ha] at hg
    obtain ⟨hadmitted, hgated⟩ := Prod.mk.inj hg
    have hadmitted : x.admitted = true := (Except.ok.inj hadmitted).symm
    have hgated : x.gated = x.entry := hgated.symm.trans hc.symm
    exact ⟨x.ungated, hx.ungated hadmitted hgated, congrArg Stage.ungated hs, rfl, rfl, rfl, rfl,
      rfl, x.replay_ungated, .inl rfl⟩
  failing h := by
    cases h with
    | gate _ hg => cases ha.symm.trans hg
    | transform hc hg ht hf =>
      obtain ⟨-, rfl⟩ := Prod.mk.inj (ha.symm.trans hg)
      refine .transform hc rfl ht ?_
      rw [transform_ungated]
      exact hf

structure ShutOut (address : List Nat) (trail : List (Invocation ω S)) (m : Moment ω S) :
    Prop where
  rows : ∀ row ∈ m.rows, ¬ 0 :: address <+: positions row.path
  trail : ∀ x ∈ trail, 0 :: address <+: positions x.path →
    positions x.path = 0 :: address ∧ x.admitted = false

theorem ShutOut.step (h : ShutOut address trail m) (hs : Step σ hook recipe m own m')
    (hown : ∀ x ∈ own, positions x.path = 0 :: address → x.admitted = false) :
    ShutOut address (trail ++ own) m' := by
  cases hs with
  | close =>
    rw [List.append_nil]
    exact ⟨fun row hm => h.rows row (List.mem_cons_of_mem _ hm), h.trail⟩
  | @skip n opening path position r rs =>
    rw [List.append_nil]
    refine ⟨fun row hm => ?_, h.trail⟩
    rcases List.mem_cons.mp hm with rfl | hm
    · exact h.rows ⟨path, position, r :: rs⟩ (List.mem_cons_self ..)
    · exact h.rows row (List.mem_cons_of_mem _ hm)
  | again =>
    rw [List.append_nil]
    exact ⟨by simp [Moment.start, positions], h.trail⟩
  | @invoke opening path position children rs rows p x hx hp hb =>
    have hpath : ¬ 0 :: address <+: positions path :=
      h.rows ⟨path, position, ⟨x.stage, children⟩ :: rs⟩ (List.mem_cons_self ..)
    -- The invocation is not below the address, as its row is not; it may be the one there.
    have hx : 0 :: address <+: positions x.path →
        positions x.path = 0 :: address ∧ x.admitted = false := by
      intro hpre
      have he : positions x.path = 0 :: address := by
        rw [hp, positions_concat, List.prefix_concat_iff] at hpre
        rw [hp, positions_concat, hpre.resolve_right hpath]
      exact ⟨he, hown x (List.mem_singleton_self x) he⟩
    constructor
    case rows =>
      intro row hm hpre
      rcases List.mem_append.mp hm with hm | hm
      · unfold Invocation.below at hm
        split at hm
        case isTrue ha =>
          rw [List.mem_singleton.mp hm] at hpre
          exact absurd (ha.symm.trans (hx hpre).2) (by simp)
        case isFalse => simp at hm
      · rcases List.mem_cons.mp hm with rfl | hm
        · exact hpath hpre
        · exact h.rows row (List.mem_cons_of_mem _ hm) hpre
    case trail =>
      intro y hy
      rcases List.mem_append.mp hy with hy | hy
      · exact h.trail y hy
      · rw [List.mem_singleton.mp hy]
        exact hx

namespace Reaches

theorem admitted_of_shut (h : Reaches σ hook recipe batch c trail m)
    (hget : recipe.get? address = some node)
    (hshut : m.Faces address →
      (node.stage.admits m.pass.batch).perform hook m.context = (.ok false, m.context))
    (hs : Step σ hook recipe m own m') :
    ∀ x ∈ own, positions x.path = 0 :: address → x.admitted = false := by
  intro y hy hpos
  cases hs with
  | @invoke opening path position children rs rows p x hx hp hb =>
    obtain rfl := List.mem_singleton.mp hy
    rw [hp, positions_concat] at hpos
    have ha := hshut ⟨hx.uncancelled, path, position, _, rs, rows, rfl, hpos⟩
    have hg := hx.gate
    rw [← h.eq_of_rows hget rfl hpos] at ha
    rw [← hb, ha] at hg
    exact (Except.ok.inj (Prod.mk.inj hg).1).symm
  | _ => simp at hy

theorem shutOut (hget : recipe.get? address = some node)
    (hshut : ∀ trail m, Reaches σ hook recipe batch c trail m → m.Faces address →
      (node.stage.admits m.pass.batch).perform hook m.context = (.ok false, m.context))
    (h : Reaches σ hook recipe batch c trail m) : ShutOut address trail m := by
  induction h with
  | start => exact ⟨by simp [Moment.start, positions], by simp⟩
  | step h hs ih => exact ih.step hs (h.admitted_of_shut hget (hshut _ _ h) hs)

theorem eq_nil_of_faces (hget : recipe.get? address = some node)
    (hshut : ∀ trail m, Reaches σ hook recipe batch c trail m → m.Faces address →
      (node.stage.admits m.pass.batch).perform hook m.context = (.ok false, m.context))
    (h : Reaches σ hook recipe batch c trail m) {below : List Nat}
    (hf : m.Faces (address ++ below)) : below = [] := by
  obtain ⟨-, path, position, r, rs, rows, hr, hp⟩ := hf
  rcases List.eq_nil_or_concat below with rfl | ⟨above, i, rfl⟩
  · rfl
  · have hp' : positions path ++ [position] = (0 :: address ++ above) ++ [i] := by simpa using hp
    have hpath : positions path = 0 :: address ++ above := (List.append_inj' hp' rfl).1
    have hout := (h.shutOut hget hshut).rows ⟨path, position, r :: rs⟩ (by simp [hr])
    exact absurd ⟨above, hpath.symm⟩ hout

end Reaches

/-- A recipe that is shut whenever it is come to could as well be a composite of no children, but
for the names below it; one that never is could as well have no gate. -/
theorem gates_are_all_or_nothing (σ : Scheduler) (hook : ErrorHook ω) (recipe : Recipe ω S)
    (batch : List S) (c : Context ω) (hget : recipe.get? address = some node)
    (hgate : node.stage.gate = some test) (ht : test.Tests hook picks) :
    ((∀ trail m, Reaches σ hook recipe batch c trail m → m.Faces address →
        m.pass.batch.any picks = false) →
      ((∀ stage ∈ Recipe.stagesOf node.children, Text.isBlank stage.name = false) →
        (σ.run (recipe.replaceAt address ⟨node.stage.bare, []⟩) batch).perform hook c =
          (σ.run recipe batch).perform hook c) ∧
      ∀ trail m, Reaches σ hook recipe batch c trail m →
        (∀ x ∈ trail, 0 :: address <+: positions x.path →
          positions x.path = 0 :: address ∧ x.admitted = false) ∧
        ∀ below, m.Faces (address ++ below) → below = [] ∧
          (node.stage.admits m.pass.batch).perform hook m.context = (.ok false, m.context)) ∧
    ((∀ trail m, Reaches σ hook recipe batch c trail m → m.Faces address →
        m.pass.batch.any picks = true) →
      (σ.run (recipe.replaceAt address ⟨node.stage.ungated, node.children⟩) batch).perform hook c =
        (σ.run recipe batch).perform hook c) := by
  have hadmits := fun batch c => Stage.admits_of_tests hgate ht batch c
  constructor
  · intro hnone
    have hshut : ∀ trail m, Reaches σ hook recipe batch c trail m → m.Faces address →
        (node.stage.admits m.pass.batch).perform hook m.context = (.ok false, m.context) := by
      intro trail m h hf
      rw [hadmits, hnone trail m h hf]
    refine ⟨fun hblank => ?_, fun trail m h => ⟨(h.shutOut hget hshut).trail, fun below hf => ?_⟩⟩
    · refine run_replaceAt hget (fun _ => rfl) ?_ ?_
      · rw [node.hasBlankName_of_children hblank]
        exact Recipe.hasBlankName_of_children _ nofun
      · exact fun trail m h hf => serves_of_shut (hshut trail m h hf)
    · obtain rfl := h.eq_nil_of_faces hget hshut hf
      rw [List.append_nil] at hf
      exact ⟨rfl, hshut trail m h hf⟩
  · intro hsome
    refine run_replaceAt hget (fun _ => rfl) ?_ ?_
    · obtain ⟨stage, children⟩ := node
      rfl
    · intro trail m h hf
      refine serves_of_open ?_
      rw [hadmits, hsome trail m h hf]

end Scheduler

end

namespace Sample

theorem tests_rewriting {old new : String} (h : new ≠ old) :
    (rewriting old new).Tests .record fun t => t.text = old := by
  refine ⟨_, fun c => rfl, fun t => ⟨true, fun c => rfl, _, fun c => rfl, ?_⟩⟩
  by_cases ht : t.text = old
  · simp only [ht, decide_true, if_true, ne_eq, Option.some.injEq, true_iff]
    exact fun he => h (by rw [← ht, ← he])
  · simp [ht]

def unnamed : Recipe Unit PlainText :=
  ⟨{ name := "gated", gate := some (rewriting "q" "!") }, [.composite " " []]⟩

-- The names below a shut gate are checked all the same, before anything is invoked.
theorem blank_names_behind_shut_gates_are_rejected :
    unnamed.get? [] = some unnamed ∧ unnamed.stage.gate = some (rewriting "q" "!") ∧
      ((rewriting "q" "!").Tests .record fun t => t.text = "q") ∧
      (∀ trail m, Scheduler.Reaches scheduler .record unnamed [text 1 "x"] start trail m →
        m.Faces [] → (m.pass.batch.any fun t => t.text = "q") = false) ∧
      ((scheduler.run unnamed [text 1 "x"]).perform .record start).1 =
        .error (.invalidRecipe .blankName) ∧
      ((scheduler.run (unnamed.replaceAt [] ⟨unnamed.stage.bare, []⟩) [text 1 "x"]).perform
        .record start).1.toOption.map RecipeRun.cycles = some 1 := by
  have hchecks : scheduler.checks unnamed [text 1 "x"] = .error (.invalidRecipe .blankName) := by
    rfl
  refine ⟨rfl, rfl, tests_rewriting (by decide), fun trail m h => ?_, ?_, by decide +kernel⟩
  · exact nomatch hchecks.symm.trans h.accepted
  · rw [Scheduler.run, hchecks]
    rfl

def quiet : Recipe Unit PlainText :=
  ⟨{ name := "quiet", gate := some (rewriting "q" "y"), visitor := some (rewriting "x" "w"),
     repeats := true }, [bang]⟩

def busy : Recipe Unit PlainText :=
  ⟨{ name := "busy", displayName := "Busy", gate := some (rewriting "z" "y") }, [bang]⟩

-- What the siblings of the two gated recipes do changes what these find in the next cycle.
def gated : Recipe Unit PlainText :=
  .composite "root" [.composite "outer" [quiet, busy], swap]

theorem keeps_texts {stage : Stage Unit PlainText} (hs : stage.batchTransform = none)
    (hv : ∀ factory, stage.visitor = some factory → ∃ old new, factory = rewriting old new ∧
      old ≠ "z" ∧ new ≠ "q") :
    scheduler.Keeps .record stage fun batch =>
      (∀ t ∈ batch, t.text ≠ "q") ∧ ∃ t ∈ batch, t.text = "z" := by
  intro n path before after c d h hb
  have hcarried : Source.Carried (fun s kept => ∃ t, kept = some t ∧
      (s.text ≠ "q" → t.text ≠ "q") ∧ (s.text = "z" → t.text = "z")) before after := by
    refine Scheduler.carried_transform hs (fun s => ⟨s, rfl, id, id⟩) ?_ h
    intro factory hf s c kept d hk
    obtain ⟨old, new, rfl, hold, hnew⟩ := hv factory hf
    rcases Stage.kept_of_visitSource hk with rfl | ⟨c₁, c₂, he⟩
    · exact ⟨s, rfl, id, id⟩
    · obtain rfl := Except.ok.inj he
      refine ⟨_, rfl, fun hq => ?_, fun hz => ?_⟩
      · split
        · exact hnew
        · exact hq
      · rw [if_neg (by rw [hz]; exact Ne.symm hold)]
        exact hz
  constructor
  · refine hcarried.forall_mem (fun s t hst hq => ?_) hb.1
    obtain ⟨_, he, ht, -⟩ := hst
    obtain rfl := Option.some.inj he
    exact ht hq
  · refine hcarried.exists_mem (fun s kept hst hz => ?_) hb.2
    obtain ⟨t, rfl, -, ht⟩ := hst
    exact ⟨t, rfl, ht hz⟩

theorem gated_batches {trail : List (Invocation Unit PlainText)} {m : Moment Unit PlainText}
    (h : Scheduler.Reaches scheduler .record gated batch start trail m) :
    (m.pass.batch.any fun t => t.text = "q") = false ∧
      (m.pass.batch.any fun t => t.text = "z") = true := by
  have hk : ∀ stage ∈ gated.stages, scheduler.Keeps .record stage fun batch =>
      (∀ t ∈ batch, t.text ≠ "q") ∧ ∃ t ∈ batch, t.text = "z" := by
    intro stage hm
    have hl : stage = { name := "root" } ∨ stage = { name := "outer" } ∨ stage = quiet.stage ∨
        stage = bang.stage ∨ stage = busy.stage ∨ stage = bang.stage ∨ stage = swap.stage := by
      simpa [gated, quiet, busy, bang, swap, Recipe.composite, Recipe.stages, Recipe.stagesOf]
        using hm
    rcases hl with rfl | rfl | rfl | rfl | rfl | rfl | rfl
    · exact keeps_texts rfl fun factory hf => by cases hf
    · exact keeps_texts rfl fun factory hf => by cases hf
    · exact keeps_texts rfl fun factory hf =>
        ⟨"x", "w", (Option.some.inj hf).symm, by decide, by decide⟩
    · exact keeps_texts rfl fun factory hf =>
        ⟨"y", "y!", (Option.some.inj hf).symm, by decide, by decide⟩
    · exact keeps_texts rfl fun factory hf => by cases hf
    · exact keeps_texts rfl fun factory hf =>
        ⟨"y", "y!", (Option.some.inj hf).symm, by decide, by decide⟩
    · exact keeps_texts rfl fun factory hf =>
        ⟨"x", "y", (Option.some.inj hf).symm, by decide, by decide⟩
  obtain ⟨hq, hz⟩ := h.keeps hk (by decide)
  exact ⟨by simpa using hq, by simpa using hz⟩

theorem quiet_and_busy_are_all_or_nothing :
    ((scheduler.run gated batch).perform .record start).1.toOption.map
        (fun run => (run.cycles, run.results.length)) = some (3, 1) ∧
      (scheduler.run (gated.replaceAt [0, 0] ⟨quiet.stage.bare, []⟩) batch).perform .record
          start =
        (scheduler.run gated batch).perform .record start ∧
      (∀ trail m, Scheduler.Reaches scheduler .record gated batch start trail m →
        ∀ x ∈ trail, [0, 0, 0] <+: positions x.path → x.admitted = false) ∧
      (scheduler.run (gated.replaceAt [0, 1] ⟨busy.stage.ungated, busy.children⟩) batch).perform
          .record start =
        (scheduler.run gated batch).perform .record start := by
  have hq : gated.get? [0, 0] = some quiet := rfl
  have hb : gated.get? [0, 1] = some busy := rfl
  have hquiet := (Scheduler.gates_are_all_or_nothing scheduler .record gated batch start hq rfl
    (tests_rewriting (by decide))).1 fun trail m h _ => (gated_batches h).1
  have hbusy := (Scheduler.gates_are_all_or_nothing scheduler .record gated batch start hb rfl
    (tests_rewriting (by decide))).2 fun trail m h _ => (gated_batches h).2
  refine ⟨by decide +kernel, hquiet.1 (by decide), fun trail m h x hx hpre => ?_, hbusy⟩
  exact ((hquiet.2 trail m h).1 x hx hpre).2

end Sample

end Codemod
