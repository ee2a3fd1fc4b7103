import Codemod.Proofs.Congruence
import Codemod.Proofs.CycleControl
import Codemod.Proofs.Muffling

namespace Codemod

def Attempt.Idle {ω : Type} (hook : ErrorHook ω) {α : Type} (a : Attempt ω α) (x : α)
    (es : List RecipeError) : Prop :=
  es = [] ∧ ∀ c, a.perform hook c = (.ok x, c)

theorem Attempt.sequential_idle {ω : Type} (hook : ErrorHook ω) :
    Sequential fun a x es => Idle hook a x es where
  returns _ := ⟨rfl, fun _ => rfl⟩
  chains := by
    rintro α β a f x y _ _ ⟨rfl, ha⟩ ⟨rfl, hf⟩
    exact ⟨rfl, fun c => by rw [bind_of_ok (ha c), hf]⟩

namespace Recipe
variable {ω S : Type}

def replaceAt : Recipe ω S → List Nat → Recipe ω S → Recipe ω S
  | _, [], new => new
  | ⟨stage, children⟩, i :: address, new =>
    ⟨stage, children.modify i fun child => replaceAt child address new⟩

theorem map_name_stages (r : Recipe ω S) :
    r.stages.map Stage.name = r.stage.name :: (stagesOf r.children).map Stage.name := by
  cases r with
  | mk stage children => rw [stages, List.map_cons]

end Recipe

section
variable {ω S : Type} [Source S]

structure Stage.Interchangeable (σ : Scheduler) (hook : ErrorHook ω) (stage stage' : Stage ω S) :
    Prop where
  name_eq : stage'.name = stage.name
  displayName_eq : stage'.displayName = stage.displayName
  repeats_eq : stage'.repeats = stage.repeats
  hasTransform_eq : stage'.hasTransform = stage.hasTransform
  admits_eq (batch : List S) : stage'.admits batch = stage.admits batch
  transform_eq {n : Nat} {path : RecipePath} {batch : List S} (hd : Source.Distinct batch)
    (c : Context ω) :
    (σ.transform n path stage' batch).perform hook c =
      (σ.transform n path stage batch).perform hook c

structure Recipe.Interchangeable (σ : Scheduler) (hook : ErrorHook ω) (rs rs' : List (Recipe ω S)) :
    Prop where
  names_eq : (stagesOf rs').map Stage.name = (stagesOf rs).map Stage.name
  invokeAll_eq {n position : Nat} {path : RecipePath} {p : Pass S} (hd : Source.Distinct p.batch)
    (c : Context ω) :
    (σ.invokeAll n path position rs' p).perform hook c =
      (σ.invokeAll n path position rs p).perform hook c

namespace Stage.Interchangeable
variable {σ : Scheduler} {hook : ErrorHook ω} {stage stage' : Stage ω S}

theorem refl (σ : Scheduler) (hook : ErrorHook ω) (stage : Stage ω S) :
    stage.Interchangeable σ hook stage :=
  ⟨rfl, rfl, rfl, rfl, fun _ => rfl, fun _ _ => rfl⟩

theorem frame_eq (h : stage.Interchangeable σ hook stage') (position : Nat) :
    stage'.frame position = stage.frame position := by
  rw [frame, frame, h.name_eq, h.displayName_eq]

theorem applyStage_eq (h : stage.Interchangeable σ hook stage') {n : Nat} {path : RecipePath}
    {p : Pass S} (hd : Source.Distinct p.batch) (c : Context ω) :
    (σ.applyStage n path stage' p).perform hook c =
      (σ.applyStage n path stage p).perform hook c := by
  rw [Scheduler.applyStage, Scheduler.applyStage, h.hasTransform_eq, h.repeats_eq]
  split
  case isTrue =>
    rw [Attempt.context_bind, Attempt.context_bind]
    exact Attempt.bind_congr (h.transform_eq hd c) fun _ _ _ => rfl
  case isFalse => rfl

end Stage.Interchangeable

namespace Scheduler
variable {σ : Scheduler} {hook : ErrorHook ω} {n position : Nat} {path : RecipePath}
variable {p q : Pass S} {c d : Context ω}

theorem distinct_of_applyStage {stage : Stage ω S} (hd : Source.Distinct p.batch)
    (h : (σ.applyStage n path stage p).perform hook c = (.ok q, d)) : Source.Distinct q.batch := by
  cases ht : stage.hasTransform with
  | false =>
    rw [applyStage_composite ht] at h
    cases h
    exact hd
  | true => exact distinct_transform ((applyStage_eq_ok ht c).mp h).1 hd

theorem distinct_of_invoke {r : Recipe ω S} (hd : Source.Distinct p.batch)
    (h : (σ.invoke n path position r p).perform hook c = (.ok q, d)) : Source.Distinct q.batch := by
  obtain ⟨log, hw, -⟩ := invoke_eq_ok_iff.mp h
  exact (hw.distinct hd).2

end Scheduler

namespace Recipe.Interchangeable
variable {σ : Scheduler} {hook : ErrorHook ω} {stage stage' : Stage ω S} {r r' : Recipe ω S}
variable {rs rs' children children' : List (Recipe ω S)}

theorem refl (σ : Scheduler) (hook : ErrorHook ω) (rs : List (Recipe ω S)) :
    Interchangeable σ hook rs rs :=
  ⟨rfl, fun _ _ => rfl⟩

theorem invoke_eq (h : Interchangeable σ hook [r] [r']) {n position : Nat} {path : RecipePath}
    {p : Pass S} (hd : Source.Distinct p.batch) (c : Context ω) :
    (σ.invoke n path position r' p).perform hook c =
      (σ.invoke n path position r p).perform hook c := by
  rw [← Scheduler.perform_invokeAll_singleton, ← Scheduler.perform_invokeAll_singleton]
  exact h.invokeAll_eq hd c

theorem cons (h : Interchangeable σ hook [r] [r']) (hrs : Interchangeable σ hook rs rs') :
    Interchangeable σ hook (r :: rs) (r' :: rs') where
  names_eq := by
    have hr := h.names_eq
    rw [stagesOf_singleton, stagesOf_singleton] at hr
    rw [stagesOf, stagesOf, List.map_append, List.map_append, hr, hrs.names_eq]
  invokeAll_eq hd c := by
    rw [Scheduler.invokeAll_cons, Scheduler.invokeAll_cons]
    exact Attempt.bind_congr (h.invoke_eq hd c) fun q d hq =>
      hrs.invokeAll_eq (Scheduler.distinct_of_invoke hd hq) d

theorem node (hs : stage.Interchangeable σ hook stage')
    (hc : Interchangeable σ hook children children') :
    Interchangeable σ hook [⟨stage, children⟩] [⟨stage', children'⟩] where
  names_eq := by
    rw [stagesOf_singleton, stagesOf_singleton, stages, stages, List.map_cons, List.map_cons,
      hs.name_eq, hc.names_eq]
  invokeAll_eq {n position path p} hd c := by
    rw [Scheduler.perform_invokeAll_singleton, Scheduler.perform_invokeAll_singleton,
      Scheduler.invoke, Scheduler.invoke, Attempt.context_bind, Attempt.context_bind, hs.admits_eq,
      hs.frame_eq]
    split
    case isTrue => rfl
    case isFalse =>
      refine Attempt.bind_congr rfl fun admitted d _ => ?_
      cases admitted with
      | false => rfl
      | true =>
        exact Attempt.bind_congr (hs.applyStage_eq hd d) fun q e hq =>
          hc.invokeAll_eq (Scheduler.distinct_of_applyStage hd hq) e

theorem modify {f f' : Recipe ω S → Recipe ω S} (hf : ∀ r, Interchangeable σ hook [f r] [f' r])
    (rs : List (Recipe ω S)) (i : Nat) :
    Interchangeable σ hook (rs.modify i f) (rs.modify i f') := by
  induction rs generalizing i with
  | nil =>
    rw [List.modify_nil, List.modify_nil]
    exact refl σ hook []
  | cons r rs ih =>
    cases i with
    | zero => exact (hf r).cons (refl σ hook rs)
    | succ i => exact (refl σ hook [r]).cons (ih i)

theorem replaceAt {new new' : Recipe ω S} (h : Interchangeable σ hook [new] [new'])
    (address : List Nat) (r : Recipe ω S) :
    Interchangeable σ hook [r.replaceAt address new] [r.replaceAt address new'] := by
  induction address generalizing r with
  | nil => exact h
  | cons i address ih =>
    cases r with
    | mk stage children => exact node (.refl σ hook stage) (modify ih children i)

theorem accord : Accord (fun p p' : Pass S => p' = p ∧ Source.Distinct p.batch)
    (fun f f' : Flight S => f' = f ∧ Source.Distinct f.batch) where
  cycles_eq h := h.1 ▸ rfl
  opens h := ⟨h.1 ▸ rfl, h.2⟩
  asks_eq h := h.1 ▸ rfl
  batch_eq_iff hf hp := by rw [hf.1, hp.1]
  closes hf hp := ⟨by rw [hf.1, hp.1], hp.2⟩

theorem run_eq (h : Interchangeable σ hook [r] [r']) (batch : List S) (c : Context ω) :
    (σ.run r' batch).perform hook c = (σ.run r batch).perform hook c := by
  have hnames : r'.stages.map Stage.name = r.stages.map Stage.name := by
    rw [← stagesOf_singleton, ← stagesOf_singleton]
    exact h.names_eq
  have hroot : r'.stage.name = r.stage.name := by
    rw [map_name_stages, map_name_stages] at hnames
    exact (List.cons.inj hnames).1
  have hchecks : σ.checks r' batch = σ.checks r batch := by
    rw [Scheduler.checks, Scheduler.checks, validate, validate, hasBlankName_eq, hasBlankName_eq,
      hnames, hroot]
  have hi : ∀ n p p', (p' = p ∧ Source.Distinct p.batch) →
      (Coupling.identical hook).Lockstep (fun q q' => q' = q ∧ Source.Distinct q.batch)
        (σ.invoke n [] 0 r p) (σ.invoke n [] 0 r' p') := by
    rintro n p _ ⟨rfl, hd⟩ c c' hc
    obtain rfl : c' = c := hc
    exact Coupling.matched_identical (h.invoke_eq hd c') fun q hq =>
      ⟨rfl, Scheduler.distinct_of_invoke hd (Prod.ext hq rfl)⟩
  refine Coupling.lockstep_identical_iff.mp (accord.lockstep_run rfl rfl hi hchecks
    (fun _ _ _ _ hc => hc) (fun ha => ⟨rfl, (Scheduler.checks_eq_ok_iff.mp ha).2.2⟩) ?_) c
  rintro c rounds g d _ - ⟨rfl, -⟩
  rfl

end Recipe.Interchangeable

def VisitorFactory.Maps (hook : ErrorHook ω) (f : S → Option S) (factory : VisitorFactory ω S) :
    Prop :=
  ∀ c, ∃ v, Action.perform factory hook c = (v, c) ∧
    ∀ s d, (v.visit s).perform hook d = (.ok (f s), d)

def BatchTransform.Maps (hook : ErrorHook ω) (f : S → Option S) (g : BatchTransform ω S) : Prop :=
  ∀ batch c, (g batch).run.perform hook c = (.ok (batch.filterMap f), c)

def Stage.visitingWith (stage : Stage ω S) (factory : VisitorFactory ω S) : Stage ω S :=
  { stage with visitor := some factory, batchTransform := none }

def Stage.transformingWith (stage : Stage ω S) (g : BatchTransform ω S) : Stage ω S :=
  { stage with batchTransform := some g }

namespace Stage
variable {hook : ErrorHook ω} {stage stage' : Stage ω S} {f : S → Option S}
variable {factory : VisitorFactory ω S} {g : BatchTransform ω S} {batch : List S}

theorem matchesSource_congr (hn : stage'.name = stage.name) (test : VisitorFactory ω S) (s : S) :
    stage'.matchesSource test s = stage.matchesSource test s := by
  rw [matchesSource, matchesSource, hn]

theorem admits_congr (hn : stage'.name = stage.name) (hg : stage'.gate = stage.gate)
    (batch : List S) : stage'.admits batch = stage.admits batch := by
  rw [admits, admits, hg]
  cases stage.gate with
  | none => rfl
  | some test =>
    induction batch with
    | nil => rfl
    | cons s batch ih =>
      simp only [matchesAny] at ih ⊢
      rw [matchesSource_congr hn, ih]

theorem visitSource_of_maps (ht : stage.sourceTest = none) (hf : factory.Maps hook f)
    (hid : ∀ s t, f s = some t → Tree.id t = Tree.id s) (s : S) (c : Context ω) :
    (stage.visitSource factory s).perform hook c = (.ok (f s), c) := by
  obtain ⟨v, hv, hvisit⟩ := hf c
  have hadmits : (stage.admitsSource s).perform hook c = (.ok true, c) := by
    rw [admitsSource, ht]
    rfl
  rw [visitSource, Attempt.bind_of_ok hadmits, if_pos rfl,
    Attempt.bind_of_ok (Attempt.lift_eq_ok.mpr hv),
    Attempt.bind_of_ok (Attempt.lift_eq_ok.mpr (hvisit s c))]
  cases hs : f s with
  | none => rfl
  | some t =>
    simp only [hid s t hs, if_true]
    rfl

theorem transformBatch_of_maps (hg : g.Maps hook f)
    (hid : ∀ s t, f s = some t → Tree.id t = Tree.id s) (hd : Source.Distinct batch)
    (c : Context ω) :
    (stage.transformBatch g batch).perform hook c = (.ok (batch.filterMap f), c) := by
  have hc : checkIds stage.name (batch.filterMap f) = .ok () :=
    checkIds_eq_ok_iff.mpr (hd.sublist (Source.ids_filterMap_sublist hid batch))
  rw [transformBatch, Attempt.bind_of_ok (Attempt.lift_eq_ok.mpr (hg batch c))]
  simp only [hc]
  rfl

theorem interchangeable_of_maps (σ : Scheduler) (ht : stage.sourceTest = none)
    (hf : factory.Maps hook f) (hg : g.Maps hook f)
    (hid : ∀ s t, f s = some t → Tree.id t = Tree.id s) :
    (stage.visitingWith factory).Interchangeable σ hook (stage.transformingWith g) where
  name_eq := rfl
  displayName_eq := rfl
  repeats_eq := rfl
  hasTransform_eq := by simp [hasTransform, visitingWith, transformingWith]
  admits_eq := admits_congr rfl rfl
  transform_eq {n path batch} hd c := by
    have hv : ∀ s ∈ batch,
        Attempt.Idle hook ((stage.visitingWith factory).visitSource factory s) (f s) [] :=
      fun s _ => ⟨rfl, visitSource_of_maps ht hf hid s⟩
    have hb : σ.transform n path (stage.transformingWith g) batch =
        (stage.transformingWith g).transformBatch g batch := rfl
    obtain ⟨-, -, -, ht⟩ :=
      Scheduler.sequential_transform (Attempt.sequential_idle hook) rfl rfl hv σ n path
    rw [hb, transformBatch_of_maps hg hid hd, ht]

end Stage

theorem Scheduler.visiting_is_bulk_mapping {σ : Scheduler} {hook : ErrorHook ω}
    {stage : Stage ω S} {f : S → Option S} {factory : VisitorFactory ω S} {g : BatchTransform ω S}
    (ht : stage.sourceTest = none) (hf : factory.Maps hook f) (hg : g.Maps hook f)
    (hid : ∀ s t, f s = some t → Tree.id t = Tree.id s)
    (children : List (Recipe ω S)) (recipe : Recipe ω S) (address : List Nat) (batch : List S)
    (c : Context ω) :
    (σ.run (recipe.replaceAt address ⟨stage.transformingWith g, children⟩) batch).perform hook c =
      (σ.run (recipe.replaceAt address ⟨stage.visitingWith factory, children⟩) batch).perform
        hook c := by
  have hstage := Stage.interchangeable_of_maps σ ht hf hg hid
  have hnode : Recipe.Interchangeable σ hook [⟨stage.visitingWith factory, children⟩]
      [⟨stage.transformingWith g, children⟩] := .node hstage (.refl σ hook children)
  exact (hnode.replaceAt address recipe).run_eq batch c

end

namespace Sample

def cleaned (t : PlainText) : Option PlainText :=
  if t.text = "" then none
  else some (if t.text = "x" then { t with text := "y" } else t)

def cleaning : VisitorFactory Unit PlainText :=
  (pure { accepts := fun _ => pure true, visit := fun t => pure (.ok (cleaned t)) } :
    Action Unit (SourceVisitor Unit PlainText))

def cleanse : BatchTransform Unit PlainText :=
  fun batch => pure (batch.filterMap cleaned)

def cleaner : Stage Unit PlainText :=
  { name := "cleaner", gate := some (rewriting "x" "y"), repeats := true }

theorem id_cleaned (s t : PlainText) (h : cleaned s = some t) : Tree.id t = Tree.id s := by
  unfold cleaned at h
  split at h
  · simp at h
  · obtain rfl := Option.some.inj h
    split <;> rfl

theorem cleaning_is_cleansing :
    ((scheduler.run (recipe.replaceAt [0, 0]
        ⟨cleaner.visitingWith cleaning, [⟨stumblingStage, []⟩]⟩) batch).perform
        .record start).1.toOption.map (fun run => (run.results.length, run.cycles)) =
      some (2, 2) ∧
    (scheduler.run (recipe.replaceAt [0, 0]
        ⟨cleaner.transformingWith cleanse, [⟨stumblingStage, []⟩]⟩) batch).perform .record start =
      (scheduler.run (recipe.replaceAt [0, 0]
        ⟨cleaner.visitingWith cleaning, [⟨stumblingStage, []⟩]⟩) batch).perform .record start := by
  refine ⟨by decide +kernel, ?_⟩
  exact Scheduler.visiting_is_bulk_mapping rfl (fun c => ⟨_, rfl, fun s d => rfl⟩)
    (fun batch c => rfl) id_cleaned _ _ _ _ _

end Sample

end Codemod
