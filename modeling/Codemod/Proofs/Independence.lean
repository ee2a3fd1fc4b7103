import Codemod.Proofs.Attribution
import Codemod.Proofs.Steady

namespace Codemod

structure Stage.SourceWise {ω S : Type} (hook : ErrorHook ω) (stage : Stage ω S) : Prop extends
    stage.Each hook (Action.IsConstant hook) where
  perSource : stage.batchTransform = none
  ungated : stage.gate = none
  single : stage.repeats = false

namespace Attempt
variable {ω α β : Type}

/-- The outcome of a run over two parts together, and those of the runs over either part: all are
values, or the first is an error and so is one of the others. -/
inductive Joined (R : α → α → α → Prop) : Except RecipeError α × Context ω →
    Except RecipeError α × Context ω → Except RecipeError α × Context ω → Prop
  | ok {x x₁ x₂ d d₁ d₂} (h : R x x₁ x₂) (h₁ : d₁.cancelled = d.cancelled)
      (h₂ : d₂.cancelled = d.cancelled) : Joined R (.ok x, d) (.ok x₁, d₁) (.ok x₂, d₂)
  | left {e e₁ d d₁ o} : Joined R (.error e, d) (.error e₁, d₁) o
  | right {e e₂ d d₂ o} : Joined R (.error e, d) o (.error e₂, d₂)

def Splits (hook : ErrorHook ω) (R : α → α → α → Prop) (a a₁ a₂ : Attempt ω α) : Prop :=
  ∀ c c₁ c₂ : Context ω, c₁.cancelled = c.cancelled → c₂.cancelled = c.cancelled →
    Joined R (a.perform hook c) (a₁.perform hook c₁) (a₂.perform hook c₂)

variable {hook : ErrorHook ω} {R : α → α → α → Prop} {T : β → β → β → Prop}
variable {a a₁ a₂ : Attempt ω α} {f f₁ f₂ : α → Attempt ω β} {x x₁ x₂ : α}

theorem splits_pure (h : R x x₁ x₂) : Splits hook R (pure x) (pure x₁) (pure x₂) :=
  fun _ _ _ h₁ h₂ => .ok h h₁ h₂

theorem Splits.bind (h : Splits hook R a a₁ a₂)
    (hf : ∀ x x₁ x₂, R x x₁ x₂ → Splits hook T (f x) (f₁ x₁) (f₂ x₂)) :
    Splits hook T (a >>= f) (a₁ >>= f₁) (a₂ >>= f₂) := by
  intro c c₁ c₂ h₁ h₂
  have hj := h c c₁ c₂ h₁ h₂
  rw [perform_bind, perform_bind, perform_bind]
  generalize a.perform hook c = o at hj
  generalize a₁.perform hook c₁ = o₁ at hj
  generalize a₂.perform hook c₂ = o₂ at hj
  cases hj with
  | ok hr h₁ h₂ => exact hf _ _ _ hr _ _ _ h₁ h₂
  | left => exact .left
  | right => exact .right

theorem splits_context : Splits hook
    (fun d d₁ d₂ : Context ω => d₁.cancelled = d.cancelled ∧ d₂.cancelled = d.cancelled)
    context context context :=
  fun _ _ _ h₁ h₂ => .ok ⟨h₁, h₂⟩ h₁ h₂

theorem splits_resetNewMessages : Splits hook (fun _ _ _ => True)
    (update Context.resetNewMessages) (update Context.resetNewMessages)
    (update Context.resetNewMessages) :=
  fun _ _ _ h₁ h₂ => .ok trivial h₁ h₂

theorem Joined.isOk_iff {o o₁ o₂ : Except RecipeError α × Context ω} (h : Joined R o o₁ o₂) :
    (∃ x d, o = (.ok x, d)) ↔ (∃ x d, o₁ = (.ok x, d)) ∧ ∃ x d, o₂ = (.ok x, d) := by
  cases h with
  | ok => simp
  | left => simp
  | right => simp

end Attempt

namespace Source
variable {S : Type} [Source S] {b₁ b₂ a₁ a₂ : List S} {id : TreeId}

theorem ids_append (b₁ b₂ : List S) : ids (b₁ ++ b₂) = ids b₁ ++ ids b₂ :=
  List.map_append

theorem distinct_append_iff : Distinct (b₁ ++ b₂) ↔
    Distinct b₁ ∧ Distinct b₂ ∧ ∀ id ∈ ids b₁, id ∉ ids b₂ := by
  rw [Distinct, ids_append, List.nodup_append]
  refine and_congr_right fun _ => and_congr_right fun _ => ?_
  exact ⟨fun h id h₁ h₂ => h id h₁ id h₂ rfl, fun h id h₁ other h₂ he => h id h₁ (he ▸ h₂)⟩

theorem find?_append_left (h : id ∉ ids b₂) : find? (b₁ ++ b₂) id = find? b₁ id := by
  have ha : find? (b₁ ++ b₂) id = (find? b₁ id).or (find? b₂ id) := List.find?_append
  rw [ha, find?_eq_none_iff.mpr h, Option.or_none]

theorem find?_append_right (h : id ∉ ids b₁) : find? (b₁ ++ b₂) id = find? b₂ id := by
  have ha : find? (b₁ ++ b₂) id = (find? b₁ id).or (find? b₂ id) := List.find?_append
  rw [ha, find?_eq_none_iff.mpr h, Option.none_or]

end Source

theorem Ledger.get?_recordDiff_congr {l l' : Ledger} {d d' : Diff} {id : TreeId}
    (hl : l.get? id = l'.get? id) (hd : id ∈ d.touched ↔ id ∈ d'.touched) (path : RecipePath) :
    (l.recordDiff d path).get? id = (l'.recordDiff d' path).get? id := by
  rw [recordDiff, recordDiff, get?_recordAll, get?_recordAll, provenance, provenance, hl]
  exact if_congr hd rfl rfl

section
variable {S : Type} [Source S]

structure Parted (xs ys b b₁ b₂ : List S) (l l₁ l₂ : Ledger) : Prop where
  batch_eq : b = b₁ ++ b₂
  left : (Source.ids b₁).Sublist (Source.ids xs)
  right : (Source.ids b₂).Sublist (Source.ids ys)
  ledger_left {id : TreeId} (h : id ∈ Source.ids xs) : l.get? id = l₁.get? id
  ledger_right {id : TreeId} (h : id ∈ Source.ids ys) : l.get? id = l₂.get? id

namespace Parted
variable {xs ys b b₁ b₂ a₁ a₂ : List S} {l l₁ l₂ : Ledger} {id : TreeId}

theorem start (xs ys : List S) : Parted xs ys (xs ++ ys) xs ys {} {} {} where
  batch_eq := rfl
  left := .refl _
  right := .refl _
  ledger_left _ := rfl
  ledger_right _ := rfl

theorem distinct (h : Parted xs ys b b₁ b₂ l l₁ l₂) (hd : Source.Distinct (xs ++ ys)) :
    Source.Distinct b := by
  rw [Source.Distinct, h.batch_eq, Source.ids_append]
  rw [Source.Distinct, Source.ids_append] at hd
  exact hd.sublist (h.left.append h.right)

theorem not_mem_right (h : Parted xs ys b b₁ b₂ l l₁ l₂) (hd : Source.Distinct (xs ++ ys))
    (hx : id ∈ Source.ids xs) : id ∉ Source.ids b₂ :=
  fun hm => (Source.distinct_append_iff.mp hd).2.2 id hx (h.right.subset hm)

theorem not_mem_left (h : Parted xs ys b b₁ b₂ l l₁ l₂) (hd : Source.Distinct (xs ++ ys))
    (hy : id ∈ Source.ids ys) : id ∉ Source.ids b₁ :=
  fun hm => (Source.distinct_append_iff.mp hd).2.2 id (h.left.subset hm) hy

theorem find?_left (h : Parted xs ys b b₁ b₂ l l₁ l₂) (hd : Source.Distinct (xs ++ ys))
    (hx : id ∈ Source.ids xs) : Source.find? b id = Source.find? b₁ id := by
  rw [h.batch_eq, Source.find?_append_left (h.not_mem_right hd hx)]

theorem find?_right (h : Parted xs ys b b₁ b₂ l l₁ l₂) (hd : Source.Distinct (xs ++ ys))
    (hy : id ∈ Source.ids ys) : Source.find? b id = Source.find? b₂ id := by
  rw [h.batch_eq, Source.find?_append_right (h.not_mem_left hd hy)]

theorem record (h : Parted xs ys b b₁ b₂ l l₁ l₂) (hd : Source.Distinct (xs ++ ys))
    (h₁ : (Source.ids a₁).Sublist (Source.ids b₁)) (h₂ : (Source.ids a₂).Sublist (Source.ids b₂))
    (path : RecipePath) :
    Parted xs ys (a₁ ++ a₂) a₁ a₂ (l.recordDiff (.between b (a₁ ++ a₂)) path)
      (l₁.recordDiff (.between b₁ a₁) path) (l₂.recordDiff (.between b₂ a₂) path) := by
  have hnext : Parted xs ys (a₁ ++ a₂) a₁ a₂ l l₁ l₂ :=
    { h with batch_eq := rfl, left := h₁.trans h.left, right := h₂.trans h.right }
  obtain ⟨ha₁, ha₂, -⟩ := Source.distinct_append_iff.mp (hnext.distinct hd)
  refine { hnext with ledger_left := fun {id} hx => ?_, ledger_right := fun {id} hy => ?_ }
  · refine Ledger.get?_recordDiff_congr (h.ledger_left hx) ?_ path
    rw [Diff.mem_touched_iff (hnext.distinct hd), Diff.mem_touched_iff ha₁,
      Source.Changed, Source.Changed, h.find?_left hd hx, hnext.find?_left hd hx]
  · refine Ledger.get?_recordDiff_congr (h.ledger_right hy) ?_ path
    rw [Diff.mem_touched_iff (hnext.distinct hd), Diff.mem_touched_iff ha₂,
      Source.Changed, Source.Changed, h.find?_right hd hy, hnext.find?_right hd hy]

end Parted

structure RecipeRun.Joins (run run₁ run₂ : RecipeRun S) : Prop where
  batch_eq : run.batch = run₁.batch ++ run₂.batch
  cycles₁ : run₁.cycles = run.cycles
  cycles₂ : run₂.cycles = run.cycles
  results_eq : run.results =
    run₁.results.filter (!·.isDeleted) ++ run₂.results.filter (!·.isDeleted) ++
      (run₁.results.filter (·.isDeleted) ++ run₂.results.filter (·.isDeleted))

namespace Report
variable {input input' batch batch' : List S} {l l' : Ledger} {s : S}

theorem stamped_congr
    (hi : Source.find? input (Tree.id s) = Source.find? input' (Tree.id s))
    (hl : l.get? (Tree.id s) = l'.get? (Tree.id s)) : stamped input l s = stamped input' l' s := by
  rw [stamped, stamped, isSettled, isSettled, hi, hl]

omit [Source S] in
theorem entry_congr {id : TreeId} (hl : l.get? id = l'.get? id) (before after : Option S) :
    entry l id before after = entry l' id before after := by
  have hp : l.provenance id = l'.provenance id := congrArg (·.getD .empty) hl
  rw [entry, entry, Ledger.descriptors, Ledger.descriptors, Ledger.recipeNames,
    Ledger.recipeNames, hp]

theorem survivor?_congr
    (hi : Source.find? input (Tree.id s) = Source.find? input' (Tree.id s))
    (hl : l.get? (Tree.id s) = l'.get? (Tree.id s)) :
    survivor? input l s = survivor? input' l' s := by
  rw [survivor?, survivor?, isSettled, isSettled, hi, stamped_congr hi hl, entry_congr hl]

theorem lost?_congr (hb : Source.find? batch (Tree.id s) = Source.find? batch' (Tree.id s))
    (hl : l.get? (Tree.id s) = l'.get? (Tree.id s)) :
    lost? batch l s = lost? batch' l' s := by
  have hc : Source.contains batch (Tree.id s) = Source.contains batch' (Tree.id s) := by
    rw [Bool.eq_iff_iff, Source.contains_iff, Source.contains_iff, ← not_iff_not,
      ← Source.find?_eq_none_iff, ← Source.find?_eq_none_iff, hb]
  rw [lost?, lost?, hc, entry_congr hl]

theorem part_congr {part : List S}
    (hi : ∀ id ∈ Source.ids part, Source.find? input id = Source.find? part id)
    (hb : ∀ id ∈ Source.ids part, Source.find? batch id = Source.find? batch' id)
    (hl : ∀ id ∈ Source.ids part, l.get? id = l'.get? id)
    (hs : (Source.ids batch').Sublist (Source.ids part)) :
    batch'.map (stamped input l) = batch'.map (stamped part l') ∧
      batch'.filterMap (survivor? input l) = batch'.filterMap (survivor? part l') ∧
      part.filterMap (lost? batch l) = part.filterMap (lost? batch' l') := by
  have hm : ∀ s ∈ batch', Tree.id s ∈ Source.ids part := fun s h =>
    hs.subset (Source.mem_ids_iff.mpr ⟨s, h, rfl⟩)
  have hp : ∀ s ∈ part, Tree.id s ∈ Source.ids part := fun s h =>
    Source.mem_ids_iff.mpr ⟨s, h, rfl⟩
  refine ⟨?_, ?_, ?_⟩
  · exact List.map_congr_left fun s h => stamped_congr (hi _ (hm s h)) (hl _ (hm s h))
  · exact List.filterMap_congr fun s h => survivor?_congr (hi _ (hm s h)) (hl _ (hm s h))
  · exact List.filterMap_congr fun s h => lost?_congr (hb _ (hp s h)) (hl _ (hp s h))

theorem isDeleted_of_survivor? {r : RecipeResult S} (h : survivor? input l s = some r) :
    r.isDeleted = false := by
  unfold survivor? at h
  split at h
  · cases h
  · obtain rfl := Option.some.inj h
    rfl

theorem isDeleted_of_lost? {r : RecipeResult S} (h : lost? batch l s = some r) :
    r.isDeleted = true := by
  unfold lost? at h
  split at h
  · cases h
  · obtain rfl := Option.some.inj h
    rfl

theorem filter_not_isDeleted (input batch : List S) (l : Ledger) :
    (results input batch l).filter (!·.isDeleted) = batch.filterMap (survivor? input l) := by
  have hs : ∀ r ∈ batch.filterMap (survivor? input l), (!r.isDeleted) = true := by
    intro r hr
    obtain ⟨s, -, h⟩ := List.mem_filterMap.mp hr
    rw [isDeleted_of_survivor? h, Bool.not_false]
  have hl : ∀ r ∈ input.filterMap (lost? batch l), ¬ (!r.isDeleted) = true := by
    intro r hr
    obtain ⟨s, -, h⟩ := List.mem_filterMap.mp hr
    simp [isDeleted_of_lost? h]
  rw [results, List.filter_append, List.filter_eq_self.mpr hs, List.filter_eq_nil_iff.mpr hl,
    List.append_nil]

theorem filter_isDeleted (input batch : List S) (l : Ledger) :
    (results input batch l).filter (·.isDeleted) = input.filterMap (lost? batch l) := by
  have hs : ∀ r ∈ batch.filterMap (survivor? input l), ¬ r.isDeleted = true := by
    intro r hr
    obtain ⟨s, -, h⟩ := List.mem_filterMap.mp hr
    simp [isDeleted_of_survivor? h]
  have hl : ∀ r ∈ input.filterMap (lost? batch l), r.isDeleted = true := by
    intro r hr
    obtain ⟨s, -, h⟩ := List.mem_filterMap.mp hr
    exact isDeleted_of_lost? h
  rw [results, List.filter_append, List.filter_eq_self.mpr hl, List.filter_eq_nil_iff.mpr hs,
    List.nil_append]

theorem joins_ofRun {xs ys b b₁ b₂ : List S} {l l₁ l₂ : Ledger}
    (h : Parted xs ys b b₁ b₂ l l₁ l₂) (hd : Source.Distinct (xs ++ ys)) (cycles : Nat) :
    (ofRun (xs ++ ys) b l cycles).Joins (ofRun xs b₁ l₁ cycles) (ofRun ys b₂ l₂ cycles) := by
  obtain ⟨hb₁, hs₁, hl₁⟩ := part_congr (fun id hx => (Parted.start xs ys).find?_left hd hx)
    (fun id hx => h.find?_left hd hx) (fun id hx => h.ledger_left hx) h.left
  obtain ⟨hb₂, hs₂, hl₂⟩ := part_congr (fun id hy => (Parted.start xs ys).find?_right hd hy)
    (fun id hy => h.find?_right hd hy) (fun id hy => h.ledger_right hy) h.right
  constructor
  case batch_eq => simp only [ofRun, ← hb₁, ← hb₂, h.batch_eq, List.map_append]
  case cycles₁ => rfl
  case cycles₂ => rfl
  case results_eq =>
    simp only [ofRun, filter_isDeleted, filter_not_isDeleted]
    rw [← hs₁, ← hs₂, ← hl₁, ← hl₂, ← List.filterMap_append, ← List.filterMap_append,
      ← h.batch_eq, results]

end Report

structure Pass.Parted (xs ys : List S) (p p₁ p₂ : Pass S) : Prop extends
    Codemod.Parted xs ys p.batch p₁.batch p₂.batch p.ledger p₁.ledger p₂.ledger where
  quiet : p.anotherCycle = false
  quiet₁ : p₁.anotherCycle = false
  quiet₂ : p₂.anotherCycle = false

structure Flight.Parted (xs ys : List S) (f f₁ f₂ : Flight S) : Prop extends
    Codemod.Parted xs ys f.batch f₁.batch f₂.batch f.ledger f₁.ledger f₂.ledger where
  cycles₁ : f₁.cycles = f.cycles
  cycles₂ : f₂.cycles = f.cycles

end

namespace Scheduler
open Attempt
variable {ω S : Type} [Source S] {hook : ErrorHook ω} {σ σ₁ σ₂ : Scheduler}
variable {stage : Stage ω S} {b₁ b₂ : List S}

theorem transform_by_source (hh : hook.Swallows) (hs : stage.SourceWise hook) (c : Context ω) :
    ∃ (broken : S → Prop) (kept : S → Option S), ∀ (σ : Scheduler) (n : Nat) (path : RecipePath) b,
      ((∃ s ∈ b, broken s) →
        ∀ c, ∃ e d, (σ.transform n path stage b).perform hook c = (.error e, d)) ∧
      ((∀ s ∈ b, ¬ broken s) → ∀ c, ∃ d,
        (σ.transform n path stage b).perform hook c = (.ok (b.filterMap kept), d) ∧ c.Alike d) := by
  have hQ := lawful_constantly hh
  cases hv : stage.visitor with
  | none =>
    refine ⟨fun _ => False, some, fun σ n path b => ⟨by simp, fun _ c => ⟨c, ?_, .refl c⟩⟩⟩
    rw [transform, hs.perSource, hv, List.filterMap_some, Attempt.perform_pure]
  | some factory =>
    have hd := Stage.returns_or_breaks_visitSource hQ (hs.toEach.answers hs.perSource c)
      ((hs.visitor hv).answers c)
    let broken (s : S) : Prop :=
      Breaks (Constantly hook) stage.name (stage.visitSource factory s)
    have hk : ∀ s, ¬ broken s → ∃ kept es,
        Constantly hook (stage.visitSource factory s) (.ok kept) es :=
      fun s hn => (hd s).resolve_right hn
    choose! kept reports hk using hk
    refine ⟨broken, kept, fun σ n path b => ⟨?_, fun hn => ?_⟩⟩
    · rintro ⟨s, hm, hb⟩ c
      obtain ⟨breach, es, hq⟩ :=
        breaks_transform hQ hs.perSource hv (fun s _ => hd s) hm hb σ n path
      obtain ⟨d, he, -⟩ := hq c
      exact ⟨_, d, he⟩
    · obtain ⟨_, _, h⟩ := sequential_transform hQ.sequential hs.perSource hv
        (fun s hm => hk s (hn s hm)) σ n path
      exact h

theorem splits_transform (hh : hook.Swallows) (hs : stage.SourceWise hook) (n : Nat)
    (path : RecipePath) (b₁ b₂ : List S) :
    Splits hook (fun a a₁ a₂ => a = a₁ ++ a₂ ∧ (Source.ids a₁).Sublist (Source.ids b₁) ∧
        (Source.ids a₂).Sublist (Source.ids b₂))
      (σ.transform n path stage (b₁ ++ b₂)) (σ₁.transform n path stage b₁)
      (σ₂.transform n path stage b₂) := by
  intro c c₁ c₂ h₁ h₂
  obtain ⟨broken, kept, ht⟩ := transform_by_source hh hs c
  obtain ⟨hb, hk⟩ := ht σ n path (b₁ ++ b₂)
  obtain ⟨hb₁, hk₁⟩ := ht σ₁ n path b₁
  obtain ⟨hb₂, hk₂⟩ := ht σ₂ n path b₂
  by_cases hx : ∃ s ∈ b₁, broken s
  · obtain ⟨s, hm, hs⟩ := hx
    obtain ⟨e, d, he⟩ := hb ⟨s, by simp [hm], hs⟩ c
    obtain ⟨e₁, d₁, he₁⟩ := hb₁ ⟨s, hm, hs⟩ c₁
    rw [he, he₁]
    exact .left
  by_cases hy : ∃ s ∈ b₂, broken s
  · obtain ⟨s, hm, hs⟩ := hy
    obtain ⟨e, d, he⟩ := hb ⟨s, by simp [hm], hs⟩ c
    obtain ⟨e₂, d₂, he₂⟩ := hb₂ ⟨s, hm, hs⟩ c₂
    rw [he, he₂]
    exact .right
  have hn : ∀ s ∈ b₁ ++ b₂, ¬ broken s := fun s hm hs =>
    (List.mem_append.mp hm).elim (fun hm => hx ⟨s, hm, hs⟩) fun hm => hy ⟨s, hm, hs⟩
  obtain ⟨d, he, hal⟩ := hk hn c
  obtain ⟨d₁, he₁, hal₁⟩ := hk₁ (fun s hm => hn s (by simp [hm])) c₁
  obtain ⟨d₂, he₂, hal₂⟩ := hk₂ (fun s hm => hn s (by simp [hm])) c₂
  rw [he, he₁, he₂]
  refine .ok ⟨List.filterMap_append, ids_transform_sublist hs.perSource he₁,
    ids_transform_sublist hs.perSource he₂⟩ ?_ ?_
  · rw [hal₁.cancelled, hal.cancelled, h₁]
  · rw [hal₂.cancelled, hal.cancelled, h₂]

variable {xs ys : List S} {n position : Nat} {path : RecipePath} {p p₁ p₂ : Pass S}

theorem splits_applyStage (hh : hook.Swallows) (hs : stage.SourceWise hook)
    (hd : Source.Distinct (xs ++ ys)) (hp : p.Parted xs ys p₁ p₂) :
    Splits hook (Pass.Parted xs ys) (σ.applyStage n path stage p) (σ₁.applyStage n path stage p₁)
      (σ₂.applyStage n path stage p₂) := by
  rw [applyStage, applyStage, applyStage, hp.batch_eq, hs.single]
  split
  case isFalse => exact splits_pure hp
  case isTrue =>
    refine splits_context.bind fun _ _ _ _ => (splits_transform hh hs n path _ _).bind
      fun a a₁ a₂ ha => splits_context.bind fun _ _ _ _ => splits_pure ?_
    obtain ⟨rfl, h₁, h₂⟩ := ha
    have hr := hp.toParted.record hd h₁ h₂ path
    rw [hp.batch_eq] at hr
    exact { hr with
      quiet := by simp [hp.quiet], quiet₁ := by simp [hp.quiet₁], quiet₂ := by simp [hp.quiet₂] }

mutual
theorem splits_invoke (hh : hook.Swallows) (hd : Source.Distinct (xs ++ ys)) {position : Nat}
    {path : RecipePath} {p p₁ p₂ : Pass S} : (r : Recipe ω S) →
      (∀ stage ∈ r.stages, stage.SourceWise hook) → p.Parted xs ys p₁ p₂ →
      Splits hook (Pass.Parted xs ys) (σ.invoke n path position r p)
        (σ₁.invoke n path position r p₁) (σ₂.invoke n path position r p₂)
  | ⟨stage, children⟩, hr, hp => by
    have hs : stage.SourceWise hook := hr stage (by simp [Recipe.stages])
    have hc : ∀ s ∈ Recipe.stagesOf children, s.SourceWise hook :=
      fun s hm => hr s (by simp [Recipe.stages, hm])
    rw [invoke, invoke, invoke]
    refine splits_context.bind fun c c₁ c₂ hcancel => ?_
    rw [hcancel.1, hcancel.2]
    split
    case isTrue => exact splits_pure hp
    case isFalse =>
      have ha : ∀ b, stage.admits b = pure true := by
        intro b
        rw [Stage.admits, hs.ungated]
      rw [ha, ha, ha]
      refine (splits_pure (R := fun g g₁ g₂ => g = true ∧ g₁ = true ∧ g₂ = true)
        ⟨rfl, rfl, rfl⟩).bind fun g g₁ g₂ hg => ?_
      obtain ⟨rfl, rfl, rfl⟩ := hg
      exact (splits_applyStage hh hs hd hp).bind fun q q₁ q₂ hq =>
        splits_invokeAll hh hd children hc hq

theorem splits_invokeAll (hh : hook.Swallows) (hd : Source.Distinct (xs ++ ys)) {position : Nat}
    {path : RecipePath} {p p₁ p₂ : Pass S} : (rs : List (Recipe ω S)) →
      (∀ stage ∈ Recipe.stagesOf rs, stage.SourceWise hook) → p.Parted xs ys p₁ p₂ →
      Splits hook (Pass.Parted xs ys) (σ.invokeAll n path position rs p)
        (σ₁.invokeAll n path position rs p₁) (σ₂.invokeAll n path position rs p₂)
  | [], _, hp => by
    rw [invokeAll, invokeAll, invokeAll]
    exact splits_pure hp
  | r :: rs, hs, hp => by
    have hr : ∀ s ∈ r.stages, s.SourceWise hook :=
      fun s hm => hs s (by simp [Recipe.stagesOf, hm])
    have hrs : ∀ s ∈ Recipe.stagesOf rs, s.SourceWise hook :=
      fun s hm => hs s (by simp [Recipe.stagesOf, hm])
    rw [invokeAll, invokeAll, invokeAll]
    exact (splits_invoke hh hd r hr hp).bind fun q q₁ q₂ hq =>
      splits_invokeAll hh hd rs hrs hq
end

variable {recipe : Recipe ω S} {f f₁ f₂ : Flight S}

theorem splits_cycle (hh : hook.Swallows) (hd : Source.Distinct (xs ++ ys))
    (hs : ∀ stage ∈ recipe.stages, stage.SourceWise hook) (hf : f.Parted xs ys f₁ f₂) :
    Splits hook (fun r r₁ r₂ => r.1.Parted xs ys r₁.1 r₂.1 ∧ r.2 = false ∧ r₁.2 = false ∧
      r₂.2 = false) (σ.cycle recipe f) (σ₁.cycle recipe f₁) (σ₂.cycle recipe f₂) := by
  rw [cycle, cycle, cycle, hf.cycles₁, hf.cycles₂]
  have hp : Pass.Parted xs ys ⟨f.batch, f.ledger, false⟩ ⟨f₁.batch, f₁.ledger, false⟩
      ⟨f₂.batch, f₂.ledger, false⟩ := { hf with quiet := rfl, quiet₁ := rfl, quiet₂ := rfl }
  refine splits_resetNewMessages.bind fun _ _ _ _ => (splits_invoke hh hd recipe hs hp).bind
    fun q q₁ q₂ hq => splits_context.bind fun _ _ _ _ => splits_pure ⟨?_, ?_, ?_, ?_⟩
  · exact { hq with cycles₁ := rfl, cycles₂ := rfl }
  · rw [hq.quiet, Bool.false_and]
  · rw [hq.quiet₁, Bool.false_and]
  · rw [hq.quiet₂, Bool.false_and]

theorem splits_cycles (hh : hook.Swallows) (hd : Source.Distinct (xs ++ ys))
    (hs : ∀ stage ∈ recipe.stages, stage.SourceWise hook) (hσ₁ : σ₁.config = σ.config)
    (hσ₂ : σ₂.config = σ.config) (limit : Nat) (hf : f.Parted xs ys f₁ f₂) :
    Splits hook (Flight.Parted xs ys) (σ.cycles recipe limit f) (σ₁.cycles recipe limit f₁)
      (σ₂.cycles recipe limit f₂) := by
  induction limit generalizing f f₁ f₂ with
  | zero => exact splits_pure hf
  | succ limit ih =>
    rw [cycles, cycles, cycles]
    refine splits_context.bind fun c c₁ c₂ hcancel => ?_
    rw [hcancel.1, hcancel.2]
    split
    case isTrue => exact splits_pure hf
    case isFalse =>
      refine (splits_cycle hh hd hs hf).bind ?_
      rintro ⟨g, another⟩ ⟨g₁, another₁⟩ ⟨g₂, another₂⟩ ⟨hg, hn, hn₁, hn₂⟩
      simp only at hg hn hn₁ hn₂
      simp only [hn, hn₁, hn₂, hg.cycles₁, hg.cycles₂, hσ₁, hσ₂]
      split
      · exact splits_pure hg
      · exact ih hg

theorem checks_eq_ok_iff_of_sublist (recipe : Recipe ω S) {batch part : List S}
    (hσ : σ₁.config = σ.config) (hd : Source.Distinct batch) (hp : part.Sublist batch) :
    σ₁.checks recipe part = .ok () ↔ σ.checks recipe batch = .ok () := by
  have hpart : Source.Distinct part := hd.sublist (hp.map _)
  rw [checks_eq_ok_iff, checks_eq_ok_iff, hσ]
  simp [hd, hpart]

theorem splits_checks (hd : Source.Distinct (xs ++ ys)) (hσ₁ : σ₁.config = σ.config)
    (hσ₂ : σ₂.config = σ.config) :
    Splits hook (fun _ _ _ => True) (Attempt.ofExcept (σ.checks recipe (xs ++ ys)))
      (Attempt.ofExcept (σ₁.checks recipe xs)) (Attempt.ofExcept (σ₂.checks recipe ys)) := by
  have hi₁ := checks_eq_ok_iff_of_sublist recipe hσ₁ hd (List.sublist_append_left xs ys)
  have hi₂ := checks_eq_ok_iff_of_sublist recipe hσ₂ hd (List.sublist_append_right xs ys)
  intro c c₁ c₂ h₁ h₂
  cases hc : σ.checks recipe (xs ++ ys) with
  | ok =>
    rw [hi₁.mpr hc, hi₂.mpr hc]
    exact .ok trivial h₁ h₂
  | error e =>
    cases hc₁ : σ₁.checks recipe xs with
    | ok => cases (hi₁.mp hc₁).symm.trans hc
    | error e₁ => exact .left

theorem splits_run (hh : hook.Swallows) (hs : ∀ stage ∈ recipe.stages, stage.SourceWise hook)
    (hd : Source.Distinct (xs ++ ys)) (hσ₁ : σ₁.config = σ.config) (hσ₂ : σ₂.config = σ.config) :
    Splits hook RecipeRun.Joins (σ.run recipe (xs ++ ys)) (σ₁.run recipe xs)
      (σ₂.run recipe ys) := by
  have hf : Flight.Parted xs ys ⟨xs ++ ys, {}, 0⟩ ⟨xs, {}, 0⟩ ⟨ys, {}, 0⟩ :=
    { Parted.start xs ys with cycles₁ := rfl, cycles₂ := rfl }
  rw [run, run, run, hσ₁, hσ₂]
  refine (splits_checks hd hσ₁ hσ₂).bind fun _ _ _ _ =>
    (splits_cycles hh hd hs hσ₁ hσ₂ _ hf).bind fun g g₁ g₂ hg => splits_pure ?_
  rw [hg.cycles₁, hg.cycles₂]
  exact Report.joins_ofRun hg.toParted hd _

theorem sources_are_independent (hh : hook.Swallows)
    (hs : ∀ stage ∈ recipe.stages, stage.SourceWise hook) (hd : Source.Distinct (xs ++ ys))
    (hσ₁ : σ₁.config = σ.config) (hσ₂ : σ₂.config = σ.config) {c c₁ c₂ : Context ω}
    (hc₁ : c₁.cancelled = c.cancelled) (hc₂ : c₂.cancelled = c.cancelled) :
    ((∃ run d, (σ.run recipe (xs ++ ys)).perform hook c = (.ok run, d)) ↔
      (∃ run d, (σ₁.run recipe xs).perform hook c₁ = (.ok run, d)) ∧
        ∃ run d, (σ₂.run recipe ys).perform hook c₂ = (.ok run, d)) ∧
    ∀ run run₁ run₂ d d₁ d₂, (σ.run recipe (xs ++ ys)).perform hook c = (.ok run, d) →
      (σ₁.run recipe xs).perform hook c₁ = (.ok run₁, d₁) →
      (σ₂.run recipe ys).perform hook c₂ = (.ok run₂, d₂) → run.Joins run₁ run₂ := by
  have hj := splits_run hh hs hd hσ₁ hσ₂ c c₁ c₂ hc₁ hc₂
  refine ⟨hj.isOk_iff, fun run run₁ run₂ d d₁ d₂ h h₁ h₂ => ?_⟩
  rw [h, h₁, h₂] at hj
  cases hj with
  | ok hr => exact hr

end Scheduler

namespace Sample

def sifting : VisitorFactory Unit PlainText :=
  (pure {
    accepts := fun _ => pure true
    visit := fun t => pure (
      if t.text = "" then .ok none
      else if t.text = "z" then .error (.failed "z")
      else .ok (some { t with text := t.text ++ "!" })) } :
    Action Unit (SourceVisitor Unit PlainText))

def sift : Stage Unit PlainText :=
  { name := "sift", visitor := some sifting }

def settle : Stage Unit PlainText :=
  { name := "settle", sourceTest := some (rewriting "x!" ""), visitor := some (rewriting "x!" "y") }

def sieve : Recipe Unit PlainText :=
  .composite "root" [⟨sift, [⟨settle, []⟩]⟩]

def more : List PlainText :=
  [text 4 "x", text 5 "", text 6 "y"]

-- Only the two batches together are long enough to be visited out of order.
def backwards : Scheduler where
  config := { parallelThreshold := 4 }
  order := lastFirst

theorem sourceWise_sieve : ∀ stage ∈ sieve.stages, stage.SourceWise .record := by
  have hsift : VisitorFactory.Each .record (Action.IsConstant .record) sifting :=
    VisitorFactory.constant_pure _ _ _
  intro stage hs
  have hl : stage = sieve.stage ∨ stage = sift ∨ stage = settle := by
    simpa [sieve, Recipe.composite, Recipe.stages, Recipe.stagesOf] using hs
  rcases hl with rfl | rfl | rfl
  all_goals
    constructor
    case toEach =>
      constructor
      case gate => rintro test ⟨⟩
      case sourceTest => rintro test ⟨⟩ <;> exact functional_rewriting _ _
      case visitor => rintro factory ⟨⟩ <;> first | exact hsift | exact functional_rewriting _ _
    case perSource => rfl
    case ungated => rfl
    case single => rfl

theorem sieved_batches_join :
    ∃ run run₁ run₂ d d₁ d₂,
      (backwards.run sieve (batch ++ more)).perform .record start = (.ok run, d) ∧
      (backwards.run sieve batch).perform .record start = (.ok run₁, d₁) ∧
      (backwards.run sieve more).perform .record start = (.ok run₂, d₂) ∧
      run.batch.map PlainText.text = ["y", "z", "y", "y!"] ∧ run.Joins run₁ run₂ := by
  have hr : ((backwards.run sieve (batch ++ more)).perform .record start).1.toOption.map
      (fun run => run.batch.map PlainText.text) = some ["y", "z", "y", "y!"] := by
    decide +kernel
  have hd : Source.Distinct (batch ++ more) := by
    unfold Source.Distinct
    decide +kernel
  obtain ⟨run, d, h, hb⟩ := Attempt.exists_ok hr
  have hσ : backwards.config = backwards.config := rfl
  have hc : start.cancelled = start.cancelled := rfl
  obtain ⟨hiff, hjoin⟩ := Scheduler.sources_are_independent ErrorHook.swallows_record
    sourceWise_sieve hd hσ hσ hc hc
  obtain ⟨⟨run₁, d₁, h₁⟩, run₂, d₂, h₂⟩ := hiff.mp ⟨run, d, h⟩
  exact ⟨run, run₁, run₂, d, d₁, d₂, h, h₁, h₂, hb, hjoin _ _ _ _ _ _ h h₁ h₂⟩

end Sample

end Codemod
