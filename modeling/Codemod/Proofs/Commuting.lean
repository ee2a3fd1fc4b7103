import Codemod.Proofs.Flattening
import Codemod.Proofs.ForeignKinds
import Codemod.Proofs.Interchange
import Codemod.Proofs.KindEffects
import Codemod.Proofs.MarkerBlindness

namespace Codemod

namespace Recipe
variable {ω S : Type}

def pair (name : String) (s t : Stage ω S) : Recipe ω S :=
  .composite name [⟨s, []⟩, ⟨t, []⟩]

theorem hasBlankName_pair (name : String) (s t : Stage ω S) :
    (pair name t s).hasBlankName = (pair name s t).hasBlankName := by
  simp [pair, composite, hasBlankName, stages, stagesOf, Bool.or_comm]

theorem At.of_pair {name : String} {s t stage : Stage ω S} {path : RecipePath}
    (h : At 0 [pair name s t] path stage) (ht : stage.hasTransform = true) :
    (stage = s ∧ path = [⟨0, name, name⟩, s.frame 0]) ∨
      (stage = t ∧ path = [⟨0, name, name⟩, t.frame 1]) := by
  cases h with
  | here => cases ht
  | next h => cases h
  | under h =>
    cases h with
    | here => exact .inl ⟨rfl, rfl⟩
    | under h => cases h
    | next h =>
      cases h with
      | here => exact .inr ⟨rfl, rfl⟩
      | under h => cases h
      | next h => cases h

end Recipe

theorem Provenance.recipeNames_of_path (f g : Frame) :
    (Provenance.mk [[f, g]]).recipeNames = [g.name] := by
  rfl

theorem changingPaths_eq_singleton {ω S : Type} [Source S] {log : List (Application ω S)}
    {id : TreeId} {path : RecipePath} (h : ∃ a ∈ log, a.Changes id)
    (hp : ∀ a ∈ log, a.Changes id → a.path = path) : changingPaths log id = [path] := by
  obtain ⟨a, ha, hc⟩ := h
  have hm : path ∈ (log.filter fun a => a.Changes id).map Application.path :=
    List.mem_map.mpr ⟨a, by simp [ha, hc], hp a ha hc⟩
  have hall : ∀ q ∈ (log.filter fun a => a.Changes id).map Application.path, q = path := by
    intro q hq
    obtain ⟨b, hb, rfl⟩ := List.mem_map.mp hq
    obtain ⟨hb, hbc⟩ := List.mem_filter.mp hb
    exact hp b hb (by simpa using hbc)
  rw [changingPaths]
  generalize (log.filter fun a => a.Changes id).map Application.path = paths at hm hall
  cases paths with
  | nil => simp at hm
  | cons q paths =>
    obtain rfl := hall q (by simp)
    have hrest : paths.filter (fun r => !r == q) = [] := by
      simp only [List.filter_eq_nil_iff]
      intro r hr
      simp [hall r (by simp [hr])]
    rw [List.eraseDups_cons, hrest]
    rfl

namespace KindStage
variable {ω S T T' : Type} [Source S] [Tree T] [Accepts S T] [Tree T'] [Accepts S T']
variable {σ : Scheduler} {hook : ErrorHook ω} {k : KindStage ω T} {k' : KindStage ω T'}
variable {f f' : S → Except RecipeError (Option S)} {n position : Nat} {path : RecipePath}
variable {p p' : Pass S} {c d : Context ω} {before after : List S} {id : TreeId}

def asks (k : KindStage ω T) (before after : List S) : Bool :=
  k.repeats && !(Diff.between before after).isEmpty

def passed (k : KindStage ω T) (path : RecipePath) (p : Pass S) (after : List S) : Pass S :=
  ⟨after, p.ledger.recordDiff (Diff.between p.batch after) path,
    p.anotherCycle || k.asks p.batch after⟩

namespace Effect

theorem applyStage (hk : k.Effect σ hook f) (n : Nat) (path : RecipePath) (p : Pass S)
    (c : Context ω) : ∃ d, (σ.applyStage n path (k.stage S) p).perform hook c =
      ((p.batch.filterMapM f).map (k.passed path p), d) ∧ c.Alike d := by
  obtain ⟨d, hd, hal⟩ := hk.transforms n path p.batch c
  refine ⟨d, ?_, hal⟩
  rw [Scheduler.applyStage, if_pos hk.hasTransform, Attempt.context_bind]
  cases hr : p.batch.filterMapM f with
  | error e =>
    rw [hr] at hd
    exact Attempt.bind_of_error hd
  | ok after =>
    rw [hr] at hd
    have hw : (d.writes != c.writes) = false := by simp [hal.writes]
    rw [Attempt.bind_of_ok hd, Attempt.context_bind, hw]
    simp only [Bool.or_false]
    rfl

theorem invoke (hk : k.Effect σ hook f) (n : Nat) (path : RecipePath) (position : Nat)
    (p : Pass S) (hc : c.cancelled = false) :
    ∃ d, (σ.invoke n path position ⟨k.stage S, []⟩ p).perform hook c =
      ((p.batch.filterMapM f).map (k.passed (path ++ [(k.stage S).frame position]) p), d) ∧
        c.Alike d := by
  rw [Scheduler.invoke_leaf hc hk.ungated]
  exact hk.applyStage n _ p c

theorem find?_transform (hk : k.Effect σ hook f) (hb : Source.Distinct before)
    (h : (σ.transform n path (k.stage S) before).perform hook c = (.ok after, d)) :
    Source.find? after id = (Source.find? before id).bind (Source.kept f) := by
  obtain ⟨e, he, -⟩ := hk.transforms n path before c
  rw [h] at he
  have hm : before.filterMapM f = .ok after := (congrArg Prod.fst he).symm
  rw [filterMapM_eq_ok hm]
  exact Source.find?_filterMap (fun s t ht => hk.acts.id_eq (Source.eq_ok_of_kept ht)) hb id

theorem keeps (hk : k.Effect σ hook f) {I : S → Prop}
    (hI : ∀ {s t}, I s → f s = .ok (some t) → I t) (id : TreeId) :
    σ.Keeps hook (k.stage S) fun b =>
      Source.Distinct b ∧ ∀ s, Source.find? b id = some s → I s := by
  intro n path before after c d h hb
  refine ⟨Scheduler.distinct_transform h hb.1, fun t ht => ?_⟩
  rw [hk.find?_transform hb.1 h] at ht
  obtain ⟨s, hs, hst⟩ := Option.bind_eq_some_iff.mp ht
  exact hI (hb.2 s hs) (Source.eq_ok_of_kept hst)

theorem exists_of_changes (hk : k.Effect σ hook f) {a : Application ω S}
    (ha : a.Performed σ hook n) (hs : a.stage = k.stage S) (hb : Source.Distinct a.before)
    (hc : a.Changes id) :
    ∃ s, Source.find? a.before id = some s ∧ Accepts.isForeign T s = false := by
  have ht := ha.transformed
  rw [hs] at ht
  rw [Application.Changes, Source.Changed, hk.find?_transform hb ht] at hc
  cases hfind : Source.find? a.before id with
  | none => simp [hfind] at hc
  | some s =>
    refine ⟨s, rfl, ?_⟩
    by_contra hforeign
    have hkept : Source.kept f s = some s := hk.acts.kept.foreign_eq (by simpa using hforeign)
    simp [hfind, hkept] at hc

end Effect

end KindStage

namespace Scheduler
open Coupling
variable {ω S T T' : Type} [Source S] [Tree T] [Accepts S T] [Tree T'] [Accepts S T']
variable {σ : Scheduler} {hook : ErrorHook ω} {k : KindStage ω T} {k' : KindStage ω T'}
variable {f f' : S → Except RecipeError (Option S)} {n position : Nat} {path : RecipePath}
variable {p p' : Pass S} {c d : Context ω} {batch : List S} {name : String}

omit [Tree T] [Accepts S T] [Tree T'] [Accepts S T'] in
theorem invoke_pair {s t : Stage ω S} (hc : c.cancelled = false) :
    (σ.invoke n path position (.pair name s t) p).perform hook c =
      (σ.invoke n (path ++ [⟨position, name, name⟩]) 0 ⟨s, []⟩ p >>=
        σ.invoke n (path ++ [⟨position, name, name⟩]) 1 ⟨t, []⟩).perform hook c := by
  rw [Recipe.pair, Recipe.composite, invoke_ungated hc rfl,
    Attempt.bind_of_ok (applyStage_composite rfl), invokeAll_cons]
  exact Attempt.bind_congr rfl fun q e _ => perform_invokeAll_singleton ⟨t, []⟩

def inTurn (k : KindStage ω T) (k' : KindStage ω T') (f f' : S → Except RecipeError (Option S))
    (batch : List S) (asked : Bool) : Except RecipeError (List S × Bool) := do
  let between ← batch.filterMapM f
  let after ← between.filterMapM f'
  pure (after, asked || k.asks batch between || k'.asks between after)

theorem exists_invoke_pair (hk : k.Effect σ hook f) (hk' : k'.Effect σ hook f')
    (hc : c.cancelled = false) :
    ∃ r d, (σ.invoke n path position (.pair name (k.stage S) (k'.stage S)) p).perform hook c =
        (r, d) ∧ c.Alike d ∧
      r.map (fun q => (q.batch, q.anotherCycle)) = inTurn k k' f f' p.batch p.anotherCycle := by
  rw [invoke_pair hc, inTurn]
  obtain ⟨d, hd, hal⟩ := hk.invoke n (path ++ [⟨position, name, name⟩]) 0 p hc
  cases hm : p.batch.filterMapM f with
  | error e =>
    rw [hm] at hd
    exact ⟨_, d, Attempt.bind_of_error hd, hal, rfl⟩
  | ok between =>
    rw [hm] at hd
    obtain ⟨d', hd', hal'⟩ := hk'.invoke n (path ++ [⟨position, name, name⟩]) 1
      (k.passed (path ++ [⟨position, name, name⟩] ++ [(k.stage S).frame 0]) p between)
      (hal.uncancelled hc)
    refine ⟨_, d', (Attempt.bind_of_ok hd).trans hd', hal.trans hal', ?_⟩
    have hb : (k.passed (path ++ [⟨position, name, name⟩] ++ [(k.stage S).frame 0]) p
        between).batch = between := rfl
    rw [hb]
    cases hm' : between.filterMapM f' with
    | error e =>
      change _ = between.filterMapM f' >>= _
      rw [hm']
      rfl
    | ok after =>
      change _ = between.filterMapM f' >>= _
      rw [hm']
      rfl

omit [Tree T] [Tree T'] in
theorem asks_filterMap {f g : S → Option S} (hf : Source.Acts T fun s => .ok (f s))
    (hg : Source.Acts T' fun s => .ok (g s)) (hd : Source.Disjoint S T T')
    (hb : Source.Distinct batch) :
    k.asks (batch.filterMap g) ((batch.filterMap g).filterMap f) =
      k.asks batch (batch.filterMap f) := by
  have hids : ∀ batch : List S, (Source.ids (batch.filterMap f)).Sublist (Source.ids batch) :=
    Source.ids_filterMap_sublist fun s t h => hf.id_eq (congrArg Except.ok h)
  have hbg : Source.Distinct (batch.filterMap g) :=
    hb.sublist (Source.ids_filterMap_sublist (fun s t h => hg.id_eq (congrArg Except.ok h)) batch)
  have hempty : (Diff.between (batch.filterMap g) ((batch.filterMap g).filterMap f)).isEmpty =
      (Diff.between batch (batch.filterMap f)).isEmpty := by
    rw [Bool.eq_iff_iff, Diff.isEmpty_iff (hbg.sublist (hids _)),
      Diff.isEmpty_iff (hb.sublist (hids _))]
    exact forall_congr' fun id => not_congr (Source.changed_filterMap_iff hf hg hd hb id)
  rw [KindStage.asks, KindStage.asks, hempty]

theorem inTurn_comm (hk : k.Effect σ hook f) (hk' : k'.Effect σ hook f')
    (hT' : Accepts.Inner S T') (hd : Source.Disjoint S T T') (hb : Source.Distinct batch)
    (asked : Bool) : inTurn k' k f' f batch asked = inTurn k k' f f' batch asked := by
  -- No source of a kind that is a part of it makes its visitor break the contract.
  obtain ⟨g, rfl⟩ : ∃ g : S → Option S, f' = fun s => .ok (g s) := by
    choose g hg using hk'.total hT'
    exact ⟨g, funext hg⟩
  have hcomm := Source.filterMapM_filterMap_comm hk.acts hk'.acts hd batch
  simp only [inTurn, filterMapM_ok]
  cases hm : batch.filterMapM f with
  | error e =>
    rw [hm] at hcomm
    change (batch.filterMap g).filterMapM f >>= _ = _
    rw [hcomm]
    rfl
  | ok between =>
    rw [hm] at hcomm
    have hbetween : between = batch.filterMap (Source.kept f) := filterMapM_eq_ok hm
    have hafter : (batch.filterMap g).filterMap (Source.kept f) = between.filterMap g :=
      (filterMapM_eq_ok hcomm).symm
    have hasks : k.asks (batch.filterMap g) (between.filterMap g) = k.asks batch between := by
      rw [← hafter, hbetween]
      exact asks_filterMap hk.acts.kept hk'.acts hd hb
    have hasks' : k'.asks between (between.filterMap g) = k'.asks batch (batch.filterMap g) := by
      rw [hbetween]
      exact asks_filterMap hk'.acts hk.acts.kept hd.symm hb
    change (batch.filterMap g).filterMapM f >>= _ = Except.ok _
    rw [hcomm]
    change Except.ok _ = Except.ok _
    rw [hasks, hasks', Bool.or_right_comm]

theorem lockstep_invoke_swap (hk : k.Effect σ hook f) (hk' : k'.Effect σ hook f')
    (hT' : Accepts.Inner S T') (hd : Source.Disjoint S T T') (hp : p.Concurs p')
    (hb : Source.Distinct p.batch) :
    (sharing hook).Lockstep Pass.Concurs
      (σ.invoke n path position (.pair name (k.stage S) (k'.stage S)) p)
      (σ.invoke n path position (.pair name (k'.stage S) (k.stage S)) p') := by
  intro c c' hal
  change (sharing hook).Matched _
    ((σ.invoke n path position (.pair name (k.stage S) (k'.stage S)) p).perform hook c)
    ((σ.invoke n path position (.pair name (k'.stage S) (k.stage S)) p').perform hook c')
  cases hc : c.cancelled with
  | true =>
    rw [invoke_cancelled _ hc, invoke_cancelled _ (hal.cancelled.trans hc)]
    exact .ok hp hal
  | false =>
    obtain ⟨r, d, hr, hald, hm⟩ := exists_invoke_pair hk hk' hc
    obtain ⟨r', d', hr', hald', hm'⟩ := exists_invoke_pair hk' hk (hal.uncancelled hc)
    rw [hp.1, hp.2, inTurn_comm hk hk' hT' hd hb, ← hm] at hm'
    rw [hr, hr']
    cases r with
    | error e =>
      cases r' with
      | error e' =>
        cases hm'
        exact .error trivial
      | ok q' => cases hm'
    | ok q =>
      cases r' with
      | error e' => cases hm'
      | ok q' =>
        obtain ⟨hbatch, hasked⟩ := Prod.mk.inj (Except.ok.inj hm')
        exact .ok ⟨hbatch, hasked⟩ (hald.symm.trans (hal.trans hald'))

theorem accord_concurs_distinct :
    Accord (fun p p' : Pass S => p.Concurs p' ∧ Source.Distinct p.batch)
      (fun f f' : Flight S => f.Concurs f' ∧ Source.Distinct f.batch) where
  cycles_eq h := accord_concurs.cycles_eq h.1
  opens h := ⟨accord_concurs.opens h.1, h.2⟩
  asks_eq h := accord_concurs.asks_eq h.1
  batch_eq_iff hf hp := accord_concurs.batch_eq_iff hf.1 hp.1
  closes hf hp := ⟨accord_concurs.closes hf.1 hp.1, hp.2⟩

theorem lockstep_run_swap (hk : k.Effect σ hook f) (hk' : k'.Effect σ hook f')
    (hT' : Accepts.Inner S T') (hd : Source.Disjoint S T T') (batch : List S) :
    (sharing hook).Lockstep RecipeRun.Concurs
      (σ.run (.pair name (k.stage S) (k'.stage S)) batch)
      (σ.run (.pair name (k'.stage S) (k.stage S)) batch) := by
  have hchecks : σ.checks (.pair name (k'.stage S) (k.stage S)) batch =
      σ.checks (.pair name (k.stage S) (k'.stage S)) batch := by
    rw [checks, checks, Recipe.validate, Recipe.validate, Recipe.hasBlankName_pair]
    rfl
  refine accord_concurs_distinct.lockstep_run rfl rfl ?_ hchecks (fun _ _ _ _ _ => trivial)
    (fun ha => ⟨⟨rfl, rfl⟩, (checks_eq_ok_iff.mp ha).2.2⟩) ?_
  · rintro n p p' ⟨hp, hb⟩
    exact (lockstep_invoke_swap hk hk' hT' hd hp hb).imp_of_ok fun c q d q' hq hqq =>
      ⟨hqq, distinct_of_invoke hb hq⟩
  · intro c rounds g d g' _ hg
    rw [hg.1.1, hg.1.2]
    exact Report.concurs_ofRun _ _ _

section
variable {recipe : Recipe ω S} {rounds : List (Round ω S)} {flight : Flight S} {id : TreeId}

omit [Tree T] [Accepts S T] [Tree T'] [Accepts S T'] in
theorem Reaches.keeps_applied {trail : List (Invocation ω S)} {m : Moment ω S} {I : List S → Prop}
    (h : Reaches σ hook recipe batch c trail m)
    (hI : ∀ stage ∈ recipe.stages, σ.Keeps hook stage I) (hb : I batch) :
    ∀ a ∈ Invocation.applied trail, I a.before ∧ Recipe.At 0 [recipe] a.path a.stage ∧
      ∃ n, a.Performed σ hook n := by
  intro a ha
  obtain ⟨x, hx, hxa⟩ := List.mem_flatMap.mp ha
  have hperformed := (h.coherent.performed x hx).performed a hxa
  have hlocated := h.coherent.located x hx
  have hbefore := h.keeps_before hI hb x hx
  unfold Invocation.applications at hxa
  split at hxa
  case isTrue =>
    obtain rfl := List.mem_singleton.mp hxa
    exact ⟨hbefore, hlocated, _, hperformed⟩
  case isFalse => simp at hxa

omit [Tree T] [Accepts S T] [Tree T'] [Accepts S T'] in
theorem Completes.exists_changing {I : List S → Prop}
    (h : Completes σ hook recipe batch c rounds flight d)
    (hI : ∀ stage ∈ recipe.stages, σ.Keeps hook stage I) (hb : I batch)
    (hc : Source.Changed batch flight.batch id) :
    ∃ log : List (Application ω S), (∃ a ∈ log, a.Changes id) ∧
      flight.ledger.provenance id = ⟨changingPaths log id⟩ ∧
      ∀ a ∈ log, I a.before ∧ Recipe.At 0 [recipe] a.path a.stage ∧
        ∃ n, a.Performed σ hook n := by
  rcases h.exists_last with hsame | ⟨trail, m, hm, rfl, -⟩
  · exact absurd (by rw [hsame]) hc
  · refine ⟨Invocation.applied trail, ?_, hm.provenance_eq id, hm.keeps_applied hI hb⟩
    by_contra hn
    have hnil : changingPaths (Invocation.applied trail) id = [] :=
      changingPaths_eq_nil_iff.mpr fun a ha hac => hn ⟨a, ha, hac⟩
    have hp := h.provenance_eq id
    rw [show m.flight.ledger = m.pass.ledger from rfl, hm.provenance_eq, hnil] at hp
    obtain ⟨a, ha, hac⟩ := h.exists_changes hc
    exact changingPaths_eq_nil_iff.mp (Provenance.mk.inj hp).symm a ha hac

end

omit [Tree T] [Accepts S T] [Tree T'] [Accepts S T'] in
theorem keeps_pair {I : List S → Prop} {s t : Stage ω S} (hs : σ.Keeps hook s I)
    (ht : σ.Keeps hook t I) : ∀ stage ∈ (Recipe.pair name s t).stages, σ.Keeps hook stage I := by
  intro stage hm
  have hl : stage = { name := name } ∨ stage = s ∨ stage = t := by
    simpa [Recipe.pair, Recipe.composite, Recipe.stages, Recipe.stagesOf] using hm
  rcases hl with rfl | rfl | rfl
  · intro n path before after c d h hb
    obtain ⟨rfl, -⟩ := Attempt.pure_eq_ok.mp h
    exact hb
  · exact hs
  · exact ht

section
variable {flight : Flight S} {rounds : List (Round ω S)} {id : TreeId} {s : S}

theorem Completes.exists_changing_pair (hk : k.Effect σ hook f) (hk' : k'.Effect σ hook f')
    (h : Completes σ hook (.pair name (k.stage S) (k'.stage S)) batch c rounds flight d)
    (hc : Source.Changed batch flight.batch id) (hs : Source.find? batch id = some s)
    {I : S → Prop} (hI : I s) (hf : ∀ {t u}, I t → f t = .ok (some u) → I u)
    (hf' : ∀ {t u}, I t → f' t = .ok (some u) → I u) :
    ∃ log : List (Application ω S), (∃ a ∈ log, a.Changes id) ∧
      flight.ledger.provenance id = ⟨changingPaths log id⟩ ∧
      ∀ a ∈ log, a.Changes id → ∃ t, I t ∧
        ((Accepts.isForeign T t = false ∧ a.path = [⟨0, name, name⟩, (k.stage S).frame 0]) ∨
          (Accepts.isForeign T' t = false ∧ a.path = [⟨0, name, name⟩, (k'.stage S).frame 1])) := by
  have hb : ∀ t, Source.find? batch id = some t → I t := by
    intro t ht
    obtain rfl := Option.some.inj (hs.symm.trans ht)
    exact hI
  obtain ⟨log, hchanges, hp, hlog⟩ := h.exists_changing
    (keeps_pair (hk.keeps hf id) (hk'.keeps hf' id)) ⟨h.distinct_input, hb⟩ hc
  refine ⟨log, hchanges, hp, fun a ha hac => ?_⟩
  obtain ⟨⟨hdistinct, hfound⟩, hat, n, hperformed⟩ := hlog a ha
  rcases hat.of_pair hperformed.transforms with ⟨hstage, hpath⟩ | ⟨hstage, hpath⟩
  · obtain ⟨t, ht, hforeign⟩ := hk.exists_of_changes hperformed hstage hdistinct hac
    exact ⟨t, hfound t ht, .inl ⟨hforeign, hpath⟩⟩
  · obtain ⟨t, ht, hforeign⟩ := hk'.exists_of_changes hperformed hstage hdistinct hac
    exact ⟨t, hfound t ht, .inr ⟨hforeign, hpath⟩⟩

theorem Completes.recipeNames_of_pair (hk : k.Effect σ hook f) (hk' : k'.Effect σ hook f')
    (hd : Source.Disjoint S T T')
    (h : Completes σ hook (.pair name (k.stage S) (k'.stage S)) batch c rounds flight d)
    (hc : Source.Changed batch flight.batch id) (hs : Source.find? batch id = some s) :
    (Accepts.isForeign T s = false ∧ flight.ledger.recipeNames id = [k.name]) ∨
      (Accepts.isForeign T' s = false ∧ flight.ledger.recipeNames id = [k'.name]) := by
  have hkeep : ∀ {t u}, f t = .ok (some u) → Accepts.isForeign T u = Accepts.isForeign T t ∧
      Accepts.isForeign T' u = Accepts.isForeign T' t :=
    fun h => ⟨hk.acts.isForeign_eq h, hk.acts.isForeign_eq_of_disjoint hd h⟩
  have hkeep' : ∀ {t u}, f' t = .ok (some u) → Accepts.isForeign T u = Accepts.isForeign T t ∧
      Accepts.isForeign T' u = Accepts.isForeign T' t :=
    fun h => ⟨hk'.acts.isForeign_eq_of_disjoint hd.symm h, hk'.acts.isForeign_eq h⟩
  obtain ⟨log, hchanges, hp, hlog⟩ := h.exists_changing_pair hk hk' hc hs
    (I := fun t => Accepts.isForeign T t = Accepts.isForeign T s ∧
      Accepts.isForeign T' t = Accepts.isForeign T' s) ⟨rfl, rfl⟩
    (fun ht hu => ⟨(hkeep hu).1.trans ht.1, (hkeep hu).2.trans ht.2⟩)
    (fun ht hu => ⟨(hkeep' hu).1.trans ht.1, (hkeep' hu).2.trans ht.2⟩)
  have hnames : ∀ frame : Frame, changingPaths log id = [[⟨0, name, name⟩, frame]] →
      flight.ledger.recipeNames id = [frame.name] := by
    intro frame hpath
    rw [Ledger.recipeNames, hp, hpath, Provenance.recipeNames_of_path]
  cases hT : Accepts.isForeign T s with
  | false =>
    refine .inl ⟨rfl, hnames ((k.stage S).frame 0)
      (changingPaths_eq_singleton hchanges fun a ha hac => ?_)⟩
    obtain ⟨t, ⟨-, ht'⟩, ⟨-, hpath⟩ | ⟨hforeign, -⟩⟩ := hlog a ha hac
    · exact hpath
    · rw [ht', hd s hT] at hforeign
      cases hforeign
  | true =>
    have hlast : ∀ a ∈ log, a.Changes id → Accepts.isForeign T' s = false ∧
        a.path = [⟨0, name, name⟩, (k'.stage S).frame 1] := by
      intro a ha hac
      obtain ⟨t, ⟨ht, ht'⟩, ⟨hforeign, -⟩ | ⟨hforeign, hpath⟩⟩ := hlog a ha hac
      · rw [ht, hT] at hforeign
        cases hforeign
      · exact ⟨ht'.symm.trans hforeign, hpath⟩
    obtain ⟨a, ha, hac⟩ := hchanges
    exact .inr ⟨(hlast a ha hac).1, hnames ((k'.stage S).frame 1)
      (changingPaths_eq_singleton ⟨a, ha, hac⟩ fun b hb hbc => (hlast b hb hbc).2)⟩

theorem recipeNames_of_pair (hk : k.Effect σ hook f) (hk' : k'.Effect σ hook f')
    (hd : Source.Disjoint S T T') {run : RecipeRun S}
    (h : (σ.run (.pair name (k.stage S) (k'.stage S)) batch).perform hook c = (.ok run, d)) :
    ∀ r ∈ run.results, ∃ s, r.before = some s ∧
      ((Accepts.isForeign T s = false ∧ r.recipeNames = [k.name]) ∨
        (Accepts.isForeign T' s = false ∧ r.recipeNames = [k'.name])) := by
  obtain ⟨rounds, flight, hf, rfl⟩ := run_eq_ok_iff.mp h
  have hi := hf.distinct_input
  have hb := hf.distinct_output
  have hsub : (Source.ids flight.batch).Sublist (Source.ids batch) :=
    hf.keeps (keeps_pair (keeps_ids_sublist rfl _) (keeps_ids_sublist rfl _)) (.refl _)
  intro r hr
  have hold := Report.isGenerated_of_mem_results hi hb hsub hr
  obtain ⟨id, hc, -, rfl⟩ := (Report.mem_results_iff hi hb).mp hr
  cases hs : Source.find? batch id with
  | none => simp [RecipeResult.isGenerated, Report.netEntry, Report.entry, hs] at hold
  | some s => exact ⟨s, hs, hf.recipeNames_of_pair hk hk' hd hc hs⟩

omit [Source S] [Tree T] in
def author (T : Type) [Accepts S T] (own other : String) (before : Option S) : String :=
  if before.any (Accepts.isForeign T) then other else own

theorem map_recipeNames_swap (hk : k.Effect σ hook f) (hk' : k'.Effect σ hook f')
    (hd : Source.Disjoint S T T') {run run' : RecipeRun S} {c' d' : Context ω}
    (h : (σ.run (.pair name (k.stage S) (k'.stage S)) batch).perform hook c = (.ok run, d))
    (h' : (σ.run (.pair name (k'.stage S) (k.stage S)) batch).perform hook c' = (.ok run', d'))
    (hc : run.results.map RecipeResult.change = run'.results.map RecipeResult.change) :
    run.results.map RecipeResult.recipeNames = run'.results.map RecipeResult.recipeNames := by
  have hauthor : ∀ {results : List (RecipeResult S)}, (∀ r ∈ results, ∃ s, r.before = some s ∧
        ((Accepts.isForeign T s = false ∧ r.recipeNames = [k.name]) ∨
          (Accepts.isForeign T' s = false ∧ r.recipeNames = [k'.name]))) →
      results.map RecipeResult.recipeNames =
        (results.map RecipeResult.change).map fun change => [author T k.name k'.name change.1] := by
    intro results hr
    rw [List.map_map]
    refine List.map_congr_left fun r hm => ?_
    obtain ⟨s, hs, ⟨hf, hn⟩ | ⟨hf, hn⟩⟩ := hr r hm
    · simp [RecipeResult.change, author, hs, hf, hn]
    · simp [RecipeResult.change, author, hs, hd.symm s hf, hn]
  have hr := recipeNames_of_pair hk hk' hd h
  have hr' := recipeNames_of_pair hk' hk hd.symm h'
  rw [hauthor hr, hauthor fun r hm => (hr' r hm).imp fun s hs => hs.imp_right Or.symm, hc]

end

end Scheduler

theorem Accepts.disjoint_kinds : Source.Disjoint Document PlainText Section := by
  intro s hs
  cases s with
  | text t => rfl
  | outline o => cases hs

namespace Scheduler
open Coupling

theorem recipes_of_different_kinds_commute {ω : Type} {σ : Scheduler} {hook : ErrorHook ω}
    (hσ : σ.config.parallel = false) (hh : hook.Swallows) {p : KindStage ω PlainText}
    {q : KindStage ω Section} (hp : p.IsPlain hook Document) (hq : q.IsPlain hook Document)
    (name : String) (batch : List Document) (c : Context ω) :
    (∃ error d d',
      (σ.run (.pair name (p.stage Document) (q.stage Document)) batch).perform hook c =
          (.error error, d) ∧
        (σ.run (.pair name (q.stage Document) (p.stage Document)) batch).perform hook c =
          (.error error, d')) ∨
      ∃ run run' d d',
        (σ.run (.pair name (p.stage Document) (q.stage Document)) batch).perform hook c =
            (.ok run, d) ∧
          (σ.run (.pair name (q.stage Document) (p.stage Document)) batch).perform hook c =
            (.ok run', d') ∧
          run.Concurs run' ∧
          run'.results.map RecipeResult.recipeNames = run.results.map RecipeResult.recipeNames := by
  obtain ⟨f, hf⟩ := hp.exists_effect Accepts.lawful_plainText hh hσ c
  obtain ⟨g, hg⟩ := hq.exists_effect Accepts.inner_section.toLawful hh hσ c
  have hswap : (sharing hook).Lockstep RecipeRun.Concurs
      (σ.run (.pair name (p.stage Document) (q.stage Document)) batch)
      (σ.run (.pair name (q.stage Document) (p.stage Document)) batch) :=
    lockstep_run_swap hf hg Accepts.inner_section Accepts.disjoint_kinds batch
  have hm := hswap c c (.refl c)
  change (sharing hook).Matched _
    ((σ.run (.pair name (p.stage Document) (q.stage Document)) batch).perform hook c)
    ((σ.run (.pair name (q.stage Document) (p.stage Document)) batch).perform hook c) at hm
  generalize ho : (σ.run (.pair name (p.stage Document) (q.stage Document)) batch).perform
    hook c = o at hm
  generalize ho' : (σ.run (.pair name (q.stage Document) (p.stage Document)) batch).perform
    hook c = o' at hm
  cases hm with
  | @error error d d' _ => exact .inl ⟨error, d, d', rfl, rfl⟩
  | @ok run run' d d' hc _ =>
    have hnames := map_recipeNames_swap hf hg Accepts.disjoint_kinds ho ho' hc.changes_eq.symm
    exact .inr ⟨run, run', d, d', rfl, rfl, hc, hnames.symm⟩

end Scheduler

namespace Sample

def crier : KindStage Unit PlainText :=
  { shouter with name := "crier", repeats := true }

theorem plain_crier : crier.IsPlain .record Document := by
  refine KindStage.isPlain_of_factories Document rfl (fun test h => nomatch h) rfl
    ⟨_, _, fun c => rfl, ?_⟩
  constructor
  case accepts => exact fun t => Action.isConstant_pure true
  case preVisit => exact fun t => Hook.isConstant_pure t
  case visitNode => exact fun t => Hook.isConstant_pure _
  case postVisit => exact fun t => Hook.isConstant_pure t
  case whole => exact fun h => nomatch h

theorem plain_retitler : retitler.IsPlain .record Document := by
  refine KindStage.isPlain_of_factories Document rfl (fun test h => nomatch h) rfl
    ⟨_, _, fun c => rfl, ?_⟩
  constructor
  case accepts => exact fun s => Action.isConstant_pure true
  case preVisit => exact fun s => Hook.isConstant_pure s
  case postVisit => exact fun s => Hook.isConstant_pure s
  case whole => exact fun h => nomatch h
  case visitNode =>
    intro s
    change Hook.IsConstant _ (retitle s)
    unfold retitle
    split
    · exact Hook.isConstant_discard
    split
    · exact Hook.isConstant_fail _
    · exact (Hook.isConstant_updateState _).bind fun _ => Hook.isConstant_state.bind fun n =>
        Hook.isConstant_pure _

theorem crier_and_retitler_commute :
    ∃ run run' d d',
      (scheduler.run (.pair "root" (crier.stage Document) (retitler.stage Document))
          documents).perform .record start = (.ok run, d) ∧
        (scheduler.run (.pair "root" (retitler.stage Document) (crier.stage Document))
          documents).perform .record start = (.ok run', d') ∧
        run.cycles = 5 ∧
        run.results.map RecipeResult.recipeNames =
          [["crier"], ["retitler"], ["crier"], ["retitler"]] ∧
        run.Concurs run' ∧
        run'.results.map RecipeResult.recipeNames = run.results.map RecipeResult.recipeNames := by
  have hr : ((scheduler.run (.pair "root" (crier.stage Document) (retitler.stage Document))
      documents).perform .record start).1.toOption.map
        (fun run => (run.cycles, run.results.map RecipeResult.recipeNames)) =
          some (5, [["crier"], ["retitler"], ["crier"], ["retitler"]]) := by
    decide +kernel
  obtain ⟨run, d, h, hb⟩ := Attempt.exists_ok hr
  obtain ⟨hcycles, hnames⟩ := Prod.mk.inj hb
  rcases Scheduler.recipes_of_different_kinds_commute (σ := scheduler) rfl
    ErrorHook.swallows_record plain_crier plain_retitler "root" documents start with
    ⟨error, _, _, he, -⟩ | ⟨run₁, run', d₁, d', h₁, h', hc, hn⟩
  · cases h.symm.trans he
  · obtain ⟨hrun, rfl⟩ := Prod.mk.inj (h.symm.trans h₁)
    obtain rfl := Except.ok.inj hrun
    exact ⟨run, run', d, d', h, h', hcycles, hnames, hc, hn⟩

end Sample

end Codemod
