import Codemod.Proofs.Attribution
import Codemod.Proofs.CycleControl
import Codemod.Proofs.Steady

namespace Codemod

namespace Table
variable {κ ν : Type} [DecidableEq κ] {t : Table κ ν} {k : κ} {v : ν}

theorem valueAt_of_mem {es : List (κ × ν)} (hn : (es.map Prod.fst).Nodup) {e : κ × ν}
    (he : e ∈ es) : valueAt e.1 es = some e.2 := by
  induction es with
  | nil => simp at he
  | cons first es ih =>
    obtain ⟨hi, hn⟩ := List.nodup_cons.mp hn
    rcases List.mem_cons.mp he with rfl | he
    · simp [valueAt]
    · have hm : e.1 ∈ es.map Prod.fst := List.mem_map_of_mem he
      have hne : first.1 ≠ e.1 := fun h => hi (h ▸ hm)
      rw [valueAt, if_neg hne]
      exact ih hn he

theorem insert_of_get? (h : t.get? k = some v) : t.insert k v = t := by
  have hk : k ∈ t.keys := contains_iff.mp (by simp [contains, h])
  have hsame : ∀ e ∈ t.entries, overwrite k v e = id e := by
    intro e hm
    unfold overwrite
    split
    case isTrue hi =>
      subst hi
      have hv : some e.2 = some v := (valueAt_of_mem t.nodup hm).symm.trans h
      rw [← Option.some.inj hv]
      rfl
    case isFalse => rfl
  have he : t.entries.map (overwrite k v) = t.entries := by
    rw [List.map_congr_left hsame, List.map_id]
  rw [insert, dif_pos hk]
  obtain ⟨entries, hn⟩ := t
  simp only [mk.injEq]
  exact he

end Table

namespace Ledger
variable {ω S : Type} [Source S] {l : Ledger} {id : TreeId} {path : RecipePath}

/-- The path is recorded for the source: recording it once more does nothing. -/
def Knows (l : Ledger) (id : TreeId) (path : RecipePath) : Prop :=
  ∃ p, l.get? id = some p ∧ p.record path = p

theorem record_of_knows (h : l.Knows id path) : l.record id path = l := by
  obtain ⟨p, hp, hr⟩ := h
  have hl : l.provenance id = p := by rw [provenance, hp, Option.getD_some]
  rw [record, hl, hr, Table.insert_of_get? hp]

theorem knows_record (l : Ledger) (id : TreeId) (path : RecipePath) :
    (l.record id path).Knows id path := by
  refine ⟨(l.provenance id).record path, ?_, Provenance.record_record _ _⟩
  rw [get?_record, if_pos rfl]

theorem Knows.record (h : l.Knows id path) (other : TreeId) (q : RecipePath) :
    (l.record other q).Knows id path := by
  by_cases hid : id = other
  · subst hid
    obtain ⟨p, hp, hr⟩ := h
    have hl : l.provenance id = p := by rw [provenance, hp, Option.getD_some]
    refine ⟨p.record q, by rw [get?_record, if_pos rfl, hl], ?_⟩
    by_cases hn : path = []
    · rw [hn]
      rfl
    · have hm : path ∈ p.paths := by
        rw [← hr]
        exact Provenance.mem_paths_record.mpr (Or.inr ⟨rfl, hn⟩)
      exact Provenance.record_of_mem (Provenance.mem_paths_record.mpr (Or.inl hm))
  · obtain ⟨p, hp, hr⟩ := h
    exact ⟨p, by rw [get?_record, if_neg hid, hp], hr⟩

def recordings (log : List (Application ω S)) : List (TreeId × RecipePath) :=
  log.flatMap fun a => a.diff.touched.map fun id => (id, a.path)

def recordEach (l : Ledger) (recordings : List (TreeId × RecipePath)) : Ledger :=
  recordings.foldl (fun l r => l.record r.1 r.2) l

theorem replay_eq_recordEach (l : Ledger) (log : List (Application ω S)) :
    l.replay log = l.recordEach (recordings log) := by
  induction log generalizing l with
  | nil => rfl
  | cons a log ih =>
    have ha : l.recordDiff a.diff a.path =
        l.recordEach (a.diff.touched.map fun id => (id, a.path)) := by
      simp [recordDiff, recordAll, recordEach, List.foldl_map]
    have hr : recordings (a :: log) =
        (a.diff.touched.map fun id => (id, a.path)) ++ recordings log := rfl
    rw [hr, recordEach, List.foldl_append, ← recordEach, ← recordEach, ← ha, ← ih]
    rfl

variable {rs : List (TreeId × RecipePath)}

theorem Knows.recordEach (h : l.Knows id path) : (l.recordEach rs).Knows id path := by
  induction rs generalizing l with
  | nil => exact h
  | cons r rs ih => exact ih (h.record r.1 r.2)

theorem knows_recordEach {r : TreeId × RecipePath} (hr : r ∈ rs) :
    (l.recordEach rs).Knows r.1 r.2 := by
  induction rs generalizing l with
  | nil => simp at hr
  | cons first rs ih =>
    rcases List.mem_cons.mp hr with rfl | hr
    · exact (knows_record l r.1 r.2).recordEach
    · exact ih hr

theorem recordEach_of_knows (h : ∀ r ∈ rs, l.Knows r.1 r.2) : l.recordEach rs = l := by
  induction rs with
  | nil => rfl
  | cons r rs ih =>
    have hr : l.record r.1 r.2 = l := record_of_knows (h r (by simp))
    have hl : l.recordEach (r :: rs) = (l.record r.1 r.2).recordEach rs := rfl
    rw [hl, hr]
    exact ih fun r hm => h r (by simp [hm])

theorem replay_replay (l : Ledger) (log : List (Application ω S)) :
    (l.replay log).replay log = l.replay log := by
  rw [replay_eq_recordEach l log, replay_eq_recordEach]
  exact recordEach_of_knows fun r hr => knows_recordEach hr

end Ledger

theorem Source.eq_of_not_changed {S : Type} [Source S] {before after : List S}
    (hb : Distinct before) (hs : (ids after).Sublist (ids before))
    (hn : ∀ id, ¬ Changed before after id) : after = before := by
  have hf : ∀ id, find? before id = find? after id := fun id => Decidable.not_not.mp (hn id)
  have ha : Distinct after := hb.sublist hs
  have hsub : ids before ⊆ ids after := by
    intro id hm
    by_contra hno
    have hnone : find? before id = none := (hf id).trans (find?_eq_none_iff.mpr hno)
    exact find?_eq_none_iff.mp hnone hm
  have hids : ids after = ids before := hs.eq_of_length_le (hb.length_le_of_subset hsub)
  have hmap : ∀ {batch : List S}, Distinct batch →
      (ids batch).map (find? batch) = batch.map some := by
    intro batch hd
    rw [ids, List.map_map]
    exact List.map_congr_left fun s hm => find?_of_mem hd hm
  have he : after.map some = before.map some := by
    rw [← hmap ha, ← hmap hb, hids]
    exact List.map_congr_left fun id _ => (hf id).symm
  exact (List.map_injective_iff.mpr (fun _ _ => Option.some.inj)) he

section
variable {ω S : Type} [Source S] {hook : ErrorHook ω}

theorem Application.after_eq_of_not_asks {σ : Scheduler} {n : Nat} {a : Application ω S}
    (hs : a.stage.Functional hook) (hp : a.Performed σ hook n) (hd : a.Distinct)
    (hn : a.asks = false) : a.after = a.before := by
  have hr : a.stage.repeats = true := hs.repeats hp.transforms
  have hsub := Scheduler.ids_transform_sublist hs.perSource hp.transformed
  have hc : ∀ id, ¬ a.Changes id := by
    intro id hc
    have ha : a.asks = true := (Application.asks_iff hd).mpr ⟨hr, Or.inl ⟨id, hc⟩⟩
    rw [hn] at ha
    exact Bool.false_ne_true ha
  exact Source.eq_of_not_changed hd.before hsub hc

namespace Scheduler
variable {σ : Scheduler} {cycle position : Nat} {path : RecipePath} {rs : List (Recipe ω S)}
variable {recipe : Recipe ω S} {batch after : List S} {c d : Context ω}
variable {log : List (Application ω S)}

theorem Walk.after_eq (h : Walk σ hook cycle path position rs batch c log after d)
    (hu : ∀ a ∈ log, a.after = a.before) : after = batch := by
  induction h with
  | nil => rfl
  | cancelled _ _ ih => exact ih hu
  | refused _ _ _ ih => exact ih hu
  | composite _ _ _ _ _ ihi ihr =>
    have hi := ihi fun a ha => hu a (List.mem_append_left _ ha)
    have hr := ihr fun a ha => hu a (List.mem_append_right _ ha)
    exact hr.trans hi
  | @applied _ _ _ _ _ _ _ _ _ _ a _ _ _ _ ihi ihr =>
    have ha : a.after = a.before := hu a (by simp)
    have hi := ihi fun b hb => hu b (by simp [hb])
    have hr := ihr fun b hb => hu b (by simp [hb])
    exact hr.trans (hi.trans ha)

theorem yields_invoke {stage : Stage ω S} {children : List (Recipe ω S)} {p q : Pass S}
    {admitted : Bool} (hg : Attempt.Yields hook (stage.admits p.batch) admitted)
    (hq : Attempt.Yields hook
      (if admitted then
        σ.applyStage cycle (path ++ [stage.frame position]) stage p >>=
          σ.invokeAll cycle (path ++ [stage.frame position]) 0 children
      else pure p) q) :
    Attempt.Yields hook (σ.invoke cycle path position ⟨stage, children⟩ p) q := by
  intro c hc
  obtain ⟨g, hperf, hal⟩ := hg c hc
  obtain ⟨d, hd, hal'⟩ := hq g (hal.uncancelled hc)
  refine ⟨d, ?_, hal.trans hal'⟩
  rw [invoke_of_admits hc hperf, ← hd]
  cases admitted <;> rfl

theorem yields_invoke_composite {stage : Stage ω S} {children : List (Recipe ω S)} {p q : Pass S}
    (hg : Attempt.Yields hook (stage.admits p.batch) true) (ht : stage.hasTransform = false)
    (hi : Attempt.Yields hook (σ.invokeAll cycle (path ++ [stage.frame position]) 0 children p) q) :
    Attempt.Yields hook (σ.invoke cycle path position ⟨stage, children⟩ p) q := by
  have hstage : Attempt.Yields hook
      (σ.applyStage cycle (path ++ [stage.frame position]) stage p) p :=
    fun c _ => ⟨c, applyStage_composite ht, .refl c⟩
  exact yields_invoke hg (hstage.bind hi)

theorem yields_applyStage {a : Application ω S} {p : Pass S} (ht : a.stage.hasTransform = true)
    (hp : p.batch = a.before) (hw : a.finish.writes = a.start.writes)
    (ha : Attempt.Yields hook (σ.transform cycle a.path a.stage a.before) a.after) :
    Attempt.Yields hook (σ.applyStage cycle a.path a.stage p) (p.apply a) := by
  intro c hc
  obtain ⟨d, hd, hal⟩ := ha c hc
  refine ⟨d, (applyStage_eq_ok ht c).mpr ⟨by rw [hp]; exact hd, ?_⟩, hal⟩
  -- Neither here nor there did the transform write a message.
  have hasks : a.asks = (Application.mk a.path a.stage c c d p.batch a.after).asks := by
    simp [Application.asks, Application.diff, hp, hw, hal.writes]
  rw [Pass.apply, Pass.apply, hasks]
  simp [Application.diff, hp]

theorem yields_invoke_applied {a : Application ω S} {children : List (Recipe ω S)} {p q : Pass S}
    (hg : Attempt.Yields hook (a.stage.admits a.before) true)
    (ht : a.stage.hasTransform = true) (hp : p.batch = a.before)
    (hw : a.finish.writes = a.start.writes)
    (ha : Attempt.Yields hook (σ.transform cycle a.path a.stage a.before) a.after)
    (hpath : a.path = path ++ [a.stage.frame position])
    (hi : Attempt.Yields hook (σ.invokeAll cycle a.path 0 children (p.apply a)) q) :
    Attempt.Yields hook (σ.invoke cycle path position ⟨a.stage, children⟩ p) q := by
  have hstage := yields_applyStage ht hp hw ha
  rw [← hp] at hg
  rw [hpath] at hstage hi
  exact yields_invoke hg (hstage.bind hi)

-- The walk shows what the recipes do from one context; being functions of the sources, they do it
-- from every other, and whatever the ledger holds by then.
theorem Walk.yields (hh : hook.Swallows)
    (h : Walk σ hook cycle path position rs batch c log after d) (hc : c.cancelled = false)
    (hf : ∀ stage ∈ Recipe.stagesOf rs, stage.Functional hook) (σ' : Scheduler) (cycle' : Nat) :
    c.Alike d ∧ ∀ p : Pass S, p.batch = batch →
      Attempt.Yields hook (σ'.invokeAll cycle' path position rs p) (p.replay log) := by
  induction h with
  | nil => exact ⟨.refl _, fun p _ => Attempt.yields_pure p⟩
  | cancelled hcancel => exact absurd (hcancel.symm.trans hc) (by simp)
  | @refused path position stage children rs batch c e log after d _ hg rest ih =>
    obtain ⟨hs, hchildren, hrs⟩ := Recipe.forall_mem_stagesOf_cons.mp hf
    have hadm := Stage.yields_admits hh hs hg
    have he : c.Alike e := (hadm.eq_of_ok hc hg).2
    obtain ⟨hd, hr⟩ := ih (he.uncancelled hc) hrs
    refine ⟨he.trans hd, fun p hp => ?_⟩
    subst hp
    rw [invokeAll_cons]
    exact (yields_invoke hadm (Attempt.yields_pure p)).bind (hr p rfl)
  | @composite path position stage children rs batch c e below batch' e' log after d _ hg ht inner
      rest ihi ihr =>
    obtain ⟨hs, hchildren, hrs⟩ := Recipe.forall_mem_stagesOf_cons.mp hf
    have hadm := Stage.yields_admits hh hs hg
    have he : c.Alike e := (hadm.eq_of_ok hc hg).2
    obtain ⟨hi, hinner⟩ := ihi (he.uncancelled hc) hchildren
    obtain ⟨hr, hrest⟩ := ihr ((he.trans hi).uncancelled hc) hrs
    refine ⟨(he.trans hi).trans hr, fun p hp => ?_⟩
    subst hp
    have hinvoke := yields_invoke_composite hadm ht (hinner p rfl)
    rw [invokeAll_cons, Pass.replay_append]
    exact hinvoke.bind (hrest _ (inner.batch_replay p rfl))
  | @applied path position children rs below batch' e' log after d a ha hp inner rest ihi ihr =>
    obtain ⟨hs, hchildren, hrs⟩ := Recipe.forall_mem_stagesOf_cons.mp hf
    have hadm := Stage.yields_admits hh hs ha.admitted
    have he : a.entry.Alike a.start := (hadm.eq_of_ok hc ha.admitted).2
    have hstart : a.start.cancelled = false := he.uncancelled hc
    have htr := yields_transform hh hs ha.transformed
    have hown : a.start.Alike a.finish := ((htr σ cycle a.path).eq_of_ok hstart ha.transformed).2
    obtain ⟨hi, hinner⟩ := ihi ((he.trans hown).uncancelled hc) hchildren
    obtain ⟨hr, hrest⟩ := ihr (((he.trans hown).trans hi).uncancelled hc) hrs
    refine ⟨((he.trans hown).trans hi).trans hr, fun p hpb => ?_⟩
    have hinvoke := yields_invoke_applied hadm ha.transforms hpb hown.writes (htr σ' cycle' a.path)
      hp (hinner (p.apply a) rfl)
    rw [invokeAll_cons, List.cons_append, Pass.replay_cons, Pass.replay_append]
    exact hinvoke.bind (hrest _ (inner.batch_replay (p.apply a) rfl))

def Repeats (hook : ErrorHook ω) (recipe : Recipe ω S) (batch : List S)
    (log : List (Application ω S)) (after : List S) : Prop :=
  ∀ (σ : Scheduler) (l : Ledger) (n : Nat) (c : Context ω), c.cancelled = false →
    ∃ d, d.cancelled = false ∧ (σ.cycle recipe ⟨batch, l, n⟩).perform hook c =
      (.ok (⟨after, l.replay log, n + 1⟩, log.any Application.asks && decide (after ≠ batch)), d)

theorem Walk.alike (hh : hook.Swallows)
    (h : Walk σ hook cycle [] 0 [recipe] batch c log after d) (hc : c.cancelled = false)
    (hf : ∀ stage ∈ recipe.stages, stage.Functional hook) : c.Alike d := by
  rw [← Recipe.stagesOf_singleton] at hf
  exact (h.yields hh hc hf σ cycle).1

theorem Walk.repeats (hh : hook.Swallows)
    (h : Walk σ hook cycle [] 0 [recipe] batch c log after d) (hc : c.cancelled = false)
    (hf : ∀ stage ∈ recipe.stages, stage.Functional hook) : Repeats hook recipe batch log after := by
  intro σ' l n c' hc'
  let p : Pass S := ⟨batch, l, false⟩
  rw [← Recipe.stagesOf_singleton] at hf
  obtain ⟨-, hy⟩ := h.yields hh hc hf σ' (n + 1)
  obtain ⟨d', hd, hal⟩ := hy p rfl c'.resetNewMessages hc'
  rw [perform_invokeAll_singleton] at hd
  have hb : (p.replay log).batch = after := h.batch_replay p rfl
  have hnew : d'.hasNewMessages = false := by
    rw [hal.hasNewMessages, Context.hasNewMessages_resetNewMessages]
  refine ⟨d', hal.uncancelled hc', ?_⟩
  rw [Scheduler.cycle, Attempt.update_bind, Attempt.bind_of_ok hd, Attempt.context_bind, hb, hnew,
    Pass.ledger_replay, Pass.anotherCycle_replay, Bool.false_or, Bool.or_false]
  rfl

theorem Walk.after_eq_of_not_asks (h : Walk σ hook cycle [] 0 [recipe] batch c log after d)
    (hf : ∀ stage ∈ recipe.stages, stage.Functional hook) (hb : Source.Distinct batch)
    (hn : (log.any Application.asks && decide (after ≠ batch)) = false) : after = batch := by
  rcases Bool.and_eq_false_iff.mp hn with hn | hn
  · refine h.after_eq fun a ha => ?_
    obtain ⟨tail, -, hat⟩ := h.located a ha
    have hq : a.asks = false := by
      have hany := List.any_eq_false.mp hn a ha
      simpa using hany
    exact a.after_eq_of_not_asks (hf _ hat.mem_stages) (h.performed a ha) ((h.distinct hb).1 a ha) hq
  · simpa using hn

theorem Walk.after_eq_of_settled (hh : hook.Swallows)
    (h : Walk σ hook cycle [] 0 [recipe] batch c.resetNewMessages log after d)
    (hc : c.cancelled = false) (hf : ∀ stage ∈ recipe.stages, stage.Functional hook)
    (hb : Source.Distinct batch) (ht : (Round.mk batch log after d).triggers = false) :
    after = batch := by
  have hnew : d.hasNewMessages = false := (h.alike hh hc hf).hasNewMessages.trans
    (Context.hasNewMessages_resetNewMessages c)
  exact h.after_eq_of_not_asks hf hb (by simpa [Round.triggers, hnew] using ht)

theorem Repeats.cycles_of_fixed (h : Repeats hook recipe batch log batch) {l : Ledger}
    (hl : l.replay log = l) (limit n : Nat) (hc : c.cancelled = false) :
    ∃ k d, (σ.cycles recipe limit ⟨batch, l, n⟩).perform hook c = (.ok ⟨batch, l, k⟩, d) := by
  induction limit generalizing n c with
  | zero => exact ⟨n, c, rfl⟩
  | succ limit ih =>
    obtain ⟨e, he, hcycle⟩ := h σ l n c hc
    rw [hl] at hcycle
    rw [cycles_succ hc, Attempt.bind_of_ok hcycle]
    split
    case isTrue => exact ⟨n + 1, e, rfl⟩
    case isFalse => exact ih (n + 1) he

variable {limit : Nat} {f g : Flight S} {rounds : List (Round ω S)}

-- By induction on the cycles of the settled run: the other one makes the same cycles as long as
-- neither of the two stops, and wherever one stops, the batch is a fixed point for both.
theorem Cycling.agrees (hh : hook.Swallows) (hf : ∀ stage ∈ recipe.stages, stage.Functional hook)
    (h : Cycling σ hook recipe limit f c rounds g d) (hc : c.cancelled = false)
    (hb : Source.Distinct f.batch) (hm : f.cycles + limit = σ.config.maxCycles)
    (hg : g.cycles < σ.config.maxCycles) (σ' : Scheduler) (limit' : Nat)
    (hl : g.cycles ≤ f.cycles + limit') {c' : Context ω} (hc' : c'.cancelled = false) :
    ∃ k d', (σ'.cycles recipe limit' f).perform hook c' = (.ok ⟨g.batch, g.ledger, k⟩, d') := by
  induction h generalizing limit' c' with
  | spent => omega
  | cancelled hcancel => exact absurd (hcancel.symm.trans hc) (by simp)
  | @settled limit f c log after d _ hw hmin ht =>
    obtain ⟨limit', rfl⟩ : ∃ k, limit' = k + 1 := ⟨limit' - 1, by simp only at hl; omega⟩
    have hr := hw.repeats hh hc hf
    obtain rfl : after = f.batch := hw.after_eq_of_settled hh hc hf hb ht
    obtain ⟨e, he, hcycle⟩ := hr σ' f.ledger f.cycles c' hc'
    rw [cycles_succ hc', Attempt.bind_of_ok hcycle]
    split
    case isTrue => exact ⟨f.cycles + 1, e, rfl⟩
    case isFalse => exact hr.cycles_of_fixed (Ledger.replay_replay _ _) limit' _ he
  | @again limit f c log after e rounds g d _ hw hs rest ih =>
    have hn : g.cycles = f.cycles + 1 + rounds.length := rest.cycles_eq
    obtain ⟨limit', rfl⟩ : ∃ k, limit' = k + 1 := ⟨limit' - 1, by omega⟩
    have hr := hw.repeats hh hc hf
    have he : e.cancelled = false := (hw.alike hh hc hf).uncancelled hc
    obtain ⟨e', he', hcycle⟩ := hr σ' f.ledger f.cycles c' hc'
    rw [cycles_succ hc', Attempt.bind_of_ok hcycle]
    split
    case isTrue hstop =>
      -- The other run stops here, so this batch is a fixed point, and the longer run stays there.
      have hnot := (Bool.and_eq_true_iff.mp hstop).2
      rw [Bool.not_eq_true'] at hnot
      obtain rfl : after = f.batch := hw.after_eq_of_not_asks hf hb hnot
      have hsame := Ledger.replay_replay f.ledger log
      obtain ⟨k, d', hfixed⟩ := hr.cycles_of_fixed (σ := σ) hsame limit (f.cycles + 1) he
      have hg' := rest.perform_cycles.symm.trans hfixed
      obtain rfl : g = _ := Except.ok.inj (congrArg Prod.fst hg')
      exact ⟨f.cycles + 1, e', rfl⟩
    case isFalse =>
      have hd : Source.Distinct after := (hw.distinct hb).2
      have hm' : f.cycles + 1 + limit = σ.config.maxCycles := by omega
      have hl' : g.cycles ≤ f.cycles + 1 + limit' := by omega
      exact ih he hd hm' hg limit' hl' he'

theorem settled_run_is_stable (hh : hook.Swallows)
    (hf : ∀ stage ∈ recipe.stages, stage.Functional hook) {run : RecipeRun S}
    (h : (σ.run recipe batch).perform hook c = (.ok run, d)) (hc : c.cancelled = false)
    (hlt : run.cycles < σ.config.maxCycles) (σ' : Scheduler) (hv : σ'.config.fault? = none)
    (hle : run.cycles ≤ σ'.config.maxCycles) {c' : Context ω} (hc' : c'.cancelled = false) :
    ∃ run' d', (σ'.run recipe batch).perform hook c' = (.ok run', d') ∧
      run'.results = run.results ∧ run'.batch = run.batch := by
  obtain ⟨rounds, f, hf', rfl⟩ := run_eq_ok_iff.mp h
  have hchecks := checks_eq_ok_iff.mp hf'.accepted
  have ha : σ'.checks recipe batch = .ok () :=
    checks_eq_ok_iff.mpr ⟨Config.fault?_eq_none_iff.mp hv, hchecks.2⟩
  have hle' : f.cycles ≤ 0 + σ'.config.maxCycles := by
    rw [Nat.zero_add]
    exact hle
  obtain ⟨k, d', hk⟩ := hf'.flown.agrees hh hf hc hchecks.2.2 (Nat.zero_add _) hlt σ' _ hle' hc'
  refine ⟨Report.ofRun batch f.batch f.ledger k, d', ?_, rfl, rfl⟩
  rw [run_of_accepted ha, Attempt.bind_of_ok hk]
  rfl

end Scheduler

end

namespace Sample

def gatedOuter : Stage Unit PlainText :=
  { name := "outer", gate := some (rewriting "y" "") }

-- The first sibling is let through only in the second cycle.
def growing : Recipe Unit PlainText :=
  .composite "root" [⟨gatedOuter, [bang]⟩, swap]

def eagerScheduler : Scheduler where
  config := { maxCycles := 4, minCycles := 4, parallelThreshold := 0 }
  order := { arrange := fun _ _ positions => positions.reverse
             perm := fun _ _ positions => positions.reverse_perm }

theorem functional_growing : ∀ stage ∈ growing.stages, stage.Functional .record := by
  intro stage hs
  have hl : stage = growing.stage ∨ stage = gatedOuter ∨ stage = bang.stage ∨
      stage = swap.stage := by
    simpa [growing, Recipe.composite, Recipe.stages, Recipe.stagesOf, bang, swap] using hs
  rcases hl with rfl | rfl | rfl | rfl
  all_goals
    constructor
    case toEach =>
      constructor
      case gate => rintro test ⟨⟩ <;> exact functional_rewriting _ _
      case sourceTest => rintro test ⟨⟩
      case visitor => rintro factory ⟨⟩ <;> exact functional_rewriting _ _
    case perSource => rfl
    case repeats => decide

theorem growing_run_is_stable :
    ∃ run d, (scheduler.run growing batch).perform .record start = (.ok run, d) ∧
      run.cycles = 3 ∧
      ∃ run' d', (eagerScheduler.run growing batch).perform .record start = (.ok run', d') ∧
        run'.results = run.results ∧ run'.batch = run.batch := by
  have hr : ((scheduler.run growing batch).perform .record start).1.toOption.map
      RecipeRun.cycles = some 3 := by
    decide +kernel
  obtain ⟨run, d, h, hn⟩ := Attempt.exists_ok hr
  have hlt : run.cycles < scheduler.config.maxCycles := by
    rw [hn]
    decide
  have hle : run.cycles ≤ eagerScheduler.config.maxCycles := by
    rw [hn]
    decide
  exact ⟨run, d, h, hn, Scheduler.settled_run_is_stable ErrorHook.swallows_record
    functional_growing h rfl hlt eagerScheduler rfl hle rfl⟩

end Sample

end Codemod
