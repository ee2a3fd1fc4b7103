import Codemod.Proofs.Rounds
import Mathlib.Data.List.Induction

namespace Codemod

namespace Provenance

theorem record_record (p : Provenance) (path : RecipePath) :
    (p.record path).record path = p.record path := by
  by_cases hp : path = []
  · rw [hp]
    rfl
  · exact record_of_mem (mem_paths_record.mpr (Or.inr ⟨rfl, hp⟩))

theorem record_eraseDups (paths : List RecipePath) {path : RecipePath} (hp : path ≠ []) :
    (Provenance.mk paths.eraseDups).record path = ⟨(paths ++ [path]).eraseDups⟩ := by
  by_cases hm : path ∈ paths
  · have hr : [path].removeAll paths = [] := by simp [List.removeAll, hm]
    have hd : path ∈ paths.eraseDups := List.mem_eraseDups.mpr hm
    rw [record_of_mem (p := ⟨paths.eraseDups⟩) hd, List.eraseDups_append, hr]
    simp
  · have hr : [path].removeAll paths = [path] := by simp [List.removeAll, hm]
    have ha : (Provenance.mk paths.eraseDups).admits path = true :=
      admits_iff.mpr ⟨hp, fun h => hm (List.mem_eraseDups.mp h)⟩
    rw [record, if_pos ha, List.eraseDups_append, hr]
    simp [List.eraseDups_cons]

end Provenance

namespace Ledger
variable {ω S : Type} [Source S]

theorem get?_recordAll (l : Ledger) (ids : List TreeId) (path : RecipePath) (id : TreeId) :
    (l.recordAll ids path).get? id =
      if id ∈ ids then some ((l.provenance id).record path) else l.get? id := by
  induction ids generalizing l with
  | nil => rfl
  | cons i ids ih =>
    have hl : l.recordAll (i :: ids) path = (l.record i path).recordAll ids path := rfl
    rw [hl, ih, provenance_record, get?_record]
    by_cases hi : id = i <;> by_cases hm : id ∈ ids <;>
      simp [hi, hm, Provenance.record_record]

theorem get?_recordDiff_between (l : Ledger) {before after : List S} (path : RecipePath)
    (ha : Source.Distinct after) (id : TreeId) :
    (l.recordDiff (.between before after) path).get? id =
      if Source.Changed before after id then some ((l.provenance id).record path)
      else l.get? id := by
  rw [recordDiff, get?_recordAll]
  exact if_congr (Diff.mem_touched_iff ha) rfl rfl

theorem get?_recordDiff (l : Ledger) {a : Application ω S} (ha : a.Distinct) (id : TreeId) :
    (l.recordDiff a.diff a.path).get? id =
      if a.Changes id then some ((l.provenance id).record a.path) else l.get? id :=
  get?_recordDiff_between l a.path ha.after id

end Ledger

def changingPaths {ω S : Type} [Source S] (log : List (Application ω S)) (id : TreeId) :
    List RecipePath :=
  ((log.filter fun a => a.Changes id).map Application.path).eraseDups

section
variable {ω S : Type} [Source S] {log : List (Application ω S)} {id : TreeId}

theorem mem_changingPaths_iff {path : RecipePath} :
    path ∈ changingPaths log id ↔ ∃ a ∈ log, a.Changes id ∧ a.path = path := by
  simp [changingPaths, List.mem_eraseDups, and_assoc]

theorem changingPaths_eq_nil_iff : changingPaths log id = [] ↔ ∀ a ∈ log, ¬ a.Changes id := by
  rw [List.eq_nil_iff_forall_not_mem]
  constructor
  · intro h a ha hc
    exact h a.path (mem_changingPaths_iff.mpr ⟨a, ha, hc, rfl⟩)
  · intro h path hp
    obtain ⟨a, ha, hc, -⟩ := mem_changingPaths_iff.mp hp
    exact h a ha hc

theorem changingPaths_append_of_not {a : Application ω S} (hc : ¬ a.Changes id) :
    changingPaths (log ++ [a]) id = changingPaths log id := by
  simp [changingPaths, hc]

theorem record_changingPaths {a : Application ω S} (hc : a.Changes id) (hp : a.path ≠ []) :
    (Provenance.mk (changingPaths log id)).record a.path =
      ⟨changingPaths (log ++ [a]) id⟩ := by
  rw [changingPaths, Provenance.record_eraseDups _ hp]
  simp [changingPaths, hc]

theorem Ledger.provenance_eq {l : Ledger} {paths : List RecipePath}
    (h : l.get? id = if paths = [] then none else some ⟨paths⟩) : l.provenance id = ⟨paths⟩ := by
  rw [provenance, h]
  split
  case isTrue he =>
    rw [he]
    rfl
  case isFalse => rfl

theorem Ledger.get?_replay (hd : ∀ a ∈ log, a.Distinct) (hp : ∀ a ∈ log, a.path ≠ []) :
    (Ledger.empty.replay log).get? id =
      if changingPaths log id = [] then none else some ⟨changingPaths log id⟩ := by
  induction log using List.reverseRecOn with
  | nil => rfl
  | append_singleton log a ih =>
    have hi := ih (fun b hb => hd b (by simp [hb])) (fun b hb => hp b (by simp [hb]))
    have ha : a ∈ log ++ [a] := by simp
    have hr : Ledger.empty.replay (log ++ [a]) =
        (Ledger.empty.replay log).recordDiff a.diff a.path := by simp [Ledger.replay]
    rw [hr, get?_recordDiff _ (hd a ha)]
    -- The last application counts only where it changed the source; its path may be known by then.
    by_cases hc : a.Changes id
    · have hn : changingPaths (log ++ [a]) id ≠ [] :=
        fun h => changingPaths_eq_nil_iff.mp h a ha hc
      rw [if_pos hc, if_neg hn, Ledger.provenance_eq hi, record_changingPaths hc (hp a ha)]
    · rw [if_neg hc, changingPaths_append_of_not hc, hi]

theorem Ledger.paths_replay (hd : ∀ a ∈ log, a.Distinct) (hp : ∀ a ∈ log, a.path ≠ []) :
    ((Ledger.empty.replay log).provenance id).paths = changingPaths log id := by
  rw [Ledger.provenance_eq (get?_replay hd hp)]

theorem Ledger.contains_iff {l : Ledger} : l.contains id = true ↔ l.get? id ≠ none := by
  rw [contains, Table.contains, Option.isSome_iff_ne_none]
  rfl

theorem Ledger.contains_replay_iff (hd : ∀ a ∈ log, a.Distinct) (hp : ∀ a ∈ log, a.path ≠ []) :
    (Ledger.empty.replay log).contains id = true ↔ ∃ a ∈ log, a.Changes id := by
  rw [contains_iff, get?_replay hd hp]
  split
  case isTrue h =>
    have hn := changingPaths_eq_nil_iff.mp h
    simpa using hn
  case isFalse h =>
    have hn : ¬ ∀ a ∈ log, ¬ a.Changes id := fun hn => h (changingPaths_eq_nil_iff.mpr hn)
    simpa using hn

end

namespace Scheduler
variable {ω S : Type} [Source S] {σ : Scheduler} {hook : ErrorHook ω} {recipe : Recipe ω S}
variable {batch : List S} {c d : Context ω} {run : RecipeRun S}

theorem Completes.path_ne_nil {rounds : List (Round ω S)} {f : Flight S}
    (h : Completes σ hook recipe batch c rounds f d) :
    ∀ a ∈ Round.applied rounds, a.path ≠ [] :=
  fun a ha => (h.to_rounds.located a ha).path_ne_nil

theorem ledger_of_changing_paths (h : (σ.run recipe batch).perform hook c = (.ok run, d)) :
    ∃ rounds f, Completes σ hook recipe batch c rounds f d ∧
      run = Report.ofRun batch f.batch f.ledger f.cycles ∧
      ∀ id, (f.ledger.provenance id).paths = changingPaths (Round.applied rounds) id ∧
        (f.ledger.contains id = true ↔ ∃ a ∈ Round.applied rounds, a.Changes id) ∧
        ∀ path ∈ (f.ledger.provenance id).paths, ∃ a ∈ Round.applied rounds,
          a.path = path ∧ Recipe.At 0 [recipe] path a.stage ∧ ∃ cycle, a.Performed σ hook cycle := by
  obtain ⟨rounds, f, hf, hr⟩ := run_eq_ok_iff.mp h
  refine ⟨rounds, f, hf, hr, fun id => ?_⟩
  have hp : (f.ledger.provenance id).paths = changingPaths (Round.applied rounds) id := by
    rw [hf.ledger_eq]
    exact Ledger.paths_replay hf.distinct hf.path_ne_nil
  refine ⟨hp, ?_, fun path hm => ?_⟩
  · rw [hf.ledger_eq]
    exact Ledger.contains_replay_iff hf.distinct hf.path_ne_nil
  · obtain ⟨a, ha, -, rfl⟩ := mem_changingPaths_iff.mp (hp ▸ hm)
    exact ⟨a, ha, rfl, hf.to_rounds.located a ha, hf.to_rounds.performed a ha⟩

end Scheduler

-- The second source is swapped in the first cycle, which gives the nested recipe its turn in the
-- second one; the third is never touched.
theorem Sample.ledger_of_run :
    outcome = (.ok run, outcome.2) ∧
    ∃ rounds f, Scheduler.Completes scheduler .record recipe batch start rounds f outcome.2 ∧
      run = Report.ofRun batch f.batch f.ledger f.cycles ∧
      (f.ledger.provenance ⟨2⟩).paths = [[⟨0, "root", "root"⟩, ⟨1, "swap", "swap"⟩],
        [⟨0, "root", "root"⟩, ⟨0, "outer", "Outer"⟩, ⟨0, "bang", "bang"⟩]] ∧
      changingPaths (Round.applied rounds) ⟨2⟩ = (f.ledger.provenance ⟨2⟩).paths ∧
      f.ledger.contains ⟨3⟩ = false ∧ ∀ a ∈ Round.applied rounds, ¬ a.Changes ⟨3⟩ := by
  obtain ⟨rounds, f, hf, hr, hl⟩ := Scheduler.ledger_of_changing_paths outcome_eq
  have he : ((scheduler.cycles recipe scheduler.config.maxCycles ⟨batch, {}, 0⟩).perform .record
      start).1.toOption.map (fun f => ((f.ledger.provenance ⟨2⟩).paths, f.ledger.contains ⟨3⟩)) =
        some ([[⟨0, "root", "root"⟩, ⟨1, "swap", "swap"⟩],
          [⟨0, "root", "root"⟩, ⟨0, "outer", "Outer"⟩, ⟨0, "bang", "bang"⟩]], false) := by
    decide +kernel
  rw [hf.flown.perform_cycles] at he
  obtain ⟨hp, hc⟩ := Prod.mk.inj (Option.some.inj he)
  refine ⟨outcome_eq, rounds, f, hf, hr, hp, (hl _).1.symm, hc, fun a ha hch => ?_⟩
  exact absurd (((hl _).2.1.mpr ⟨a, ha, hch⟩).symm.trans hc) (by simp)

end Codemod
