import Codemod.Proofs.Stamping

namespace Codemod

theorem Markers.withProvenance_withoutProvenance (m : Markers) (p : Provenance) :
    m.withoutProvenance.withProvenance p = m.withProvenance p := by
  rw [withProvenance, withoutProvenance_withoutProvenance]
  rfl

namespace Source
variable {S : Type} [Source S] {s t : S} {p : Provenance}

theorem stamp_unstamp (s : S) (p : Provenance) : stamp (unstamp s) p = stamp s p := by
  simp only [stamp, unstamp, markers_withMarkers, withMarkers_withMarkers,
    Markers.withProvenance_withoutProvenance]

theorem stamp_eq_stamp_iff : stamp s p = stamp t p ↔ unstamp s = unstamp t := by
  constructor
  · intro h
    rw [← unstamp_stamp s p, h, unstamp_stamp]
  · intro h
    rw [← stamp_unstamp s p, h, stamp_unstamp]

theorem stamp_eq_self_iff : stamp t p = t ↔ markers t = (markers t).withProvenance p := by
  constructor
  · intro h
    have hm := congrArg markers h
    rw [stamp, markers_withMarkers] at hm
    exact hm.symm
  · intro h
    rw [stamp, ← h, withMarkers_markers]

theorem stamp_eq_iff :
    stamp s p = t ↔ unstamp s = unstamp t ∧ markers t = (markers t).withProvenance p := by
  constructor
  · intro h
    have hu : unstamp s = unstamp t := by rw [← h, unstamp_stamp]
    have ht : stamp t p = t := by rw [← h, stamp_stamp]
    exact ⟨hu, stamp_eq_self_iff.mp ht⟩
  · rintro ⟨hu, hm⟩
    rw [stamp_eq_stamp_iff.mpr hu]
    exact stamp_eq_self_iff.mpr hm

end Source

namespace Scheduler
variable {ω S : Type} [Source S] {σ : Scheduler} {hook : ErrorHook ω} {recipe : Recipe ω S}
variable {batch : List S} {c d : Context ω} {run : RecipeRun S}

-- A source counts as changed by what the recipes left of it, before the run stamps it. So one that
-- came in stamped with this very provenance, and lost no more than that, is stamped back into
-- what it was.
theorem modified_differs_iff (h : (σ.run recipe batch).perform hook c = (.ok run, d)) :
    ∃ rounds f, Completes σ hook recipe batch c rounds f d ∧
      run = Report.ofRun batch f.batch f.ledger f.cycles ∧
      ∀ r ∈ run.results, ∀ before after, r.before = some before → r.after = some after →
        ∃ s ∈ f.batch, Tree.id s = Tree.id before ∧ s ≠ before ∧
          (after ≠ before ↔
            Source.unstamp s ≠ Source.unstamp before ∨
            Source.markers before ≠ (Source.markers before).withProvenance
              ⟨changingPaths (Round.applied rounds) (Tree.id before)⟩) := by
  obtain ⟨rounds, f, hf, rfl⟩ := run_eq_ok_iff.mp h
  refine ⟨rounds, f, hf, rfl, fun r hr before after hb ha => ?_⟩
  obtain ⟨id, hc, -, rfl⟩ := (Report.mem_results_iff hf.distinct_input hf.distinct_output).mp hr
  obtain rfl := Source.id_of_find? hb
  obtain ⟨s, hs, rfl⟩ := Option.map_eq_some_iff.mp ha
  have hm : s ∈ f.batch := List.mem_of_find?_eq_some hs
  have hid : Tree.id s = Tree.id before := Source.id_of_find? hs
  have hne : s ≠ before := by
    intro he
    rw [he] at hs
    exact hc (hb.trans hs.symm)
  have hstamp : Report.stamped batch f.ledger s =
      Source.stamp s ⟨changingPaths (Round.applied rounds) (Tree.id before)⟩ := by
    rw [← hid] at hc ⊢
    rw [Report.stamped_of_changed hf.distinct_output hm hc (hf.get?_ledger hc).1, hf.provenance_eq]
  refine ⟨s, hm, hid, hne, ?_⟩
  rw [hstamp, Ne, Source.stamp_eq_iff, not_and_or]

end Scheduler

namespace Sample

def strip : Recipe Unit PlainText :=
  ⟨{ name := "strip"
     visitor := some (pure {
       accepts := fun _ => pure true
       visit := fun t => pure (.ok (some { t with markers := {} })) } :
       Action Unit (SourceVisitor Unit PlainText)) }, []⟩

-- The first source is as an earlier run of the same recipe hands it back.
def handedBack : List PlainText :=
  [Source.stamp (text 1 "x") ⟨[[⟨0, "strip", "strip"⟩]]⟩, Source.stamp (text 2 "y") foreign]

theorem stripped_source_modified_to_itself :
    ∃ run d, (scheduler.run strip handedBack).perform .record start = (.ok run, d) ∧
      ∃ r ∈ run.results, r.isModified = true ∧ r.before = r.after := by
  have hr : ((scheduler.run strip handedBack).perform .record start).1.toOption.map
      (fun run => run.results.any fun r => r.isModified && r.before = r.after) = some true := by
    decide +kernel
  obtain ⟨run, d, h, hm⟩ := Attempt.exists_ok hr
  obtain ⟨r, hr, he⟩ := List.any_eq_true.mp hm
  exact ⟨run, d, h, r, hr, by simpa using he⟩

theorem modified_differs_in_stripping_run :
    ∃ run d, (scheduler.run strip handedBack).perform .record start = (.ok run, d) ∧
      run.results.map (fun r => decide (r.before = r.after)) = [true, false] ∧
      ∃ rounds f, Scheduler.Completes scheduler .record strip handedBack start rounds f d ∧
        run = Report.ofRun handedBack f.batch f.ledger f.cycles ∧
        ∀ r ∈ run.results, ∀ before after, r.before = some before → r.after = some after →
          ∃ s ∈ f.batch, Tree.id s = Tree.id before ∧ s ≠ before ∧
            (after ≠ before ↔
              Source.unstamp s ≠ Source.unstamp before ∨
              Source.markers before ≠ (Source.markers before).withProvenance
                ⟨changingPaths (Round.applied rounds) (Tree.id before)⟩) := by
  have hr : ((scheduler.run strip handedBack).perform .record start).1.toOption.map
      (fun run => run.results.map fun r => decide (r.before = r.after)) = some [true, false] := by
    decide +kernel
  obtain ⟨run, d, h, hb⟩ := Attempt.exists_ok hr
  exact ⟨run, d, h, hb, Scheduler.modified_differs_iff h⟩

end Sample

end Codemod
