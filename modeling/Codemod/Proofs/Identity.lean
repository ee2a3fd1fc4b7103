import Codemod.Proofs.Independence
import Codemod.Proofs.Itinerary
import Codemod.Proofs.NetDiff

namespace Codemod

namespace Scheduler
variable {ω S : Type} [Source S] {σ : Scheduler} {hook : ErrorHook ω} {recipe : Recipe ω S}
variable {batch : List S} {c d : Context ω} {m m' : Moment ω S} {own trail : List (Invocation ω S)}
variable {run : RecipeRun S} {I : List S → Prop}

def Keeps (σ : Scheduler) (hook : ErrorHook ω) (stage : Stage ω S) (I : List S → Prop) : Prop :=
  ∀ ⦃cycle path before after c d⦄,
    (σ.transform cycle path stage before).perform hook c = (.ok after, d) → I before → I after

theorem Keeps.invocation {x : Invocation ω S} (hk : σ.Keeps hook x.stage I)
    (hx : x.Performed σ hook) (hb : I x.before) : I x.after := by
  cases ha : x.applies with
  | true => exact hk (hx.transform ha) hb
  | false =>
    rw [(hx.idle ha).1]
    exact hb

theorem Step.keeps (hs : Step σ hook recipe m own m')
    (hk : ∀ x ∈ own, σ.Keeps hook x.stage I) (hm : I m.pass.batch) : I m'.pass.batch := by
  cases hs with
  | close => exact hm
  | skip => exact hm
  | again => exact hm
  | @invoke opening path position children rs rows p x hx hp hb =>
    rw [hx.batch_replay hb]
    exact (hk x (List.mem_singleton_self x)).invocation hx (hb ▸ hm)

namespace Reaches

theorem keeps (h : Reaches σ hook recipe batch c trail m)
    (hk : ∀ stage ∈ recipe.stages, σ.Keeps hook stage I) (hb : I batch) : I m.pass.batch := by
  induction h with
  | start => exact hb
  | step h hs ih => exact hs.keeps (fun x hx => hk _ (h.mem_stages_of_step hs hx)) ih

theorem before_of_batch (hI : ∀ trail m, Reaches σ hook recipe batch c trail m → I m.pass.batch)
    (h : Reaches σ hook recipe batch c trail m) : ∀ x ∈ trail, I x.before := by
  induction h with
  | start => simp
  | step h hs ih =>
    intro x hx
    rcases List.mem_append.mp hx with hx | hx
    · exact ih x hx
    cases hs with
    | invoke _ _ hb =>
      obtain rfl := List.mem_singleton.mp hx
      exact hb ▸ hI _ _ h
    | _ => simp at hx

theorem distinct_before (h : Reaches σ hook recipe batch c trail m) :
    ∀ x ∈ trail, Source.Distinct x.before :=
  before_of_batch (fun _ _ h => h.coherent.batch) h

theorem keeps_before (h : Reaches σ hook recipe batch c trail m)
    (hk : ∀ stage ∈ recipe.stages, σ.Keeps hook stage I) (hb : I batch) :
    ∀ x ∈ trail, I x.before :=
  before_of_batch (fun _ _ h => h.keeps hk hb) h

end Reaches

namespace Completes
variable {rounds : List (Round ω S)} {f : Flight S}

theorem exists_last (h : Completes σ hook recipe batch c rounds f d) :
    f.batch = batch ∨
      ∃ trail m, Reaches σ hook recipe batch c trail m ∧ f = m.flight ∧ d = m.context := by
  have hf := cycles_eq_ok_iff.mpr ⟨rounds, h.flown⟩
  cases hc : c.cancelled with
  | true =>
    rw [cycles_cancelled hc] at hf
    obtain ⟨hf, -⟩ := Prod.mk.inj hf
    exact .inl (congrArg Flight.batch (Except.ok.inj hf)).symm
  | false =>
    obtain ⟨trail, m, hm, ho | ⟨stage, error, e, hx⟩⟩ := (Reaches.start h.accepted hc).exists_last
    · rw [hm.cycles_eq_resume, ho.resume_eq] at hf
      obtain ⟨hf, hd⟩ := Prod.mk.inj hf
      exact .inr ⟨trail, m, hm, (Except.ok.inj hf).symm, hd.symm⟩
    · rw [hm.cycles_eq_resume, hx.resume_eq] at hf
      exact absurd (Prod.mk.inj hf).1 (by simp)

theorem keeps (h : Completes σ hook recipe batch c rounds f d)
    (hk : ∀ stage ∈ recipe.stages, σ.Keeps hook stage I) (hb : I batch) : I f.batch := by
  rcases h.exists_last with hf | ⟨trail, m, hm, rfl, -⟩
  · exact hf ▸ hb
  · exact hm.keeps hk hb

end Completes

theorem keeps_ids_sublist {stage : Stage ω S} (hs : stage.batchTransform = none)
    (ids : List TreeId) :
    σ.Keeps hook stage fun batch => (Source.ids batch).Sublist ids := by
  intro cycle path before after c d h hb
  exact (ids_transform_sublist hs h).trans hb

end Scheduler

namespace Report
variable {S : Type} [Source S] {input batch : List S} {ledger : Ledger} {r : RecipeResult S}

theorem id_after_of_mem_results (hi : Source.Distinct input) (hb : Source.Distinct batch)
    (hr : r ∈ results input batch ledger) {before after : S} (hbefore : r.before = some before)
    (hafter : r.after = some after) : Tree.id after = Tree.id before := by
  obtain ⟨id, -, -, rfl⟩ := (mem_results_iff hi hb).mp hr
  obtain ⟨s, hs, rfl⟩ := Option.map_eq_some_iff.mp hafter
  rw [id_stamped, Source.id_of_find? hs, Source.id_of_find? hbefore]

theorem isGenerated_of_mem_results (hi : Source.Distinct input) (hb : Source.Distinct batch)
    (hs : (Source.ids batch).Sublist (Source.ids input)) (hr : r ∈ results input batch ledger) :
    r.isGenerated = false := by
  obtain ⟨id, hc, -, rfl⟩ := (mem_results_iff hi hb).mp hr
  cases hf : Source.find? input id with
  | some s => simp [RecipeResult.isGenerated, netEntry, entry, hf]
  | none =>
    -- An id that the input lacks is not in the batch either, so it makes no difference.
    have hn : id ∉ Source.ids batch := fun hm => Source.find?_eq_none_iff.mp hf (hs.subset hm)
    exact absurd (hf.trans (Source.find?_eq_none_iff.mpr hn).symm) hc

end Report

namespace Scheduler
variable {ω S : Type} [Source S]

theorem identities_are_kept (σ : Scheduler) (hook : ErrorHook ω) (recipe : Recipe ω S)
    (batch : List S) (c : Context ω) :
    (∀ trail m, Reaches σ hook recipe batch c trail m →
      Source.Distinct m.pass.batch ∧ ∀ x ∈ trail, Source.Distinct x.before) ∧
    (∀ run d, (σ.run recipe batch).perform hook c = (.ok run, d) → Source.Distinct run.batch) ∧
    ((∀ stage ∈ recipe.stages, stage.batchTransform = none) →
      (∀ trail m, Reaches σ hook recipe batch c trail m →
        (Source.ids m.pass.batch).Sublist (Source.ids batch)) ∧
      ∀ run d, (σ.run recipe batch).perform hook c = (.ok run, d) →
        (Source.ids run.batch).Sublist (Source.ids batch) ∧
        ∀ r ∈ run.results, r.isGenerated = false ∧
          ∀ before after, r.before = some before → r.after = some after →
            Tree.id after = Tree.id before) := by
  refine ⟨fun trail m h => ⟨h.coherent.batch, h.distinct_before⟩, ?_, fun hs => ⟨?_, ?_⟩⟩
  · intro run d h
    obtain ⟨rounds, f, hf, rfl⟩ := run_eq_ok_iff.mp h
    rw [Source.Distinct, Report.ids_ofRun]
    exact hf.distinct_output
  · intro trail m h
    exact h.keeps (fun stage hm => keeps_ids_sublist (hs stage hm) _) (List.Sublist.refl _)
  · intro run d h
    obtain ⟨rounds, f, hf, rfl⟩ := run_eq_ok_iff.mp h
    have hi := hf.distinct_input
    have hb := hf.distinct_output
    have hsub := hf.keeps (fun stage hm => keeps_ids_sublist (hs stage hm) (Source.ids batch))
      (List.Sublist.refl _)
    rw [Report.ids_ofRun]
    refine ⟨hsub, fun r hr => ⟨Report.isGenerated_of_mem_results hi hb hsub hr, ?_⟩⟩
    intro before after hbefore hafter
    exact Report.id_after_of_mem_results hi hb hr hbefore hafter

end Scheduler

namespace Sample

def sieveTrail : List (Invocation Unit PlainText) :=
  [⟨1, [⟨0, "root", "root"⟩], sieve.stage, start, start, start, true, batch ++ more, batch ++ more⟩,
    ⟨1, [⟨0, "root", "root"⟩, ⟨0, "sift", "sift"⟩], sift, start, start,
      start.recordError (.visitFailed "sift" ⟨["a"]⟩ (.failed "z")), true, batch ++ more,
      [text 2 "x!", text 3 "z", text 4 "x!", text 6 "y!"]⟩]

theorem reaches_sieveTrail :
    ∃ m, Scheduler.Reaches backwards .record sieve (batch ++ more) start sieveTrail m ∧
      m.pass.batch = [text 2 "x!", text 3 "z", text 4 "x!", text 6 "y!"] := by
  have ha : backwards.checks sieve (batch ++ more) = .ok () := by decide +kernel
  have h : Scheduler.Reaches backwards .record sieve (batch ++ more) start []
      (.start sieve ⟨batch ++ more, {}, 0⟩ start) := .start ha rfl
  have hroot : sieveTrail[0].Performed backwards .record :=
    ⟨rfl, rfl, fun h => absurd h (by decide), fun _ => ⟨rfl, rfl⟩⟩
  have hsift : sieveTrail[1].Performed backwards .record :=
    ⟨rfl, rfl, fun _ => rfl, fun h => absurd h (by decide)⟩
  exact ⟨_, (h.step (.invoke hroot rfl rfl)).step (.invoke hsift rfl rfl), rfl⟩

theorem sieved_identities_are_kept :
    ∃ run d, (backwards.run sieve (batch ++ more)).perform .record start = (.ok run, d) ∧
      Source.ids run.batch = Source.ids [text 2 "", text 3 "", text 4 "", text 6 ""] ∧
      run.results.length = 5 ∧ Source.Distinct run.batch ∧
      (Source.ids run.batch).Sublist (Source.ids (batch ++ more)) ∧
      (∀ r ∈ run.results, r.isGenerated = false) ∧
      ∃ m, Scheduler.Reaches backwards .record sieve (batch ++ more) start sieveTrail m ∧
        m.pass.batch = [text 2 "x!", text 3 "z", text 4 "x!", text 6 "y!"] ∧
        Source.Distinct m.pass.batch ∧ (∀ x ∈ sieveTrail, Source.Distinct x.before) ∧
        (Source.ids m.pass.batch).Sublist (Source.ids (batch ++ more)) := by
  have hr : ((backwards.run sieve (batch ++ more)).perform .record start).1.toOption.map
      (fun run => (Source.ids run.batch, run.results.length)) =
        some (Source.ids [text 2 "", text 3 "", text 4 "", text 6 ""], 5) := by
    decide +kernel
  obtain ⟨run, d, h, hb⟩ := Attempt.exists_ok hr
  obtain ⟨hids, hn⟩ := Prod.mk.inj hb
  have hs : ∀ stage ∈ sieve.stages, stage.batchTransform = none :=
    fun stage hs => (sourceWise_sieve stage hs).perSource
  obtain ⟨hreach, hrun, hvisits⟩ :=
    Scheduler.identities_are_kept backwards .record sieve (batch ++ more) start
  obtain ⟨hpoints, hends⟩ := hvisits hs
  obtain ⟨hsub, hg⟩ := hends run d h
  obtain ⟨m, hm, hbatch⟩ := reaches_sieveTrail
  obtain ⟨hd, hbefore⟩ := hreach _ _ hm
  exact ⟨run, d, h, hids, hn, hrun run d h, hsub, fun r hr => (hg r hr).1, m, hm, hbatch, hd,
    hbefore, hpoints _ _ hm⟩

end Sample

end Codemod
