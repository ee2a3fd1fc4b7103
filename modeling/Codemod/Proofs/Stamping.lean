import Codemod.Proofs.Attribution
import Codemod.Proofs.NetDiff

namespace Codemod

namespace Branch

def Grown (b : Branch) : Prop :=
  b.direct = true ∨ b.children ≠ []

theorem exposed_ne_nil {b : Branch} (h : b.Grown) : b.exposed ≠ [] := by
  unfold exposed
  split
  case isTrue => simp
  case isFalse hd =>
    rcases h with h | h
    · exact absurd h hd
    · rw [descriptors_eq_map]
      simpa using h

theorem mem_place {f : Frame} {grow : Branch → Branch} {b : Branch} {level : List Branch}
    (h : b ∈ place f grow level) : b ∈ level ∨ ∃ old, b = grow old := by
  induction level with
  | nil => exact Or.inr ⟨_, List.mem_singleton.mp h⟩
  | cons first rest ih =>
    unfold place at h
    split at h
    case isTrue =>
      rcases List.mem_cons.mp h with rfl | h
      · exact Or.inr ⟨_, rfl⟩
      · exact Or.inl (List.mem_cons_of_mem _ h)
    case isFalse =>
      split at h
      case isTrue =>
        rcases List.mem_cons.mp h with rfl | h
        · exact Or.inr ⟨_, rfl⟩
        · exact Or.inl h
      case isFalse =>
        rcases List.mem_cons.mp h with rfl | h
        · exact Or.inl (by simp)
        · rcases ih h with h | h
          · exact Or.inl (List.mem_cons_of_mem _ h)
          · exact Or.inr h

theorem graft_ne_nil {path : RecipePath} (h : path ≠ []) (level : List Branch) :
    graft path level ≠ [] := by
  cases path with
  | nil => exact absurd rfl h
  | cons f rest => exact place_ne_nil _ _ _

theorem grown_graft (path : RecipePath) {level : List Branch} (h : ∀ b ∈ level, b.Grown) :
    ∀ b ∈ graft path level, b.Grown := by
  intro b hb
  cases path with
  | nil => exact h b hb
  | cons f rest =>
    rcases mem_place hb with hb | ⟨old, rfl⟩
    · exact h b hb
    · cases rest with
      | nil => exact Or.inl (by simp)
      | cons g rest => exact Or.inr (graft_ne_nil (by simp) _)

end Branch

theorem forest_append_singleton (paths : List RecipePath) (path : RecipePath) :
    forest (paths ++ [path]) = Branch.graft path (forest paths) :=
  forest_append paths [path]

theorem grown_forest (paths : List RecipePath) : ∀ b ∈ forest paths, b.Grown := by
  induction paths using List.reverseRecOn with
  | nil => simp [forest]
  | append_singleton paths path ih =>
    rw [forest_append_singleton]
    exact Branch.grown_graft path ih

theorem forest_ne_nil {paths : List RecipePath} {path : RecipePath} (hm : path ∈ paths)
    (hp : path ≠ []) : forest paths ≠ [] := by
  induction paths using List.reverseRecOn with
  | nil => simp at hm
  | append_singleton paths last ih =>
    rw [forest_append_singleton]
    by_cases hl : last = []
    · have hm : path ∈ paths := by
        rcases List.mem_append.mp hm with hm | hm
        · exact hm
        · exact absurd ((List.mem_singleton.mp hm).trans hl) hp
      rw [hl]
      exact ih hm
    · exact Branch.graft_ne_nil hl _

namespace Provenance
variable {p : Provenance}

theorem descriptors_ne_nil {path : RecipePath} (hm : path ∈ p.paths) (hp : path ≠ []) :
    p.descriptors ≠ [] := by
  obtain ⟨b, hb⟩ := List.exists_mem_of_ne_nil _ (forest_ne_nil hm hp)
  obtain ⟨d, hd⟩ := List.exists_mem_of_ne_nil _ (Branch.exposed_ne_nil (grown_forest _ b hb))
  exact List.ne_nil_of_mem (List.mem_flatMap.mpr ⟨b, hb, hd⟩)

theorem recipeNames_ne_nil (h : p.descriptors ≠ []) : p.recipeNames ≠ [] := by
  obtain ⟨d, hd⟩ := List.exists_mem_of_ne_nil _ h
  obtain ⟨name, hn⟩ := List.exists_mem_of_ne_nil _ d.names_ne_nil
  have hm : name ∈ p.descriptors.flatMap Descriptor.names := List.mem_flatMap.mpr ⟨d, hd, hn⟩
  exact List.ne_nil_of_mem (List.mem_eraseDups.mpr hm)

end Provenance

namespace Markers

def provenances (m : Markers) : List Provenance :=
  m.entries.filterMap Marker.provenance?

def others (m : Markers) : List Marker :=
  m.entries.filter fun e => e.provenance?.isNone

theorem provenances_withoutProvenance (m : Markers) : m.withoutProvenance.provenances = [] := by
  simp only [provenances, withoutProvenance, List.filterMap_eq_nil_iff, List.mem_filter]
  rintro e ⟨-, h⟩
  simpa using h

theorem provenances_withProvenance (m : Markers) (p : Provenance) :
    (m.withProvenance p).provenances = [p] := by
  have h := provenances_withoutProvenance m
  simp only [provenances] at h
  simp [provenances, withProvenance, append, h, Marker.provenance?]

theorem others_withoutProvenance (m : Markers) : m.withoutProvenance.others = m.others := by
  simp [others, withoutProvenance]

theorem others_withProvenance (m : Markers) (p : Provenance) :
    (m.withProvenance p).others = m.others := by
  simp [others, withProvenance, withoutProvenance, append, Marker.provenance?]

end Markers

namespace Scheduler
variable {ω S : Type} [Source S] {σ : Scheduler} {hook : ErrorHook ω} {recipe : Recipe ω S}
variable {c d : Context ω} {batch after : List S} {id : TreeId}

theorem Walk.find?_eq {cycle position : Nat} {path : RecipePath} {rs : List (Recipe ω S)}
    {log : List (Application ω S)} (h : Walk σ hook cycle path position rs batch c log after d)
    (hu : ∀ a ∈ log, ¬ a.Changes id) : Source.find? batch id = Source.find? after id := by
  induction h with
  | nil => rfl
  | cancelled _ _ ih => exact ih hu
  | refused _ _ _ ih => exact ih hu
  | composite _ _ _ _ _ ihi ihr =>
    have hi := ihi fun a ha => hu a (List.mem_append_left _ ha)
    have hr := ihr fun a ha => hu a (List.mem_append_right _ ha)
    exact hi.trans hr
  | @applied _ _ _ _ _ _ _ _ _ _ a _ _ _ _ ihi ihr =>
    have ha : Source.find? a.before id = Source.find? a.after id :=
      Decidable.not_not.mp (hu a (by simp))
    have hi := ihi fun b hb => hu b (by simp [hb])
    have hr := ihr fun b hb => hu b (by simp [hb])
    exact ha.trans (hi.trans hr)

theorem Rounds.find?_eq {n : Nat} {rounds : List (Round ω S)}
    (h : Rounds σ hook recipe n batch c rounds after d)
    (hu : ∀ a ∈ Round.applied rounds, ¬ a.Changes id) :
    Source.find? batch id = Source.find? after id := by
  induction h with
  | nil => rfl
  | cons hw _ ih =>
    have hh := hw.find?_eq fun a ha => hu a (Round.mem_applied_cons.mpr (Or.inl ha))
    have ht := ih fun a ha => hu a (Round.mem_applied_cons.mpr (Or.inr ha))
    exact hh.trans ht

namespace Completes
variable {rounds : List (Round ω S)} {f : Flight S}

theorem exists_changes (h : Completes σ hook recipe batch c rounds f d)
    (hc : Source.Changed batch f.batch id) : ∃ a ∈ Round.applied rounds, a.Changes id := by
  by_contra hn
  have hu : ∀ a ∈ Round.applied rounds, ¬ a.Changes id := fun a ha h => hn ⟨a, ha, h⟩
  exact hc (h.to_rounds.find?_eq hu)

theorem provenance_eq (h : Completes σ hook recipe batch c rounds f d) (id : TreeId) :
    f.ledger.provenance id = ⟨changingPaths (Round.applied rounds) id⟩ := by
  rw [h.ledger_eq]
  exact Ledger.provenance_eq (Ledger.get?_replay h.distinct h.path_ne_nil)

theorem get?_ledger (h : Completes σ hook recipe batch c rounds f d)
    (hc : Source.Changed batch f.batch id) :
    f.ledger.get? id = some (f.ledger.provenance id) ∧ (f.ledger.provenance id).descriptors ≠ [] := by
  obtain ⟨a, ha, hac⟩ := h.exists_changes hc
  have hm : a.path ∈ changingPaths (Round.applied rounds) id :=
    mem_changingPaths_iff.mpr ⟨a, ha, hac, rfl⟩
  rw [h.provenance_eq]
  refine ⟨?_, Provenance.descriptors_ne_nil hm (h.path_ne_nil a ha)⟩
  rw [h.ledger_eq, Ledger.get?_replay h.distinct h.path_ne_nil, if_neg (List.ne_nil_of_mem hm)]

end Completes

end Scheduler

namespace Report
variable {S : Type} [Source S] {input batch : List S} {ledger : Ledger} {s : S}

theorem stamped_of_changed (hb : Source.Distinct batch) (hs : s ∈ batch)
    (hc : Source.Changed input batch (Tree.id s)) {p : Provenance}
    (hp : ledger.get? (Tree.id s) = some p) : stamped input ledger s = Source.stamp s p := by
  have hn : ¬ isSettled input s = true := fun h => (isSettled_iff hb hs).mp h hc
  rw [stamped, if_neg hn, hp]

theorem stamped_of_not_changed (hb : Source.Distinct batch) (hs : s ∈ batch)
    (hc : ¬ Source.Changed input batch (Tree.id s)) :
    stamped input ledger s = Source.unstamp s := by
  rw [stamped, if_pos ((isSettled_iff hb hs).mpr hc)]

theorem others_stamped (s : S) :
    (Source.markers (stamped input ledger s)).others = (Source.markers s).others := by
  unfold stamped
  split
  · rw [Source.unstamp, Source.markers_withMarkers, Markers.others_withoutProvenance]
  · split
    · rw [Source.stamp, Source.markers_withMarkers, Markers.others_withProvenance]
    · rfl

theorem find?_map_stamped {id : TreeId} :
    Source.find? (batch.map (stamped input ledger)) id =
      (Source.find? batch id).map (stamped input ledger) :=
  Source.find?_map (id_stamped input ledger) batch id

end Report

/-- A run names recipes for whatever it reports, and a source that it hands back says the same of
itself: it carries the provenance of its report alone, or none where it is not reported. -/
structure RecipeRun.IsAttributed {S : Type} [Source S] (run : RecipeRun S) (batch : List S) :
    Prop where
  credited {r : RecipeResult S} (hr : r ∈ run.results) : r.descriptors ≠ [] ∧ r.recipeNames ≠ []
  handed_back {r : RecipeResult S} {s : S} (hr : r ∈ run.results) (h : r.after = some s) :
    Source.find? run.batch (Tree.id s) = some s
  stamped {r : RecipeResult S} {s : S} (hr : r ∈ run.results) (h : r.after = some s) :
    ∃ p, (Source.markers s).provenances = [p] ∧ p.descriptors = r.descriptors ∧
      p.recipeNames = r.recipeNames
  bare {s : S} (hs : s ∈ run.batch) (h : ∀ r ∈ run.results, r.id? ≠ some (Tree.id s)) :
    (Source.markers s).provenances = []
  ids_eq : Source.ids run.batch = Source.ids batch
  others_eq : run.batch.map (fun s => (Source.markers s).others) =
    batch.map fun s => (Source.markers s).others

section
variable {S : Type} [Source S] {input batch : List S} {ledger : Ledger}

theorem Report.isAttributed (hi : Source.Distinct input) (hb : Source.Distinct batch)
    (hl : ∀ id, Source.Changed input batch id →
      ledger.get? id = some (ledger.provenance id) ∧ (ledger.provenance id).descriptors ≠ [])
    (cycles : Nat) : (ofRun input batch ledger cycles).IsAttributed batch := by
  have hstamp : ∀ {r : RecipeResult S} {s : S}, r ∈ results input batch ledger →
      r.after = some s → ∃ t ∈ batch, Source.Changed input batch (Tree.id t) ∧
        s = Source.stamp t (ledger.provenance (Tree.id t)) ∧
        r = netEntry input batch ledger (Tree.id t) := by
    intro r s hr hs
    obtain ⟨id, hc, -, rfl⟩ := (mem_results_iff hi hb).mp hr
    obtain ⟨t, ht, rfl⟩ := Option.map_eq_some_iff.mp hs
    have hm : t ∈ batch := List.mem_of_find?_eq_some ht
    obtain rfl := Source.id_of_find? ht
    exact ⟨t, hm, hc, stamped_of_changed hb hm hc (hl _ hc).1, rfl⟩
  constructor
  case credited =>
    intro r hr
    obtain ⟨id, hc, -, rfl⟩ := (mem_results_iff hi hb).mp hr
    have hd := (hl id hc).2
    exact ⟨hd, Provenance.recipeNames_ne_nil hd⟩
  case handed_back =>
    intro r s hr hs
    obtain ⟨t, ht, hc, rfl, -⟩ := hstamp hr hs
    have hf : Source.find? batch (Tree.id t) = some t := Source.find?_of_mem hb ht
    rw [Source.id_stamp]
    refine find?_map_stamped.trans ?_
    rw [hf, Option.map_some, stamped_of_changed hb ht hc (hl _ hc).1]
  case stamped =>
    intro r s hr hs
    obtain ⟨t, -, -, rfl, rfl⟩ := hstamp hr hs
    refine ⟨ledger.provenance (Tree.id t), ?_, rfl, rfl⟩
    rw [Source.stamp, Source.markers_withMarkers, Markers.provenances_withProvenance]
  case bare =>
    intro s hs hn
    obtain ⟨t, ht, rfl⟩ := List.mem_map.mp hs
    have hc : ¬ Source.Changed input batch (Tree.id t) := by
      intro hc
      have hr : netEntry input batch ledger (Tree.id t) ∈ results input batch ledger :=
        (mem_results_iff hi hb).mpr ⟨_, hc, id?_netEntry hc, rfl⟩
      exact hn _ hr ((id?_netEntry hc).trans (congrArg some (id_stamped _ _ t).symm))
    rw [stamped_of_not_changed hb ht hc, Source.unstamp, Source.markers_withMarkers,
      Markers.provenances_withoutProvenance]
  case ids_eq => exact ids_ofRun _ _ _ _
  case others_eq => simp [ofRun, Function.comp_def, others_stamped]

end

namespace Scheduler
variable {ω S : Type} [Source S] {σ : Scheduler} {hook : ErrorHook ω} {recipe : Recipe ω S}
variable {batch : List S} {c d : Context ω} {run : RecipeRun S}

theorem reports_are_attributed (h : (σ.run recipe batch).perform hook c = (.ok run, d)) :
    ∃ rounds f, Completes σ hook recipe batch c rounds f d ∧
      run = Report.ofRun batch f.batch f.ledger f.cycles ∧ run.IsAttributed f.batch := by
  obtain ⟨rounds, f, hf, rfl⟩ := run_eq_ok_iff.mp h
  refine ⟨rounds, f, hf, rfl, ?_⟩
  exact Report.isAttributed hf.distinct_input hf.distinct_output (fun _ => hf.get?_ledger) _

end Scheduler

namespace Sample

def marked (provenances : List Provenance) (t : PlainText) : PlainText :=
  { t with
    markers := ⟨provenances.map .recipesThatMadeChanges ++ [.searchResult none] ++ t.markers.entries⟩ }

def foreign : Provenance :=
  ⟨[[⟨0, "elsewhere", "elsewhere"⟩]]⟩

-- Both come in with two foreign provenances, and only the first one is changed.
def stale : List PlainText :=
  [text 2 "x", text 3 "z"].map (marked [foreign, foreign])

theorem reports_of_stale_sources :
    ∃ run d, (scheduler.run recipe stale).perform .record start = (.ok run, d) ∧
      run.batch.map (fun t => t.markers.provenances.length) = [1, 0] ∧
      ∃ rounds f, Scheduler.Completes scheduler .record recipe stale start rounds f d ∧
        run = Report.ofRun stale f.batch f.ledger f.cycles ∧ run.IsAttributed f.batch := by
  have hr : ((scheduler.run recipe stale).perform .record start).1.toOption.map
      (fun run => run.batch.map fun t => t.markers.provenances.length) = some [1, 0] := by
    decide +kernel
  obtain ⟨run, d, h, hb⟩ := Attempt.exists_ok hr
  exact ⟨run, d, h, hb, Scheduler.reports_are_attributed h⟩

end Sample

end Codemod
