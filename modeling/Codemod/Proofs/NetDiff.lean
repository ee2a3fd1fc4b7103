import Codemod.Proofs.Rounds
import Mathlib.Data.List.Count
import Mathlib.Data.List.Nodup

namespace Codemod

def RecipeResult.id? {S : Type} [Source S] (r : RecipeResult S) : Option TreeId :=
  (r.after <|> r.before).map Tree.id

namespace Source
variable {S : Type} [Source S]

def netChanged (input batch : List S) : List TreeId :=
  (ids batch).filter (fun id => Changed input batch id) ++
    (ids input).filter fun id => id ∉ ids batch

variable {input batch : List S} {id : TreeId}

theorem mem_netChanged_iff : id ∈ netChanged input batch ↔ Changed input batch id := by
  simp only [netChanged, List.mem_append, List.mem_filter, decide_eq_true_eq]
  constructor
  · rintro (⟨-, h⟩ | ⟨hi, hb⟩)
    · exact h
    · exact changed_of_deleted hi hb
  · intro h
    by_cases hb : id ∈ ids batch
    · exact Or.inl ⟨hb, h⟩
    · refine Or.inr ⟨?_, hb⟩
      by_contra hi
      exact h ((find?_eq_none_iff.mpr hi).trans (find?_eq_none_iff.mpr hb).symm)

theorem nodup_netChanged (hi : Distinct input) (hb : Distinct batch) :
    (netChanged input batch).Nodup := by
  refine List.Nodup.append (hb.filter _) (hi.filter _) ?_
  intro id hc hd
  have hm : id ∈ ids batch := (List.mem_filter.mp hc).1
  have hn : id ∉ ids batch := by simpa using (List.mem_filter.mp hd).2
  exact hn hm

theorem unstamp_unstamp (s : S) : unstamp (unstamp s) = unstamp s := by
  simp only [unstamp, markers_withMarkers, withMarkers_withMarkers,
    Markers.withoutProvenance_withoutProvenance]

end Source

namespace Report
variable {S : Type} [Source S] {input batch : List S} {ledger : Ledger} {id : TreeId}

theorem unstamp_stamped (s : S) : Source.unstamp (stamped input ledger s) = Source.unstamp s := by
  unfold stamped
  split
  · exact Source.unstamp_unstamp s
  · split
    · exact Source.unstamp_stamp s _
    · rfl

def netEntry (input batch : List S) (ledger : Ledger) (id : TreeId) : RecipeResult S :=
  entry ledger id (Source.find? input id) ((Source.find? batch id).map (stamped input ledger))

theorem isSettled_iff (hb : Source.Distinct batch) {s : S} (hs : s ∈ batch) :
    isSettled input s = true ↔ ¬ Source.Changed input batch (Tree.id s) := by
  rw [Source.Changed, Source.find?_of_mem hb hs]
  simp [isSettled]

theorem survivor?_eq (hb : Source.Distinct batch) {s : S} (hs : s ∈ batch) :
    survivor? input ledger s =
      if Source.Changed input batch (Tree.id s) then
        some (netEntry input batch ledger (Tree.id s))
      else none := by
  have hf : Source.find? batch (Tree.id s) = some s := Source.find?_of_mem hb hs
  by_cases hc : Source.Changed input batch (Tree.id s)
  · have hn : ¬ isSettled input s = true := fun h => (isSettled_iff hb hs).mp h hc
    rw [survivor?, if_neg hn, if_pos hc, netEntry, hf]
    rfl
  · rw [survivor?, if_pos ((isSettled_iff hb hs).mpr hc), if_neg hc]

theorem lost?_eq (hi : Source.Distinct input) {s : S} (hs : s ∈ input) :
    lost? batch ledger s =
      if Tree.id s ∉ Source.ids batch then some (netEntry input batch ledger (Tree.id s))
      else none := by
  have hf : Source.find? input (Tree.id s) = some s := Source.find?_of_mem hi hs
  by_cases hm : Tree.id s ∈ Source.ids batch
  · rw [lost?, if_pos (Source.contains_iff.mpr hm), if_neg (not_not_intro hm)]
  · have hb : Source.find? batch (Tree.id s) = none := Source.find?_eq_none_iff.mpr hm
    rw [lost?, if_neg (mt Source.contains_iff.mp hm), if_pos hm, netEntry, hf, hb]
    rfl

theorem filterMap_guard {β : Type} (p : TreeId → Prop) [DecidablePred p] (g : TreeId → β)
    (l : List S) :
    l.filterMap (fun s => if p (Tree.id s) then some (g (Tree.id s)) else none) =
      ((Source.ids l).filter fun id => p id).map g := by
  induction l with
  | nil => rfl
  | cons s l ih =>
    by_cases hp : p (Tree.id s)
    · simp [Source.ids_cons, hp, ih]
    · simp [Source.ids_cons, hp, ih]

theorem results_eq (hi : Source.Distinct input) (hb : Source.Distinct batch) :
    results input batch ledger =
      (Source.netChanged input batch).map (netEntry input batch ledger) := by
  rw [results, Source.netChanged, List.map_append, ← filterMap_guard, ← filterMap_guard]
  congr 1
  · exact List.filterMap_congr fun s hs => survivor?_eq hb hs
  · exact List.filterMap_congr fun s hs => lost?_eq hi hs

theorem id?_netEntry (h : Source.Changed input batch id) :
    (netEntry input batch ledger id).id? = some id := by
  unfold netEntry entry RecipeResult.id?
  cases hb : Source.find? batch id with
  | some s => simp [id_stamped, Source.id_of_find? hb]
  | none =>
    cases hi : Source.find? input id with
    | some s => simp [Source.id_of_find? hi]
    | none => exact absurd (hi.trans hb.symm) h

theorem id?_results (hi : Source.Distinct input) (hb : Source.Distinct batch) :
    (results input batch ledger).map RecipeResult.id? =
      (Source.netChanged input batch).map some := by
  rw [results_eq hi hb, List.map_map]
  refine List.map_congr_left fun id hm => ?_
  exact id?_netEntry (Source.mem_netChanged_iff.mp hm)

theorem mem_results_iff (hi : Source.Distinct input) (hb : Source.Distinct batch)
    {r : RecipeResult S} :
    r ∈ results input batch ledger ↔
      ∃ id, Source.Changed input batch id ∧ r.id? = some id ∧
        r = netEntry input batch ledger id := by
  rw [results_eq hi hb, List.mem_map]
  constructor
  · rintro ⟨id, hm, rfl⟩
    have hc := Source.mem_netChanged_iff.mp hm
    exact ⟨id, hc, id?_netEntry hc, rfl⟩
  · rintro ⟨id, hc, -, rfl⟩
    exact ⟨id, Source.mem_netChanged_iff.mpr hc, rfl⟩

end Report

/-- A run reports the difference of two batches and hands the second one back, both up to the
provenance it leaves on the sources. -/
structure RecipeRun.IsNetDiff {S : Type} [Source S] (run : RecipeRun S) (input batch : List S) :
    Prop where
  order : run.results.map RecipeResult.id? = (Source.netChanged input batch).map some
  once (id : TreeId) : (run.results.map RecipeResult.id?).count (some id) =
    if Source.Changed input batch id then 1 else 0
  before_eq {r : RecipeResult S} {id : TreeId} (hr : r ∈ run.results) (h : r.id? = some id) :
    r.before = Source.find? input id
  after_eq {r : RecipeResult S} {id : TreeId} (hr : r ∈ run.results) (h : r.id? = some id) :
    r.after.map Source.unstamp = (Source.find? batch id).map Source.unstamp
  ids_eq : Source.ids run.batch = Source.ids batch
  batch_eq : run.batch.map Source.unstamp = batch.map Source.unstamp

theorem Report.count_results {S : Type} [Source S] {input batch : List S} {ledger : Ledger}
    (hi : Source.Distinct input) (hb : Source.Distinct batch) (id : TreeId) :
    ((results input batch ledger).map RecipeResult.id?).count (some id) =
      if Source.Changed input batch id then 1 else 0 := by
  have hn := Source.nodup_netChanged hi hb
  have hs : ((Source.netChanged input batch).map some).count (some id) =
      (Source.netChanged input batch).count id :=
    List.count_map_of_injective _ _ (fun _ _ => Option.some.inj) id
  rw [id?_results hi hb, hs, List.Nodup.count hn]
  exact if_congr Source.mem_netChanged_iff rfl rfl

namespace Scheduler
variable {ω S : Type} [Source S] {σ : Scheduler} {hook : ErrorHook ω} {recipe : Recipe ω S}
variable {batch : List S} {c d : Context ω} {run : RecipeRun S}

theorem results_are_net_diff (h : (σ.run recipe batch).perform hook c = (.ok run, d)) :
    ∃ rounds f, Completes σ hook recipe batch c rounds f d ∧
      run = Report.ofRun batch f.batch f.ledger f.cycles ∧
      Source.Distinct batch ∧ Source.Distinct f.batch ∧ run.IsNetDiff batch f.batch := by
  obtain ⟨rounds, f, hf, rfl⟩ := run_eq_ok_iff.mp h
  have hi := hf.distinct_input
  have hb := hf.distinct_output
  refine ⟨rounds, f, hf, rfl, hi, hb, ?_⟩
  constructor
  case order => exact Report.id?_results hi hb
  case once => exact Report.count_results hi hb
  case before_eq =>
    intro r id hr hid
    obtain ⟨other, -, ho, rfl⟩ := (Report.mem_results_iff hi hb).mp hr
    obtain rfl := Option.some.inj (ho.symm.trans hid)
    rfl
  case after_eq =>
    intro r id hr hid
    obtain ⟨other, -, ho, rfl⟩ := (Report.mem_results_iff hi hb).mp hr
    obtain rfl := Option.some.inj (ho.symm.trans hid)
    simp [Report.netEntry, Report.entry, Function.comp_def, Report.unstamp_stamped]
  case ids_eq => exact Report.ids_ofRun _ _ _ _
  case batch_eq =>
    simp [Report.ofRun, Function.comp_def, Report.unstamp_stamped]

end Scheduler

theorem Sample.run_is_net_diff :
    outcome = (.ok run, outcome.2) ∧
    ∃ rounds f, Scheduler.Completes scheduler .record recipe batch start rounds f outcome.2 ∧
      run = Report.ofRun batch f.batch f.ledger f.cycles ∧
      Source.Distinct batch ∧ Source.Distinct f.batch ∧ run.IsNetDiff batch f.batch :=
  ⟨outcome_eq, Scheduler.results_are_net_diff outcome_eq⟩

end Codemod
