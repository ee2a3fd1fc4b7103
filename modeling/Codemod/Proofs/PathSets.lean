import Codemod.Proofs.Composition
import Mathlib.Data.List.Nodup

namespace Codemod

namespace Provenance

structure IsPathSet (p : Provenance) : Prop where
  nil_not_mem : [] ∉ p.paths
  nodup : p.paths.Nodup

variable {p q r : Provenance} {path : RecipePath}

theorem ext_paths (h : p.paths = q.paths) : p = q := by
  cases p
  cases q
  exact congrArg mk h

theorem isPathSet_empty : empty.IsPathSet :=
  ⟨by simp [empty], by simp [empty]⟩

theorem IsPathSet.record (h : p.IsPathSet) (path : RecipePath) : (p.record path).IsPathSet := by
  unfold Provenance.record
  split
  case isTrue ha =>
    obtain ⟨hne, hn⟩ := admits_iff.mp ha
    constructor
    case nil_not_mem => simp [h.nil_not_mem, Ne.symm hne]
    case nodup =>
      rw [List.nodup_append]
      refine ⟨h.nodup, by simp, ?_⟩
      intro a ha b hb hab
      rw [List.mem_singleton.mp hb] at hab
      exact hn (hab ▸ ha)
  case isFalse => exact h

theorem admits_iff_length_lt :
    p.admits path = true ↔ p.paths.length < (p.record path).paths.length := by
  rw [record_paths]
  split
  case isTrue ha => simp [ha]
  case isFalse ha => simp [ha]

theorem paths_foldl_record (p : Provenance) {paths : List RecipePath} (hn : [] ∉ paths)
    (hd : paths.Nodup) :
    (paths.foldl Provenance.record p).paths =
      p.paths ++ paths.filter fun path => path ∉ p.paths := by
  induction paths generalizing p with
  | nil => simp
  | cons path paths ih =>
    obtain ⟨hnew, hd⟩ := List.nodup_cons.mp hd
    rw [List.mem_cons, not_or] at hn
    obtain ⟨hne, hn⟩ := hn
    rw [List.foldl_cons, ih _ hn hd]
    by_cases hm : path ∈ p.paths
    · rw [record_of_mem hm]
      simp [hm]
    · have ha : p.admits path = true := admits_iff.mpr ⟨Ne.symm hne, hm⟩
      have hf : paths.filter (fun other => other ∉ p.paths ++ [path]) =
          paths.filter fun other => other ∉ p.paths := by
        refine List.filter_congr fun other ho => ?_
        have : other ≠ path := fun he => hnew (he ▸ ho)
        simp [this]
      rw [record_paths, if_pos ha, hf]
      simp [hm]

theorem paths_merge (p : Provenance) (hq : q.IsPathSet) :
    (p.merge q).paths = p.paths ++ q.paths.filter fun path => path ∉ p.paths :=
  paths_foldl_record p hq.nil_not_mem hq.nodup

theorem IsPathSet.merge (hp : p.IsPathSet) (q : Provenance) : (p.merge q).IsPathSet := by
  unfold Provenance.merge
  induction q.paths generalizing p with
  | nil => exact hp
  | cons path paths ih => exact ih (hp.record path)

theorem mem_paths_merge (hq : q.IsPathSet) :
    path ∈ (p.merge q).paths ↔ path ∈ p.paths ∨ path ∈ q.paths := by
  rw [paths_merge p hq]
  by_cases hm : path ∈ p.paths <;> simp [hm]

theorem merge_assoc (hq : q.IsPathSet) (hr : r.IsPathSet) :
    (p.merge q).merge r = p.merge (q.merge r) := by
  refine ext_paths ?_
  rw [paths_merge _ hr, paths_merge _ (hq.merge r), paths_merge _ hq, paths_merge _ hr,
    List.filter_append, List.filter_filter, List.append_assoc]
  congr 2
  refine List.filter_congr fun path _ => ?_
  by_cases hm : path ∈ p.paths <;> simp [hm]

theorem merge_self (hp : p.IsPathSet) : p.merge p = p := by
  refine ext_paths ?_
  rw [paths_merge p hp]
  simp

theorem empty_merge (hp : p.IsPathSet) : empty.merge p = p := by
  refine ext_paths ?_
  rw [paths_merge _ hp]
  simp [empty]

def LiesIn {ω S : Type} (p : Provenance) (recipe : Recipe ω S) : Prop :=
  ∀ path ∈ p.paths, ∃ stage, Recipe.At 0 [recipe] path stage

section
variable {ω S : Type} {recipe : Recipe ω S}

theorem LiesIn.descriptors_eq (h : p.LiesIn recipe) :
    p.descriptors = recipe.pruned (descend 0 (p.paths.map positions)) := by
  rw [descriptors, forest_eq_sproutAll h, exposed_sproutAll]

theorem LiesIn.merge (hp : p.LiesIn recipe) (hq : q.LiesIn recipe) (hs : q.IsPathSet) :
    (p.merge q).LiesIn recipe := by
  intro path hm
  rcases (mem_paths_merge hs).mp hm with hm | hm
  · exact hp path hm
  · exact hq path hm

theorem descriptors_eq_of_mem_iff (hp : p.LiesIn recipe) (hq : q.LiesIn recipe)
    (h : ∀ path, path ∈ p.paths ↔ path ∈ q.paths) :
    p.descriptors = q.descriptors ∧ p.recipeNames = q.recipeNames := by
  have hd : p.descriptors = q.descriptors := by
    rw [hp.descriptors_eq, hq.descriptors_eq]
    refine Recipe.pruned_congr fun address => ?_
    simp only [mem_descend_iff, List.mem_map, h]
  exact ⟨hd, by rw [recipeNames, recipeNames, hd]⟩

end

end Provenance

inductive Recording (ι : Type) where
  | record (target : ι) (path : RecipePath)
  | merge (target source : ι)

section
variable {ι : Type} [DecidableEq ι]

def Recording.perform (held : ι → Provenance) : Recording ι → ι → Provenance
  | record target path => Function.update held target ((held target).record path)
  | merge target source => Function.update held target ((held target).merge (held source))

def Recording.performAll (recordings : List (Recording ι)) : ι → Provenance :=
  recordings.foldl Recording.perform fun _ => .empty

theorem Recording.isPathSet_perform {held : ι → Provenance} (h : ∀ i, (held i).IsPathSet)
    (recording : Recording ι) (i : ι) : (recording.perform held i).IsPathSet := by
  cases recording with
  | record target path =>
    unfold perform
    by_cases hi : i = target
    · subst hi
      simpa using (h i).record path
    · simpa [hi] using h i
  | merge target source =>
    unfold perform
    by_cases hi : i = target
    · subst hi
      simpa using (h i).merge (held source)
    · simpa [hi] using h i

theorem Recording.isPathSet_performAll (recordings : List (Recording ι)) (i : ι) :
    (performAll recordings i).IsPathSet := by
  induction recordings using List.reverseRecOn generalizing i with
  | nil => exact Provenance.isPathSet_empty
  | append_singleton recordings last ih =>
    rw [performAll, List.foldl_append]
    exact isPathSet_perform ih last i

/-- Paths that are recorded and merged form ordered sets, and of those that lie in one composition
the tree tells the set alone. -/
theorem Recording.path_sets_of_recordings {ω S : Type} (recordings : List (Recording ι))
    (recipe : Recipe ω S) :
    let held := performAll recordings
    (∀ i, [] ∉ (held i).paths ∧ (held i).paths.Nodup) ∧
    (∀ i path, (held i).admits path = true ↔
      (held i).paths.length < ((held i).record path).paths.length) ∧
    (∀ i j, ((held i).merge (held j)).paths =
      (held i).paths ++ (held j).paths.filter fun path => path ∉ (held i).paths) ∧
    (∀ i j k, ((held i).merge (held j)).merge (held k) =
      (held i).merge ((held j).merge (held k))) ∧
    (∀ i, (held i).merge (held i) = held i ∧ (held i).merge .empty = held i ∧
      Provenance.empty.merge (held i) = held i) ∧
    (∀ i j, (held i).LiesIn recipe → (held j).LiesIn recipe →
      (∀ path, path ∈ (held i).paths ↔ path ∈ (held j).paths) →
      (held i).descriptors = (held j).descriptors ∧
        (held i).recipeNames = (held j).recipeNames) ∧
    (∀ i j, (held i).LiesIn recipe → (held j).LiesIn recipe →
      ((held i).merge (held j)).descriptors = ((held j).merge (held i)).descriptors ∧
        ((held i).merge (held j)).recipeNames = ((held j).merge (held i)).recipeNames) := by
  intro held
  have hs : ∀ i, (held i).IsPathSet := isPathSet_performAll recordings
  refine ⟨fun i => ⟨(hs i).nil_not_mem, (hs i).nodup⟩, ?_, ?_, ?_, ?_, ?_, ?_⟩
  · exact fun i path => Provenance.admits_iff_length_lt
  · exact fun i j => Provenance.paths_merge _ (hs j)
  · exact fun i j k => Provenance.merge_assoc (hs j) (hs k)
  · exact fun i => ⟨Provenance.merge_self (hs i), Provenance.merge_empty _,
      Provenance.empty_merge (hs i)⟩
  · exact fun i j hi hj h => Provenance.descriptors_eq_of_mem_iff hi hj h
  · intro i j hi hj
    refine Provenance.descriptors_eq_of_mem_iff (hi.merge hj (hs j)) (hj.merge hi (hs i)) ?_
    intro path
    rw [Provenance.mem_paths_merge (hs j), Provenance.mem_paths_merge (hs i)]
    exact or_comm

end

namespace Sample

def bangPath : RecipePath :=
  [⟨0, "root", "root"⟩, ⟨0, "outer", "Outer"⟩, ⟨0, "bang", "bang"⟩]

def swapPath : RecipePath :=
  [⟨0, "root", "root"⟩, ⟨1, "swap", "swap"⟩]

-- One provenance hears of `bang` first, the other one of `swap`.
def recordings : List (Recording Bool) :=
  [.record false bangPath, .record true swapPath, .record true bangPath, .merge false true]

theorem liesIn_recordings (i : Bool) : (Recording.performAll recordings i).LiesIn recipe := by
  have hp : (Recording.performAll recordings i).paths =
      bif i then [swapPath, bangPath] else [bangPath, swapPath] := by
    cases i <;> decide
  have hb : Recipe.At 0 [recipe] bangPath bang.stage := .under (.under .here)
  have hs : Recipe.At 0 [recipe] swapPath swap.stage := .under (.next .here)
  intro path hm
  rw [hp] at hm
  cases i with
  | false =>
    rcases List.mem_pair.mp hm with rfl | rfl
    · exact ⟨_, hb⟩
    · exact ⟨_, hs⟩
  | true =>
    rcases List.mem_pair.mp hm with rfl | rfl
    · exact ⟨_, hs⟩
    · exact ⟨_, hb⟩

theorem either_order_gives_one_tree :
    let held := Recording.performAll recordings
    (held false).paths ≠ (held true).paths ∧
    (held false).LiesIn recipe ∧ (held true).LiesIn recipe ∧
    (∀ path, path ∈ (held false).paths ↔ path ∈ (held true).paths) ∧
    ((held false).descriptors = (held true).descriptors ∧
      (held false).recipeNames = (held true).recipeNames) ∧
    ((held false).merge (held true)).descriptors = ((held true).merge (held false)).descriptors ∧
      ((held false).merge (held true)).recipeNames =
        ((held true).merge (held false)).recipeNames := by
  intro held
  have hf : (held false).LiesIn recipe := liesIn_recordings false
  have ht : (held true).LiesIn recipe := liesIn_recordings true
  have hm : ∀ path, path ∈ (held false).paths ↔ path ∈ (held true).paths := by
    have hpf : (held false).paths = [bangPath, swapPath] := by decide
    have hpt : (held true).paths = [swapPath, bangPath] := by decide
    intro path
    rw [hpf, hpt, List.mem_pair, List.mem_pair]
    exact or_comm
  obtain ⟨-, -, -, -, -, hset, hmerge⟩ := Recording.path_sets_of_recordings recordings recipe
  exact ⟨by decide, hf, ht, hm, hset false true hf ht hm, hmerge false true hf ht⟩

end Sample

end Codemod
