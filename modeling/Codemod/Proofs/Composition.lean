import Codemod.Proofs.Attribution
import Codemod.Proofs.NetDiff

namespace Codemod

namespace Descriptor

mutual
/-- Drops, at every level, the descendants that are not kept. An address is relative: it names the
positions to go down to. -/
def restrict (keep : List Nat → Bool) : Descriptor → Descriptor
  | ⟨name, displayName, children⟩ => ⟨name, displayName, restrictAll keep 0 children⟩

def restrictAll (keep : List Nat → Bool) (position : Nat) : List Descriptor → List Descriptor
  | [] => []
  | d :: ds =>
    if keep [position] then
      restrict (fun address => keep (position :: address)) d :: restrictAll keep (position + 1) ds
    else restrictAll keep (position + 1) ds
end

end Descriptor

def descend (position : Nat) (addresses : List (List Nat)) : List (List Nat) :=
  addresses.filterMap fun
    | [] => none
    | i :: rest => if i = position then some rest else none

theorem mem_descend_iff {position : Nat} {addresses : List (List Nat)} {rest : List Nat} :
    rest ∈ descend position addresses ↔ position :: rest ∈ addresses := by
  simp only [descend, List.mem_filterMap]
  constructor
  · rintro ⟨address, ha, hr⟩
    cases address with
    | nil => simp at hr
    | cons i tail =>
      split at hr <;> simp_all
  · intro h
    exact ⟨position :: rest, h, by simp⟩

theorem descend_append_of_eq (addresses : List (List Nat)) (position : Nat) (rest : List Nat) :
    descend position (addresses ++ [position :: rest]) = descend position addresses ++ [rest] := by
  simp [descend]

theorem descend_append_of_ne (addresses : List (List Nat)) {position i : Nat} (hi : i ≠ position)
    (rest : List Nat) :
    descend position (addresses ++ [i :: rest]) = descend position addresses := by
  simp [descend, hi]

theorem descend_append_nil (addresses : List (List Nat)) (position : Nat) :
    descend position (addresses ++ [[]]) = descend position addresses := by
  simp [descend]

theorem descend_ne_nil_iff {position : Nat} {addresses : List (List Nat)} :
    descend position addresses ≠ [] ↔ ∃ address ∈ addresses, [position] <+: address := by
  constructor
  · intro h
    obtain ⟨rest, hr⟩ := List.exists_mem_of_ne_nil _ h
    exact ⟨_, mem_descend_iff.mp hr, rest, rfl⟩
  · rintro ⟨_, ha, rest, rfl⟩
    exact List.ne_nil_of_mem (mem_descend_iff.mpr ha)

mutual
def sprout {ω S : Type} (position : Nat) (addresses : List (List Nat)) : Recipe ω S → List Branch
  | ⟨stage, children⟩ =>
    let below := descend position addresses
    if below = [] then []
    else [⟨stage.frame position, [] ∈ below, sproutAll 0 below children⟩]

def sproutAll {ω S : Type} (position : Nat) (addresses : List (List Nat)) :
    List (Recipe ω S) → List Branch
  | [] => []
  | r :: rs => sprout position addresses r ++ sproutAll (position + 1) addresses rs
end

section
variable {ω S : Type} {stage : Stage ω S} {children rs : List (Recipe ω S)} {position : Nat}
variable {addresses : List (List Nat)}

theorem sproutAll_of_descend_eq_nil (h : descend position addresses = []) :
    sproutAll position addresses (⟨stage, children⟩ :: rs) =
      sproutAll (position + 1) addresses rs := by
  rw [sproutAll, sprout, if_pos h, List.nil_append]

theorem sproutAll_of_descend_ne_nil (h : descend position addresses ≠ []) :
    sproutAll position addresses (⟨stage, children⟩ :: rs) =
      ⟨stage.frame position, [] ∈ descend position addresses,
        sproutAll 0 (descend position addresses) children⟩ ::
        sproutAll (position + 1) addresses rs := by
  rw [sproutAll, sprout, if_neg h, List.singleton_append]

theorem sproutAll_nil : sproutAll position [] rs = [] := by
  induction rs generalizing position with
  | nil => rfl
  | cons r rs ih =>
    cases r with
    | mk stage children =>
      rw [sproutAll_of_descend_eq_nil rfl]
      exact ih

theorem sproutAll_congr {others : List (List Nat)}
    (h : ∀ j, position ≤ j → descend j addresses = descend j others) :
    sproutAll position addresses rs = sproutAll position others rs := by
  induction rs generalizing position with
  | nil => rfl
  | cons r rs ih =>
    cases r with
    | mk stage children =>
      have hr : sproutAll (position + 1) addresses rs = sproutAll (position + 1) others rs :=
        ih fun j hj => h j (by omega)
      rw [sproutAll, sproutAll, sprout, sprout, h position (Nat.le_refl _), hr]

theorem sproutAll_append_nil :
    sproutAll position (addresses ++ [[]]) rs = sproutAll position addresses rs :=
  sproutAll_congr fun j _ => descend_append_nil addresses j

theorem sproutAll_append_of_lt {i : Nat} (hi : i < position) (rest : List Nat) :
    sproutAll position (addresses ++ [i :: rest]) rs = sproutAll position addresses rs :=
  sproutAll_congr fun _ hj => descend_append_of_ne addresses (by omega) rest

theorem le_position_of_mem_sproutAll {b : Branch} (h : b ∈ sproutAll position addresses rs) :
    position ≤ b.frame.position := by
  induction rs generalizing position with
  | nil =>
    rw [sproutAll] at h
    simp at h
  | cons r rs ih =>
    cases r with
    | mk stage children =>
      by_cases hd : descend position addresses = []
      · rw [sproutAll_of_descend_eq_nil hd] at h
        have hl := ih h
        omega
      · rw [sproutAll_of_descend_ne_nil hd] at h
        rcases List.mem_cons.mp h with rfl | h
        · exact Nat.le_refl _
        · have hl := ih h
          omega

end

namespace Branch
variable {f : Frame} {grow : Branch → Branch}

theorem place_of_lt {level : List Branch} (h : ∀ b ∈ level, f.position < b.frame.position) :
    place f grow level = grow (bud f) :: level := by
  cases level with
  | nil => rfl
  | cons b bs =>
    have hb := h b (by simp)
    have hs : b.frame.slot ≠ f.slot := by
      intro he
      have hp : b.frame.position = f.position := congrArg Prod.fst he
      omega
    rw [place, if_neg hs, if_pos hb]

theorem place_of_gt {b : Branch} (hb : b.frame.position < f.position) (bs : List Branch) :
    place f grow (b :: bs) = b :: place f grow bs := by
  have hs : b.frame.slot ≠ f.slot := by
    intro he
    have hp : b.frame.position = f.position := congrArg Prod.fst he
    omega
  rw [place, if_neg hs, if_neg (by omega)]

end Branch

def positions (path : RecipePath) : List Nat :=
  path.map Frame.position

section
variable {ω S : Type} {stage : Stage ω S} {children rs : List (Recipe ω S)} {position : Nat}
variable {path rest : RecipePath}

theorem Recipe.At.le_position {f : Frame} (h : Recipe.At position rs (f :: rest) stage) :
    position ≤ f.position := by
  generalize hp : f :: rest = path at h
  induction h with
  | here =>
    obtain ⟨rfl, -⟩ := List.cons.inj hp
    exact Nat.le_refl _
  | under =>
    obtain ⟨rfl, -⟩ := List.cons.inj hp
    exact Nat.le_refl _
  | next _ ih =>
    have hl := ih hp
    omega

theorem Recipe.At.positions_eq_cons {recipe : Recipe ω S}
    (h : Recipe.At 0 [recipe] path stage) : positions path = 0 :: (positions path).tail := by
  cases h with
  | here => rfl
  | under => rfl
  | next h => cases h

theorem graft_sproutAll_head
    (hg : ∀ below, Branch.graft rest (sproutAll 0 below children) =
      sproutAll 0 (below ++ [positions rest]) children) (addresses : List (List Nat)) :
    Branch.graft (stage.frame position :: rest)
        (sproutAll position addresses (⟨stage, children⟩ :: rs)) =
      sproutAll position (addresses ++ [positions (stage.frame position :: rest)])
        (⟨stage, children⟩ :: rs) := by
  have hd : descend position (addresses ++ [position :: positions rest]) =
      descend position addresses ++ [positions rest] := descend_append_of_eq _ _ _
  have hl : sproutAll (position + 1) (addresses ++ [position :: positions rest]) rs =
      sproutAll (position + 1) addresses rs := sproutAll_append_of_lt (Nat.lt_succ_self _) _
  have hr : sproutAll position (addresses ++ [position :: positions rest])
      (⟨stage, children⟩ :: rs) =
      ⟨stage.frame position, [] ∈ descend position addresses ++ [positions rest],
        sproutAll 0 (descend position addresses ++ [positions rest]) children⟩ ::
        sproutAll (position + 1) addresses rs := by
    rw [sproutAll_of_descend_ne_nil (by simp [hd]), hd, hl]
  have ha : positions (stage.frame position :: rest) = position :: positions rest := rfl
  have he : decide (positions rest = []) = rest.isEmpty := by
    cases rest <;> simp [positions]
  rw [ha, hr, Branch.graft, ← hg]
  by_cases hn : descend position addresses = []
  · rw [sproutAll_of_descend_eq_nil hn, Branch.place_of_lt]
    · simp [Branch.bud, hn, sproutAll_nil, he]
    · intro b hb
      exact le_position_of_mem_sproutAll hb
  · rw [sproutAll_of_descend_ne_nil hn, Branch.place, if_pos rfl]
    simp [he]

theorem graft_sproutAll (h : Recipe.At position rs path stage) (addresses : List (List Nat)) :
    Branch.graft path (sproutAll position addresses rs) =
      sproutAll position (addresses ++ [positions path]) rs := by
  induction h generalizing addresses with
  | here =>
    refine graft_sproutAll_head (fun below => ?_) addresses
    exact sproutAll_append_nil.symm
  | under _ ih => exact graft_sproutAll_head ih addresses
  | @next position r rs path stage h ih =>
    -- The path starts at a later sibling: it passes over the branch of the head, if there is one.
    cases r with
    | mk head children =>
      cases path with
      | nil => exact absurd rfl h.path_ne_nil
      | cons f rest =>
        have hp : position < f.position := h.le_position
        have ha : positions (f :: rest) = f.position :: positions rest := rfl
        have hd : descend position (addresses ++ [f.position :: positions rest]) =
            descend position addresses := descend_append_of_ne _ (by omega) _
        have hi := ih addresses
        rw [ha] at hi ⊢
        by_cases hn : descend position addresses = []
        · rw [sproutAll_of_descend_eq_nil hn, hi, sproutAll_of_descend_eq_nil (hd.trans hn)]
        · have hn' : descend position (addresses ++ [f.position :: positions rest]) ≠ [] := by
            rwa [hd]
          rw [sproutAll_of_descend_ne_nil hn, sproutAll_of_descend_ne_nil hn', hd, ← hi, Branch.graft,
            Branch.place_of_gt hp]
          rfl

theorem forest_eq_sproutAll {recipe : Recipe ω S} {paths : List RecipePath}
    (h : ∀ path ∈ paths, ∃ stage, Recipe.At 0 [recipe] path stage) :
    forest paths = sproutAll 0 (paths.map positions) [recipe] := by
  induction paths using List.reverseRecOn with
  | nil => exact sproutAll_nil.symm
  | append_singleton paths path ih =>
    obtain ⟨stage, hs⟩ := h path (by simp)
    have hi := ih fun p hp => h p (by simp [hp])
    rw [forest_append, hi, List.map_append]
    exact graft_sproutAll hs _

end

def leadsTo (addresses : List (List Nat)) (address : List Nat) : Bool :=
  addresses.any address.isPrefixOf

theorem leadsTo_iff {addresses : List (List Nat)} {address : List Nat} :
    leadsTo addresses address = true ↔ ∃ other ∈ addresses, address <+: other := by
  simp [leadsTo]

theorem leadsTo_descend (addresses : List (List Nat)) (position : Nat) :
    leadsTo (descend position addresses) =
      fun address => leadsTo addresses (position :: address) := by
  funext address
  rw [Bool.eq_iff_iff, leadsTo_iff, leadsTo_iff]
  constructor
  · rintro ⟨rest, hr, hp⟩
    exact ⟨position :: rest, mem_descend_iff.mp hr, by simpa using hp⟩
  · rintro ⟨_, ha, tail, rfl⟩
    exact ⟨address ++ tail, mem_descend_iff.mpr ha, address.prefix_append tail⟩

theorem descriptors_sproutAll {ω S : Type} : (position : Nat) → (rs : List (Recipe ω S)) →
    (addresses : List (List Nat)) →
    Branch.descriptors (sproutAll position addresses rs) =
      Descriptor.restrictAll (leadsTo addresses) position (Recipe.descriptors rs)
  | position, [], addresses => by
    rw [sproutAll, Branch.descriptors, Recipe.descriptors, Descriptor.restrictAll]
  | position, ⟨stage, children⟩ :: rs, addresses => by
    have hc := descriptors_sproutAll 0 children (descend position addresses)
    have hr := descriptors_sproutAll (position + 1) rs addresses
    rw [leadsTo_descend] at hc
    rw [Recipe.descriptors, Recipe.descriptor, Descriptor.restrictAll]
    by_cases hn : descend position addresses = []
    · have hl : ¬ leadsTo addresses [position] = true :=
        fun h => descend_ne_nil_iff.mpr (leadsTo_iff.mp h) hn
      rw [sproutAll_of_descend_eq_nil hn, if_neg hl, hr]
    · have hl : leadsTo addresses [position] = true :=
        leadsTo_iff.mpr (descend_ne_nil_iff.mp hn)
      rw [sproutAll_of_descend_ne_nil hn, if_pos hl, Branch.descriptors, Branch.descriptor, hc, hr,
        Descriptor.restrict]
      rfl

namespace Application
variable {ω S : Type}

def address (a : Application ω S) : List Nat :=
  (positions a.path).tail

end Application

def changingAddresses {ω S : Type} [Source S] (log : List (Application ω S)) (id : TreeId) :
    List (List Nat) :=
  (log.filter fun a => a.Changes id).map Application.address

/-- A composition cut down to the recipes that lead to the addresses. The root stays only where it
is one of them. -/
def Recipe.pruned {ω S : Type} (recipe : Recipe ω S) (addresses : List (List Nat)) :
    List Descriptor :=
  let kept := recipe.descriptor.restrict (leadsTo addresses)
  if [] ∈ addresses then [kept] else kept.children

section
variable {ω S : Type} {recipe : Recipe ω S}

theorem Recipe.pruned_congr {addresses others : List (List Nat)}
    (h : ∀ address, address ∈ addresses ↔ address ∈ others) :
    recipe.pruned addresses = recipe.pruned others := by
  have hl : leadsTo addresses = leadsTo others := by
    funext address
    rw [Bool.eq_iff_iff, leadsTo_iff, leadsTo_iff]
    simp only [h]
  rw [pruned, pruned, hl]
  exact if_congr (h []) rfl rfl

theorem exposed_sproutAll (addresses : List (List Nat)) :
    (sproutAll 0 addresses [recipe]).flatMap Branch.exposed =
      recipe.pruned (descend 0 addresses) := by
  cases recipe with
  | mk stage children =>
    have hc := descriptors_sproutAll 0 children (descend 0 addresses)
    rw [Recipe.pruned, Recipe.descriptor, Descriptor.restrict]
    by_cases hn : descend 0 addresses = []
    · have hs : Branch.descriptors (sproutAll 0 [] children) = [] := by
        rw [sproutAll_nil, Branch.descriptors]
      rw [hn] at hc
      rw [sproutAll_of_descend_eq_nil hn, sproutAll, hn, ← hc, hs]
      rfl
    · rw [sproutAll_of_descend_ne_nil hn, sproutAll, ← hc]
      by_cases hm : [] ∈ descend 0 addresses <;>
        simp [Branch.exposed, hm, Branch.descriptor, Stage.frame]

end

section
variable {ω S : Type} [Source S] {recipe : Recipe ω S} {log : List (Application ω S)}
variable {id : TreeId}

theorem mem_descend_changingPaths_iff
    (h : ∀ a ∈ log, Recipe.At 0 [recipe] a.path a.stage) {address : List Nat} :
    address ∈ descend 0 ((changingPaths log id).map positions) ↔
      address ∈ changingAddresses log id := by
  simp only [mem_descend_iff, changingAddresses, List.mem_map, mem_changingPaths_iff,
    List.mem_filter, decide_eq_true_eq]
  constructor
  · rintro ⟨_, ⟨a, ha, hc, rfl⟩, hp⟩
    exact ⟨a, ⟨ha, hc⟩, congrArg List.tail hp⟩
  · rintro ⟨a, ⟨ha, hc⟩, rfl⟩
    exact ⟨a.path, ⟨a, ha, hc, rfl⟩, (h a ha).positions_eq_cons⟩

theorem descriptors_changingPaths (h : ∀ a ∈ log, Recipe.At 0 [recipe] a.path a.stage) :
    (Provenance.mk (changingPaths log id)).descriptors =
      recipe.pruned (changingAddresses log id) := by
  have hv : ∀ path ∈ changingPaths log id, ∃ stage, Recipe.At 0 [recipe] path stage := by
    intro path hp
    obtain ⟨a, ha, -, rfl⟩ := mem_changingPaths_iff.mp hp
    exact ⟨a.stage, h a ha⟩
  rw [Provenance.descriptors, forest_eq_sproutAll hv, exposed_sproutAll]
  exact Recipe.pruned_congr fun _ => mem_descend_changingPaths_iff h

end

namespace Scheduler
variable {ω S : Type} [Source S] {σ : Scheduler} {hook : ErrorHook ω} {recipe : Recipe ω S}
variable {batch : List S} {c d : Context ω} {run : RecipeRun S}

theorem Completes.descriptors_eq {rounds : List (Round ω S)} {f : Flight S}
    (h : Completes σ hook recipe batch c rounds f d) (id : TreeId) :
    f.ledger.descriptors id = recipe.pruned (changingAddresses (Round.applied rounds) id) := by
  rw [← descriptors_changingPaths h.to_rounds.located, h.ledger_eq, Ledger.descriptors,
    ← Ledger.paths_replay h.distinct h.path_ne_nil]

theorem descriptors_of_changing_addresses
    (h : (σ.run recipe batch).perform hook c = (.ok run, d)) :
    ∃ rounds f, Completes σ hook recipe batch c rounds f d ∧
      run = Report.ofRun batch f.batch f.ledger f.cycles ∧
      (∀ a ∈ Round.applied rounds, Recipe.At 0 [recipe] a.path a.stage) ∧
      ∀ r ∈ run.results, ∀ s, r.before = some s ∨ r.after = some s →
        r.descriptors =
          recipe.pruned (changingAddresses (Round.applied rounds) (Tree.id s)) := by
  obtain ⟨rounds, f, hf, rfl⟩ := run_eq_ok_iff.mp h
  refine ⟨rounds, f, hf, rfl, hf.to_rounds.located, fun r hr s hs => ?_⟩
  obtain ⟨id, -, -, rfl⟩ := (Report.mem_results_iff hf.distinct_input hf.distinct_output).mp hr
  have hid : Tree.id s = id := by
    rcases hs with hs | hs
    · exact Source.id_of_find? hs
    · obtain ⟨t, ht, rfl⟩ := Option.map_eq_some_iff.mp hs
      rw [Report.id_stamped, Source.id_of_find? ht]
  rw [hid]
  exact hf.descriptors_eq id

end Scheduler

theorem Sample.descriptors_of_run :
    outcome = (.ok run, outcome.2) ∧
    run.results.map RecipeResult.descriptors =
      [[⟨"outer", "Outer", [.leaf "bang" "bang"]⟩, .leaf "swap" "swap"],
        [.leaf "purge" "purge"]] ∧
    ∃ rounds f, Scheduler.Completes scheduler .record recipe batch start rounds f outcome.2 ∧
      run = Report.ofRun batch f.batch f.ledger f.cycles ∧
      (∀ a ∈ Round.applied rounds, Recipe.At 0 [recipe] a.path a.stage) ∧
      ∀ r ∈ run.results, ∀ s, r.before = some s ∨ r.after = some s →
        r.descriptors =
          recipe.pruned (changingAddresses (Round.applied rounds) (Tree.id s)) :=
  ⟨outcome_eq, by decide +kernel, Scheduler.descriptors_of_changing_addresses outcome_eq⟩

end Codemod
