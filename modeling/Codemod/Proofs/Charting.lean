import Codemod.Proofs.Stamping
import Mathlib.Data.List.Infix

namespace Codemod

abbrev Slot := Nat × String

def slots (path : RecipePath) : List Slot :=
  path.map Frame.slot

section
variable {paths : List RecipePath} {path : RecipePath} {s u : List Slot} {x y : Slot}

def Covers (paths : List RecipePath) (s : List Slot) : Prop :=
  ∃ path ∈ paths, s <+: slots path

def Ends (paths : List RecipePath) (s : List Slot) : Prop :=
  ∃ path ∈ paths, slots path = s

def firstIndex (paths : List RecipePath) (s : List Slot) : Nat :=
  paths.findIdx fun path => s.isPrefixOf (slots path)

def frameAt? (paths : List RecipePath) (s : List Slot) : Option Frame :=
  (paths.find? fun path => s.isPrefixOf (slots path)).bind fun path => path[s.length - 1]?

/-- The order of the slots that follow `u`: by position, and by arrival within one position. -/
def Before (paths : List RecipePath) (u : List Slot) (x y : Slot) : Prop :=
  x.1 < y.1 ∨ x.1 = y.1 ∧ firstIndex paths (u ++ [x]) < firstIndex paths (u ++ [y])

theorem slots_append (path rest : RecipePath) :
    slots (path ++ rest) = slots path ++ slots rest := by
  simp [slots]

theorem Ends.covers (h : Ends paths s) : Covers paths s := by
  obtain ⟨path, hm, rfl⟩ := h
  exact ⟨path, hm, List.prefix_refl _⟩

theorem Covers.mono (h : Covers paths s) (hu : u <+: s) : Covers paths u := by
  obtain ⟨path, hm, hp⟩ := h
  exact ⟨path, hm, hu.trans hp⟩

theorem covers_append_singleton :
    Covers (paths ++ [path]) s ↔ Covers paths s ∨ s <+: slots path := by
  simp [Covers, or_and_right, exists_or]

theorem ends_append_singleton : Ends (paths ++ [path]) s ↔ Ends paths s ∨ slots path = s := by
  simp [Ends, or_and_right, exists_or]

theorem firstIndex_lt_iff : firstIndex paths s < paths.length ↔ Covers paths s := by
  simp [firstIndex, List.findIdx_lt_length, Covers]

theorem firstIndex_of_covers (h : Covers paths s) (path : RecipePath) :
    firstIndex (paths ++ [path]) s = firstIndex paths s := by
  rw [firstIndex, List.findIdx_append]
  exact if_pos (firstIndex_lt_iff.mpr h)

theorem le_firstIndex_of_not_covers (h : ¬ Covers paths s) (path : RecipePath) :
    paths.length ≤ firstIndex (paths ++ [path]) s := by
  rw [firstIndex, List.findIdx_append]
  have hn : ¬ paths.findIdx (fun path => s.isPrefixOf (slots path)) < paths.length :=
    mt firstIndex_lt_iff.mp h
  rw [if_neg hn]
  omega

theorem find?_isSome_iff :
    (paths.find? fun path => s.isPrefixOf (slots path)).isSome = true ↔ Covers paths s := by
  simp [List.find?_isSome, Covers]

theorem frameAt?_of_covers (h : Covers paths s) (path : RecipePath) :
    frameAt? (paths ++ [path]) s = frameAt? paths s := by
  obtain ⟨first, hf⟩ := Option.isSome_iff_exists.mp (find?_isSome_iff.mpr h)
  rw [frameAt?, frameAt?, List.find?_append, hf]
  rfl

theorem frameAt?_of_not_covers (h : ¬ Covers paths s) (hs : s <+: slots path) :
    frameAt? (paths ++ [path]) s = path[s.length - 1]? := by
  have hn : (paths.find? fun path => s.isPrefixOf (slots path)) = none := by
    rw [← Option.not_isSome_iff_eq_none]
    exact mt find?_isSome_iff.mp h
  rw [frameAt?, List.find?_append, hn]
  simp [hs]

theorem covers_of_frameAt? {f : Frame} (h : frameAt? paths s = some f) : Covers paths s := by
  obtain ⟨path, hp, -⟩ := Option.bind_eq_some_iff.mp h
  exact find?_isSome_iff.mp (by rw [hp]; rfl)

theorem not_before_self : ¬ Before paths u x x := by
  simp [Before]

theorem Before.append (h : Before paths u x y) (hx : Covers paths (u ++ [x]))
    (hy : Covers paths (u ++ [y])) (path : RecipePath) : Before (paths ++ [path]) u x y := by
  unfold Before
  rwa [firstIndex_of_covers hx, firstIndex_of_covers hy]

end

namespace Branch

theorem place_of_mem {f : Frame} {grow : Branch → Branch} {b : Branch} {before after : List Branch}
    (hb : b.frame.slot = f.slot)
    (ho : ∀ c ∈ before, c.frame.slot ≠ f.slot ∧ c.frame.position ≤ f.position) :
    place f grow (before ++ b :: after) = before ++ grow b :: after := by
  induction before with
  | nil => rw [List.nil_append, place, if_pos hb, List.nil_append]
  | cons c before ih =>
    obtain ⟨hs, hp⟩ := ho c (by simp)
    rw [List.cons_append, place, if_neg hs, if_neg (by omega), ih fun d hd => ho d (by simp [hd])]
    rfl

theorem place_of_not_mem {f : Frame} (grow : Branch → Branch) {level : List Branch}
    (hs : ∀ b ∈ level, b.frame.slot ≠ f.slot)
    (ho : level.Pairwise fun b c => b.frame.position ≤ c.frame.position) :
    ∃ before after, level = before ++ after ∧
      place f grow level = before ++ grow (bud f) :: after ∧
      (∀ b ∈ before, b.frame.position ≤ f.position) ∧
      ∀ b ∈ after, f.position < b.frame.position := by
  induction level with
  | nil => exact ⟨[], [], rfl, rfl, by simp, by simp⟩
  | cons b level ih =>
    obtain ⟨hb, ho⟩ := List.pairwise_cons.mp ho
    rw [place, if_neg (hs b (by simp))]
    by_cases hlt : f.position < b.frame.position
    · refine ⟨[], b :: level, rfl, if_pos hlt, by simp, ?_⟩
      intro c hc
      rcases List.mem_cons.mp hc with rfl | hc
      · exact hlt
      · have := hb c hc
        omega
    · obtain ⟨before, after, rfl, hp, hl, hr⟩ := ih (fun c hc => hs c (by simp [hc])) ho
      refine ⟨b :: before, after, rfl, ?_, ?_, hr⟩
      · rw [if_neg hlt, hp]
        rfl
      · intro c hc
        rcases List.mem_cons.mp hc with rfl | hc
        · omega
        · exact hl c hc

inductive Charts (paths : List RecipePath) : List Slot → List Branch → Prop
  | mk {u : List Slot} {level : List Branch}
      (complete : ∀ x, Covers paths (u ++ [x]) → ∃ b ∈ level, b.frame.slot = x)
      (framed : ∀ b ∈ level, frameAt? paths (u ++ [b.frame.slot]) = some b.frame)
      (direct : ∀ b ∈ level, b.direct = true ↔ Ends paths (u ++ [b.frame.slot]))
      (ordered : (level.map fun b => b.frame.slot).Pairwise (Before paths u))
      (below : ∀ b ∈ level, Charts paths (u ++ [b.frame.slot]) b.children) : Charts paths u level

structure Stands (paths : List RecipePath) (s : List Slot) (b : Branch) : Prop where
  framed : frameAt? paths s = some b.frame
  direct : b.direct = true ↔ Ends paths s
  below : Charts paths s b.children

variable {paths : List RecipePath} {path rest : RecipePath} {s u : List Slot} {x : Slot}
variable {b c : Branch} {level : List Branch}

theorem Stands.covers (h : b.Stands paths s) : Covers paths s :=
  covers_of_frameAt? h.framed

namespace Charts

theorem complete (h : Charts paths u level) (hx : Covers paths (u ++ [x])) :
    ∃ b ∈ level, b.frame.slot = x := by
  cases h with
  | mk complete => exact complete x hx

theorem ordered (h : Charts paths u level) :
    (level.map fun b => b.frame.slot).Pairwise (Before paths u) := by
  cases h with
  | mk _ _ _ ordered => exact ordered

theorem stands (h : Charts paths u level) (hb : b ∈ level) :
    b.Stands paths (u ++ [b.frame.slot]) := by
  cases h with
  | mk _ framed direct _ below => exact ⟨framed b hb, direct b hb, below b hb⟩

theorem of_stands (hc : ∀ x, Covers paths (u ++ [x]) → ∃ b ∈ level, b.frame.slot = x)
    (hs : ∀ b ∈ level, b.Stands paths (u ++ [b.frame.slot]))
    (ho : (level.map fun b => b.frame.slot).Pairwise (Before paths u)) : Charts paths u level :=
  .mk hc (fun b hb => (hs b hb).framed) (fun b hb => (hs b hb).direct) ho
    fun b hb => (hs b hb).below

theorem of_not_covers (h : ¬ Covers paths u) : Charts paths u [] := by
  refine of_stands (fun x hx => ?_) (by simp) (by simp)
  exact absurd (hx.mono (List.prefix_append u [x])) h

theorem ordered_append (h : Charts paths u level) (path : RecipePath) :
    (level.map fun b => b.frame.slot).Pairwise (Before (paths ++ [path]) u) := by
  refine h.ordered.imp_of_mem fun hx hy hb => ?_
  obtain ⟨b, hm, rfl⟩ := List.mem_map.mp hx
  obtain ⟨c, hn, rfl⟩ := List.mem_map.mp hy
  exact hb.append (h.stands hm).covers (h.stands hn).covers path

theorem pairwise_position_le (h : Charts paths u level) :
    level.Pairwise fun b c => b.frame.position ≤ c.frame.position := by
  refine (List.pairwise_map.mp h.ordered).imp fun hb => ?_
  rcases hb with hb | ⟨hb, -⟩
  · exact Nat.le_of_lt hb
  · exact Nat.le_of_eq hb

theorem append_elsewhere (h : Charts paths u level) (hn : ∀ x, ¬ u ++ [x] <+: slots path) :
    Charts (paths ++ [path]) u level := by
  induction h with
  | @mk u level complete framed direct ordered below ih =>
    have h : Charts paths u level := .mk complete framed direct ordered below
    refine of_stands ?_ ?_ (h.ordered_append path)
    · intro x hx
      exact complete x ((covers_append_singleton.mp hx).resolve_right (hn x))
    · intro b hb
      have hs := h.stands hb
      refine ⟨(frameAt?_of_covers hs.covers path).trans hs.framed, ?_, ih b hb fun x hp => ?_⟩
      · rw [hs.direct, ends_append_singleton]
        refine ⟨.inl, fun he => he.resolve_right fun he => hn b.frame.slot ?_⟩
        rw [he]
      · exact hn _ ((List.prefix_append _ [x]).trans hp)

end Charts

theorem Stands.append_elsewhere (h : b.Stands paths s) (hn : ¬ s <+: slots path) :
    b.Stands (paths ++ [path]) s where
  framed := (frameAt?_of_covers h.covers path).trans h.framed
  direct := by
    rw [h.direct, ends_append_singleton]
    refine ⟨.inl, fun he => he.resolve_right fun he => hn ?_⟩
    rw [he]
  below := h.below.append_elsewhere fun x hp => hn ((List.prefix_append s [x]).trans hp)

theorem not_prefix_of_ne {y : Slot} {t : List Slot} (h : y ≠ x) : ¬ u ++ [y] <+: u ++ x :: t := by
  simp [List.prefix_append_right_inj, List.cons_prefix_cons, h]

namespace Stands
variable {f : Frame}

theorem direct_append {d : Bool} (h : d = true ↔ Ends paths s) (hp : slots path = s ++ slots rest) :
    (d || rest.isEmpty) = true ↔ Ends (paths ++ [path]) s := by
  rw [Bool.or_eq_true, h, ends_append_singleton, hp]
  cases rest <;> simp [slots]

theorem grow (h : b.Stands paths s) (hp : slots path = s ++ slots rest)
    (hg : Charts (paths ++ [path]) s (graft rest b.children)) :
    Stands (paths ++ [path]) s ⟨b.frame, b.direct || rest.isEmpty, graft rest b.children⟩ where
  framed := (frameAt?_of_covers h.covers path).trans h.framed
  direct := direct_append h.direct hp
  below := hg

theorem sprout (h : ¬ Covers paths s) (hp : slots path = s ++ slots rest)
    (hf : path[s.length - 1]? = some f) (hg : Charts (paths ++ [path]) s (graft rest [])) :
    Stands (paths ++ [path]) s ⟨f, false || rest.isEmpty, graft rest []⟩ where
  framed := by
    rw [frameAt?_of_not_covers h (hp ▸ List.prefix_append s (slots rest)), hf]
  direct := by
    have hd : false = true ↔ Ends paths s := by simpa using mt Ends.covers h
    exact direct_append hd hp
  below := hg

end Stands

namespace Charts
variable {before after : List Branch} {t : List Slot}

theorem of_insertion (hp : slots path = u ++ b.frame.slot :: t)
    (hb : b.Stands (paths ++ [path]) (u ++ [b.frame.slot]))
    (hs : ∀ c ∈ before ++ after, c.frame.slot ≠ b.frame.slot ∧ c.Stands paths (u ++ [c.frame.slot]))
    (hc : ∀ x ≠ b.frame.slot, Covers paths (u ++ [x]) → ∃ c ∈ before ++ after, c.frame.slot = x)
    (ho : ((before ++ b :: after).map fun b => b.frame.slot).Pairwise
      (Before (paths ++ [path]) u)) : Charts (paths ++ [path]) u (before ++ b :: after) := by
  have hm : ∀ c, c ∈ before ++ b :: after ↔ c = b ∨ c ∈ before ++ after := by
    intro c
    simp only [List.mem_append, List.mem_cons]
    tauto
  refine of_stands (fun x hx => ?_) (fun c hcm => ?_) ho
  · by_cases he : x = b.frame.slot
    · exact ⟨b, by simp, he.symm⟩
    · have hx := (covers_append_singleton.mp hx).resolve_right (hp ▸ not_prefix_of_ne he)
      obtain ⟨c, hcm, hcs⟩ := hc x he hx
      exact ⟨c, (hm c).mpr (.inr hcm), hcs⟩
  · rcases (hm c).mp hcm with rfl | hcm
    · exact hb
    · obtain ⟨hne, hst⟩ := hs c hcm
      exact hst.append_elsewhere (hp ▸ not_prefix_of_ne hne)

theorem ne_of_mem (h : Charts paths u (before ++ b :: after)) (hc : c ∈ before ++ after) :
    c.frame.slot ≠ b.frame.slot := by
  have ho := h.ordered
  rw [List.map_append, List.map_cons, List.pairwise_append, List.pairwise_cons] at ho
  obtain ⟨-, ⟨hr, -⟩, hl⟩ := ho
  intro he
  rcases List.mem_append.mp hc with hc | hc
  · have hb := hl _ (List.mem_map_of_mem hc) _ (List.mem_cons_self ..)
    exact not_before_self (he ▸ hb)
  · exact not_before_self (he ▸ hr _ (List.mem_map_of_mem hc))

theorem position_le_of_mem (h : Charts paths u (before ++ b :: after)) (hc : c ∈ before) :
    c.frame.position ≤ b.frame.position := by
  have ho := h.pairwise_position_le
  rw [List.pairwise_append] at ho
  exact ho.2.2 c hc b (List.mem_cons_self ..)

theorem replaced {grown : Branch} (h : Charts paths u (before ++ b :: after))
    (hf : grown.frame = b.frame) (hp : slots path = u ++ b.frame.slot :: t)
    (hg : grown.Stands (paths ++ [path]) (u ++ [b.frame.slot])) :
    Charts (paths ++ [path]) u (before ++ grown :: after) := by
  have ho := h.ordered_append path
  refine of_insertion (hf ▸ hp) (hf ▸ hg) (fun c hc => ?_) (fun x hx hcov => ?_) ?_
  · have hm : c ∈ before ++ b :: after := by
      rcases List.mem_append.mp hc with hc | hc <;> simp [hc]
    exact ⟨hf ▸ h.ne_of_mem hc, h.stands hm⟩
  · obtain ⟨c, hc, rfl⟩ := h.complete hcov
    have hcb : c ≠ b := fun he => hx (by rw [hf, he])
    refine ⟨c, ?_, rfl⟩
    simpa [hcb] using hc
  · simpa [hf] using ho

theorem inserted (h : Charts paths u (before ++ after)) (hx : ¬ Covers paths (u ++ [b.frame.slot]))
    (hp : slots path = u ++ b.frame.slot :: t)
    (hb : b.Stands (paths ++ [path]) (u ++ [b.frame.slot]))
    (hl : ∀ c ∈ before, c.frame.position ≤ b.frame.position)
    (hr : ∀ c ∈ after, b.frame.position < c.frame.position) :
    Charts (paths ++ [path]) u (before ++ b :: after) := by
  have ho := h.ordered_append path
  rw [List.map_append, List.pairwise_append] at ho
  obtain ⟨hbefore, hafter, hacross⟩ := ho
  have hlast : ∀ c ∈ before, Before (paths ++ [path]) u c.frame.slot b.frame.slot := by
    intro c hc
    have hcov := (h.stands (List.mem_append_left after hc)).covers
    have hlt := firstIndex_lt_iff.mpr hcov
    have hle := le_firstIndex_of_not_covers hx path
    rcases Nat.lt_or_eq_of_le (hl c hc) with hpos | hpos
    · exact .inl hpos
    · refine .inr ⟨hpos, ?_⟩
      rw [firstIndex_of_covers hcov]
      omega
  refine of_insertion hp hb (fun c hc => ⟨fun he => hx ?_, h.stands hc⟩)
    (fun x _ hcov => h.complete hcov) ?_
  · rw [← he]
    exact (h.stands hc).covers
  · rw [List.map_append, List.map_cons, List.pairwise_append, List.pairwise_cons]
    refine ⟨hbefore, ⟨?_, hafter⟩, ?_⟩
    · intro x hxm
      obtain ⟨c, hc, rfl⟩ := List.mem_map.mp hxm
      exact .inl (hr c hc)
    · intro x hxm y hym
      rcases List.mem_cons.mp hym with rfl | hym
      · obtain ⟨c, hc, rfl⟩ := List.mem_map.mp hxm
        exact hlast c hc
      · exact hacross x hxm y hym

theorem graft (first : RecipePath) (h : Charts paths (slots first) level) :
    Charts (paths ++ [first ++ rest]) (slots first) (Branch.graft rest level) := by
  induction rest generalizing first level with
  | nil =>
    refine h.append_elsewhere fun x hx => ?_
    have hl := hx.length_le
    rw [List.append_nil, List.length_append, List.length_singleton] at hl
    omega
  | cons f rest ih =>
    have hs : slots (first ++ [f]) = slots first ++ [f.slot] := slots_append first [f]
    have hp : slots (first ++ f :: rest) = slots first ++ f.slot :: slots rest :=
      slots_append first (f :: rest)
    have hp' : slots (first ++ f :: rest) = (slots first ++ [f.slot]) ++ slots rest := by
      rw [hp, List.append_cons]
    have hbelow : ∀ {level}, Charts paths (slots first ++ [f.slot]) level →
        Charts (paths ++ [first ++ f :: rest]) (slots first ++ [f.slot])
          (Branch.graft rest level) := by
      intro level hl
      have hi := ih (first ++ [f]) (hs ▸ hl)
      rwa [hs, ← List.append_cons] at hi
    rw [Branch.graft]
    -- A slot that some path has been through has its branch here, and the new path goes on in it.
    -- Any other slot opens a branch, which comes last of its position, as its path does.
    by_cases hx : Covers paths (slots first ++ [f.slot])
    · obtain ⟨b, hb, hbf⟩ := h.complete hx
      obtain ⟨before, after, rfl⟩ := List.append_of_mem hb
      have hst := h.stands hb
      rw [hbf] at hst
      rw [place_of_mem hbf fun c hc => ⟨hbf ▸ h.ne_of_mem (List.mem_append_left _ hc),
        (h.position_le_of_mem hc).trans_eq (congrArg Prod.fst hbf)⟩]
      exact h.replaced rfl (hbf ▸ hp) (hbf ▸ hst.grow hp' (hbelow hst.below))
    · have hne : ∀ b ∈ level, b.frame.slot ≠ f.slot :=
        fun b hb he => hx (he ▸ (h.stands hb).covers)
      obtain ⟨before, after, rfl, hplace, hl, hr⟩ :=
        place_of_not_mem
          (fun b => ⟨b.frame, b.direct || rest.isEmpty, Branch.graft rest b.children⟩) hne
          h.pairwise_position_le
      have hf : (first ++ f :: rest)[(slots first ++ [f.slot]).length - 1]? = some f := by
        simp [slots]
      rw [hplace]
      exact h.inserted hx hp (.sprout hx hp' hf (hbelow (of_not_covers hx))) hl hr

end Charts

end Branch

theorem charts_forest (paths : List RecipePath) : Branch.Charts paths [] (forest paths) := by
  induction paths using List.reverseRecOn with
  | nil => exact .of_not_covers (by simp [Covers])
  | append_singleton paths path ih =>
    rw [forest_append_singleton]
    exact Branch.Charts.graft [] ih

end Codemod
