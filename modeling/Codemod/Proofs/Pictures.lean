import Codemod.Proofs.Depiction

namespace Codemod

def sites (paths : List RecipePath) : List Site :=
  (forest paths).flatMap Site.exposed

section
variable {paths : List RecipePath} {t : Site} {s : List Slot} {b : Branch}

theorem descriptors_eq_map_sites (p : Provenance) :
    p.descriptors = (sites p.paths).map Site.descriptor := by
  simp only [Provenance.descriptors, sites, List.map_flatMap, Site.map_exposed]

theorem stands_of_mem_forest (h : b ∈ forest paths) : b.Stands paths [b.frame.slot] :=
  (charts_forest paths).stands h

theorem ordered_sites (paths : List RecipePath) : Site.Ordered paths (sites paths) where
  stands t ht := by
    obtain ⟨b, hb, ht⟩ := List.mem_flatMap.mp ht
    exact (Site.Stands.exposed (stands_of_mem_forest hb)).stands t ht
  pairwise := by
    refine List.pairwise_flatMap.mpr ⟨fun b hb => ?_, ?_⟩
    · exact (Site.Stands.exposed (stands_of_mem_forest hb)).pairwise
    · refine (List.pairwise_map.mp (charts_forest paths).ordered).imp fun hb r hr t ht => ?_
      have hp : Precedes paths _ _ := hb.precedes [] []
      exact hp.mono (Site.starts_of_mem_exposed hr) (Site.starts_of_mem_exposed ht)

theorem top_of_mem_sites (h : t ∈ sites paths) :
    (∃ x, t.slots = [x] ∧ Shown paths [x]) ∨
      ∃ root x, t.slots = [root, x] ∧ ¬ Shown paths [root] := by
  obtain ⟨b, hb, ht⟩ := List.mem_flatMap.mp h
  have hs := stands_of_mem_forest hb
  rcases Site.of_mem_exposed ht with ⟨ht, hd⟩ | ⟨x, ht, hd⟩
  · exact .inl ⟨_, ht, by simp, hs.covers, fun _ => hs.direct.mp hd⟩
  · exact .inr ⟨_, x, ht, fun hn => hd (hs.direct.mpr (hn.2.2 rfl))⟩

theorem exists_site_of_shown (h : Shown paths s) : ∃ t ∈ sites paths, t.slots <+: s := by
  obtain ⟨hne, hc, he⟩ := h
  obtain ⟨x, v, rfl⟩ := List.exists_cons_of_ne_nil hne
  obtain ⟨b, hb, rfl⟩ :=
    (charts_forest paths).complete (hc.mono (List.prefix_append [x] v))
  have hs := stands_of_mem_forest hb
  by_cases hd : b.direct = true
  · refine ⟨⟨[b.frame.slot], b⟩, List.mem_flatMap.mpr ⟨b, hb, ?_⟩, List.prefix_append _ v⟩
    simp [Site.exposed, hd]
  · cases v with
    | nil => exact absurd (hs.direct.mpr (he rfl)) hd
    | cons y v =>
      obtain ⟨t, ht, hts⟩ := Site.Stands.exists_below (r := ⟨_, b⟩) hs
        (hc.mono (List.prefix_append [b.frame.slot, y] v))
      refine ⟨t, List.mem_flatMap.mpr ⟨b, hb, ?_⟩, ?_⟩
      · simpa [Site.exposed, hd] using ht
      · rw [hts]
        exact List.prefix_append [b.frame.slot, y] v

theorem shown_from (h : t ∈ sites paths) (hp : t.slots <+: s) (hc : Covers paths s) :
    Shown paths s := by
  obtain ⟨v, rfl⟩ := hp
  rcases top_of_mem_sites h with ⟨x, ht, hs⟩ | ⟨root, x, ht, -⟩
  · rw [ht] at hc ⊢
    refine ⟨by simp, hc, fun hl => ?_⟩
    cases v with
    | nil => exact hs.2.2 rfl
    | cons y v => simp at hl
  · rw [ht] at hc ⊢
    exact ⟨by simp, hc, by simp⟩

end

structure Pictures (paths : List RecipePath) (nodes : List Descriptor)
    (place : List Nat → List Slot) : Prop where
  shown : ∀ {a d}, Descriptor.find? nodes a = some d → Shown paths (place a)
  one_to_one : ∀ {a b d e}, Descriptor.find? nodes a = some d → Descriptor.find? nodes b = some e →
    place a = place b → a = b
  onto : ∀ {s}, Shown paths s → ∃ a d, Descriptor.find? nodes a = some d ∧ place a = s
  parent : ∀ {a i d}, a ≠ [] → Descriptor.find? nodes (a ++ [i]) = some d →
    ∃ x, place (a ++ [i]) = place a ++ [x]
  top : ∀ {i d}, Descriptor.find? nodes [i] = some d →
    (∃ x, place [i] = [x]) ∨ ∃ root x, place [i] = [root, x] ∧ ¬ Shown paths [root]
  named : ∀ {a d}, Descriptor.find? nodes a = some d → ∃ f, frameAt? paths (place a) = some f ∧
    (place a).getLast? = some f.slot ∧ d.name = f.name ∧ d.displayName = f.displayName
  childless : ∀ {a d}, Descriptor.find? nodes a = some d → d.children = [] → Ends paths (place a)
  ordered : ∀ {a i j d e}, Descriptor.find? nodes (a ++ [i]) = some d →
    Descriptor.find? nodes (a ++ [j]) = some e → i < j →
    Precedes paths (place (a ++ [i])) (place (a ++ [j]))

def slotsAt (paths : List RecipePath) (a : List Nat) : List Slot :=
  ((Site.find? (sites paths) a).map Site.slots).getD []

section
variable {p : Provenance} {paths : List RecipePath} {a : List Nat} {d : Descriptor} {t : Site}
variable {i : Nat} {s : List Slot}

theorem exists_site (h : Descriptor.find? p.descriptors a = some d) :
    ∃ t, Site.find? (sites p.paths) a = some t ∧ t.descriptor = d ∧
      slotsAt p.paths a = t.slots := by
  rw [descriptors_eq_map_sites, Site.find?_descriptor] at h
  obtain ⟨t, ht, hd⟩ := Option.map_eq_some_iff.mp h
  exact ⟨t, ht, hd, by rw [slotsAt, ht]; rfl⟩

theorem root_of_find? (h : Site.find? (sites paths) a = some t) :
    ∃ i rest r, a = i :: rest ∧ (sites paths)[i]? = some r ∧ r ∈ sites paths ∧ r.Stands paths ∧
      r.get? rest = some t := by
  cases a with
  | nil => cases h
  | cons i rest =>
    obtain ⟨r, hr, ht⟩ := Option.bind_eq_some_iff.mp h
    have hm := List.mem_of_getElem? hr
    exact ⟨i, rest, r, rfl, hr, hm, (ordered_sites paths).stands r hm, ht⟩

theorem stands_of_find? (h : Site.find? (sites paths) a = some t) : t.Stands paths := by
  obtain ⟨i, rest, r, rfl, -, -, hs, ht⟩ := root_of_find? h
  exact hs.get? ht

theorem shown_of_find? (h : Site.find? (sites paths) a = some t) : Shown paths t.slots := by
  obtain ⟨i, rest, r, rfl, -, hm, hs, ht⟩ := root_of_find? h
  exact shown_from hm (Site.slots_of_get? ht).1 (Branch.Stands.covers (hs.get? ht))

theorem find?_concat (ha : a ≠ []) (h : Site.find? (sites paths) (a ++ [i]) = some t) :
    ∃ r, Site.find? (sites paths) a = some r ∧ r.below[i]? = some t := by
  rw [Site.find?_append ha] at h
  obtain ⟨r, hr, ht⟩ := Option.bind_eq_some_iff.mp h
  exact ⟨r, hr, by rwa [Site.get?_singleton] at ht⟩

theorem address_eq {b : List Nat} {t' : Site} (h : Site.find? (sites paths) a = some t)
    (h' : Site.find? (sites paths) b = some t') (hs : t.slots = t'.slots) : a = b := by
  obtain ⟨i, rest, r, rfl, hr, -, hst, ht⟩ := root_of_find? h
  obtain ⟨j, rest', r', rfl, hr', -, -, ht'⟩ := root_of_find? h'
  have hp' : r'.slots <+: t.slots := hs ▸ (Site.slots_of_get? ht').1
  obtain rfl := (ordered_sites paths).index_eq hr hr' (Site.slots_of_get? ht).1 hp'
  obtain rfl := Option.some.inj (hr.symm.trans hr')
  rw [hst.address_eq ht ht' hs]

theorem exists_address (h : Shown paths s) :
    ∃ a t, Site.find? (sites paths) a = some t ∧ t.slots = s := by
  obtain ⟨r, hm, hp⟩ := exists_site_of_shown h
  obtain ⟨i, hi⟩ := List.mem_iff_getElem?.mp hm
  obtain ⟨rest, t, ht, hts⟩ := ((ordered_sites paths).stands r hm).exists_get? hp h.2.1
  exact ⟨i :: rest, t, by rw [Site.find?, hi, Option.bind_some, ht], hts⟩

theorem precedes_of_find? {j : Nat} {t' : Site} (hij : i < j)
    (h : Site.find? (sites paths) (a ++ [i]) = some t)
    (h' : Site.find? (sites paths) (a ++ [j]) = some t') : Precedes paths t.slots t'.slots := by
  by_cases ha : a = []
  · subst ha
    rw [List.nil_append, Site.find?_singleton] at h h'
    exact (ordered_sites paths).precedes hij h h'
  · obtain ⟨r, hr, ht⟩ := find?_concat ha h
    obtain ⟨r', hr', ht'⟩ := find?_concat ha h'
    obtain rfl := Option.some.inj (hr.symm.trans hr')
    exact (stands_of_find? hr).below.precedes hij ht ht'

end

theorem pictures_descriptors (p : Provenance) :
    Pictures p.paths p.descriptors (slotsAt p.paths) where
  shown h := by
    obtain ⟨t, ht, -, hs⟩ := exists_site h
    exact hs ▸ shown_of_find? ht
  one_to_one h h' he := by
    obtain ⟨t, ht, -, hs⟩ := exists_site h
    obtain ⟨t', ht', -, hs'⟩ := exists_site h'
    exact address_eq ht ht' (by rw [← hs, ← hs', he])
  onto h := by
    obtain ⟨a, t, ht, hs⟩ := exists_address h
    refine ⟨a, t.descriptor, ?_, by rw [slotsAt, ht, ← hs]; rfl⟩
    rw [descriptors_eq_map_sites, Site.find?_descriptor, ht]
    rfl
  parent ha h := by
    obtain ⟨t, ht, -, hs⟩ := exists_site h
    obtain ⟨r, hr, htr⟩ := find?_concat ha ht
    obtain ⟨x, hx⟩ := Site.exists_of_mem_below (List.mem_of_getElem? htr)
    exact ⟨x, by rw [hs, hx, slotsAt, hr]; rfl⟩
  top h := by
    obtain ⟨t, ht, -, hs⟩ := exists_site h
    rw [Site.find?_singleton] at ht
    rw [hs]
    exact (top_of_mem_sites (List.mem_of_getElem? ht)).imp_left fun ⟨x, hx, _⟩ => ⟨x, hx⟩
  named h := by
    obtain ⟨t, ht, rfl, hs⟩ := exists_site h
    rw [hs]
    have hf := (stands_of_find? ht).framed
    exact ⟨t.branch.frame, hf, getLast?_of_frameAt? hf (shown_of_find? ht).1, t.name_descriptor,
      t.displayName_descriptor⟩
  childless h hn := by
    obtain ⟨t, ht, rfl, hs⟩ := exists_site h
    exact hs ▸ (stands_of_find? ht).ends_of_childless hn
  ordered h h' hij := by
    obtain ⟨t, ht, -, hs⟩ := exists_site h
    obtain ⟨t', ht', -, hs'⟩ := exists_site h'
    rw [hs, hs']
    exact precedes_of_find? hij ht ht'

namespace Branch

mutual
def trail (s : List Slot) : Branch → List (List Slot)
  | ⟨_, _, children⟩ => s :: trails s children

def trails (u : List Slot) : List Branch → List (List Slot)
  | [] => []
  | b :: bs => trail (u ++ [b.frame.slot]) b ++ trails u bs
end

theorem trail_eq_cons (s : List Slot) (b : Branch) : trail s b = s :: trails s b.children := by
  cases b
  rfl

theorem trails_eq_flatMap (u : List Slot) (bs : List Branch) :
    trails u bs = bs.flatMap fun b => trail (u ++ [b.frame.slot]) b := by
  induction bs with
  | nil => rfl
  | cons b bs ih => rw [trails, ih, List.flatMap_cons]

end Branch

def Earlier (paths : List RecipePath) (s t : List Slot) : Prop :=
  (s <+: t ∧ s ≠ t) ∨ Precedes paths s t

theorem Earlier.ne {paths : List RecipePath} {s t : List Slot} (h : Earlier paths s t) : s ≠ t := by
  rintro rfl
  rcases h with ⟨-, h⟩ | h
  · exact h rfl
  · exact not_precedes_self h

namespace Branch
variable {paths : List RecipePath} {s t u : List Slot} {b : Branch} {level : List Branch}

theorem Charts.mem_trails (h : Charts paths u level) :
    t ∈ trails u level ↔ (u <+: t ∧ u ≠ t) ∧ Covers paths t := by
  induction h generalizing t with
  | @mk u level complete framed direct ordered below ih =>
    rw [trails_eq_flatMap, List.mem_flatMap]
    constructor
    · rintro ⟨b, hb, ht⟩
      have hu : u <+: u ++ [b.frame.slot] := List.prefix_append _ _
      rw [trail_eq_cons, List.mem_cons, ih b hb] at ht
      rcases ht with rfl | ⟨⟨hp, -⟩, hc⟩
      · exact ⟨⟨hu, by simp⟩, covers_of_frameAt? (framed b hb)⟩
      · refine ⟨⟨hu.trans hp, fun he => ?_⟩, hc⟩
        have hl := hp.length_le
        rw [← he, List.length_append, List.length_singleton] at hl
        omega
    · rintro ⟨⟨⟨v, rfl⟩, hne⟩, hc⟩
      cases v with
      | nil => simp at hne
      | cons x v =>
        rw [List.append_cons] at hc ⊢
        obtain ⟨b, hb, rfl⟩ := complete x (hc.mono (List.prefix_append _ v))
        refine ⟨b, hb, ?_⟩
        rw [trail_eq_cons, List.mem_cons, ih b hb]
        cases v with
        | nil => exact .inl (by simp)
        | cons y v => exact .inr ⟨⟨List.prefix_append _ _, by simp⟩, hc⟩

theorem Stands.mem_trail (h : b.Stands paths s) :
    t ∈ trail s b ↔ s <+: t ∧ Covers paths t := by
  rw [trail_eq_cons, List.mem_cons, h.below.mem_trails]
  constructor
  · rintro (rfl | ⟨⟨hp, -⟩, hc⟩)
    · exact ⟨List.prefix_refl _, h.covers⟩
    · exact ⟨hp, hc⟩
  · rintro ⟨hp, hc⟩
    by_cases he : s = t
    · exact .inl he.symm
    · exact .inr ⟨⟨hp, he⟩, hc⟩

theorem Charts.pairwise_trails (h : Charts paths u level) :
    (trails u level).Pairwise (Earlier paths) := by
  induction h with
  | @mk u level complete framed direct ordered below ih =>
    have h : Charts paths u level := .mk complete framed direct ordered below
    rw [trails_eq_flatMap, List.pairwise_flatMap]
    refine ⟨fun b hb => ?_, ?_⟩
    · rw [trail_eq_cons, List.pairwise_cons]
      exact ⟨fun t ht => .inl ((below b hb).mem_trails.mp ht).1, ih b hb⟩
    · refine (List.pairwise_map.mp ordered).imp_of_mem fun hb hc hbc s hs t ht => .inr ?_
      have hp : Precedes paths _ _ := hbc.precedes [] []
      rw [List.append_nil, List.append_nil] at hp
      exact hp.mono ((h.stands hb).mem_trail.mp hs).1 ((h.stands hc).mem_trail.mp ht).1

theorem Stands.pairwise_trail (h : b.Stands paths s) : (trail s b).Pairwise (Earlier paths) := by
  rw [trail_eq_cons, List.pairwise_cons]
  exact ⟨fun t ht => .inl (h.below.mem_trails.mp ht).1, h.below.pairwise_trails⟩

mutual
theorem names_descriptor (s : List Slot) (b : Branch) (hs : s.getLast? = some b.frame.slot) :
    b.descriptor.names = (trail s b).filterMap lastName? := by
  obtain ⟨f, d, children⟩ := b
  have hn : lastName? s = some f.name := by rw [lastName?, hs]; rfl
  rw [descriptor, Descriptor.names, names_descriptors s children, trail, List.filterMap_cons, hn]

theorem names_descriptors (u : List Slot) (bs : List Branch) :
    Descriptor.namesOf (descriptors bs) = (trails u bs).filterMap lastName? := by
  cases bs with
  | nil => rfl
  | cons b bs =>
    rw [descriptors, Descriptor.namesOf, trails, List.filterMap_append,
      names_descriptor (u ++ [b.frame.slot]) b (by simp), names_descriptors u bs]
end

end Branch

def listing (paths : List RecipePath) : List (List Slot) :=
  (sites paths).flatMap fun t => t.branch.trail t.slots

section
variable {paths : List RecipePath} {s : List Slot}

theorem mem_listing : s ∈ listing paths ↔ Shown paths s := by
  rw [listing, List.mem_flatMap]
  constructor
  · rintro ⟨t, ht, hs⟩
    obtain ⟨hp, hc⟩ := ((ordered_sites paths).stands t ht).mem_trail.mp hs
    exact shown_from ht hp hc
  · intro h
    obtain ⟨t, ht, hp⟩ := exists_site_of_shown h
    exact ⟨t, ht, ((ordered_sites paths).stands t ht).mem_trail.mpr ⟨hp, h.2.1⟩⟩

theorem pairwise_listing (paths : List RecipePath) : (listing paths).Pairwise (Earlier paths) := by
  have ho := ordered_sites paths
  refine List.pairwise_flatMap.mpr ⟨fun t ht => (ho.stands t ht).pairwise_trail, ?_⟩
  refine ho.pairwise.imp_of_mem fun hr ht hp s hs t' ht' => .inr ?_
  exact hp.mono ((ho.stands _ hr).mem_trail.mp hs).1 ((ho.stands _ ht).mem_trail.mp ht').1

theorem recipeNames_eq (p : Provenance) :
    p.recipeNames = ((listing p.paths).filterMap lastName?).eraseDups := by
  have hn : ∀ t ∈ sites p.paths,
      t.descriptor.names = (t.branch.trail t.slots).filterMap lastName? := by
    intro t ht
    have hs := (ordered_sites p.paths).stands t ht
    have hne := (shown_from ht (List.prefix_refl _) (Branch.Stands.covers hs)).1
    exact t.branch.names_descriptor _ (getLast?_of_frameAt? hs.framed hne)
  rw [Provenance.recipeNames, descriptors_eq_map_sites, List.flatMap_map, listing,
    List.filterMap_flatMap]
  exact congrArg List.eraseDups (List.flatMap_congr hn)

end

theorem Provenance.descriptors_picture_paths (p : Provenance) :
    (∃ place, Pictures p.paths p.descriptors place) ∧
      ∃ order : List (List Slot), order.Pairwise (Earlier p.paths) ∧ order.Nodup ∧
        (∀ s, s ∈ order ↔ Shown p.paths s) ∧
        p.recipeNames = (order.filterMap lastName?).eraseDups := by
  refine ⟨⟨_, pictures_descriptors p⟩, listing p.paths, pairwise_listing p.paths, ?_, ?_,
    recipeNames_eq p⟩
  · exact (pairwise_listing p.paths).imp Earlier.ne
  · exact fun s => mem_listing

end Codemod
