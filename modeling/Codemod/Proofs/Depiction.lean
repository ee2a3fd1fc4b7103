import Codemod.Proofs.Charting

namespace Codemod

namespace Descriptor

def get? (d : Descriptor) : List Nat → Option Descriptor
  | [] => some d
  | i :: rest => d.children[i]?.bind fun child => child.get? rest

def find? (forest : List Descriptor) : List Nat → Option Descriptor
  | [] => none
  | i :: rest => forest[i]?.bind fun root => root.get? rest

end Descriptor

section
variable {paths : List RecipePath} {s t u : List Slot} {x y : Slot}

/-- The slots that a forest shows: all that the paths come through, except for the roots where no
path ends. -/
def Shown (paths : List RecipePath) (s : List Slot) : Prop :=
  s ≠ [] ∧ Covers paths s ∧ (s.length = 1 → Ends paths s)

def Precedes (paths : List RecipePath) (s t : List Slot) : Prop :=
  ∃ u x y v w, s = u ++ x :: v ∧ t = u ++ y :: w ∧ Before paths u x y

def lastName? (s : List Slot) : Option String :=
  s.getLast?.map Prod.snd

theorem Before.precedes (h : Before paths u x y) (v w : List Slot) :
    Precedes paths (u ++ [x] ++ v) (u ++ [y] ++ w) :=
  ⟨u, x, y, v, w, by simp, by simp, h⟩

theorem Precedes.append (h : Precedes paths s t) (v w : List Slot) :
    Precedes paths (s ++ v) (t ++ w) := by
  obtain ⟨u, x, y, v', w', rfl, rfl, hb⟩ := h
  exact ⟨u, x, y, v' ++ v, w' ++ w, by simp, by simp, hb⟩

theorem Precedes.mono {s' t' : List Slot} (h : Precedes paths s t) (hs : s <+: s')
    (ht : t <+: t') : Precedes paths s' t' := by
  obtain ⟨v, rfl⟩ := hs
  obtain ⟨w, rfl⟩ := ht
  exact h.append v w

theorem not_precedes_self : ¬ Precedes paths s s := by
  rintro ⟨u, x, y, v, w, rfl, he, hb⟩
  obtain ⟨rfl, -⟩ := List.cons.inj (List.append_cancel_left he)
  exact not_before_self hb

theorem getLast?_of_frameAt? {f : Frame} (h : frameAt? paths s = some f) (hs : s ≠ []) :
    s.getLast? = some f.slot := by
  obtain ⟨path, hp, hf⟩ := Option.bind_eq_some_iff.mp h
  obtain ⟨v, hv⟩ : s <+: slots path := by simpa using List.find?_some hp
  have hl : s.length - 1 < s.length := by
    have := List.length_pos_of_ne_nil hs
    omega
  have hg : (slots path)[s.length - 1]? = some f.slot := by simp [slots, hf]
  rwa [← hv, List.getElem?_append_left hl, ← List.getLast?_eq_getElem?] at hg

end

structure Site where
  slots : List Slot
  branch : Branch

namespace Site

def below (t : Site) : List Site :=
  t.branch.children.map fun b => ⟨t.slots ++ [b.frame.slot], b⟩

def descriptor (t : Site) : Descriptor :=
  t.branch.descriptor

def get? (t : Site) : List Nat → Option Site
  | [] => some t
  | i :: rest => t.below[i]?.bind fun child => child.get? rest

def find? (sites : List Site) : List Nat → Option Site
  | [] => none
  | i :: rest => sites[i]?.bind fun root => root.get? rest

def exposed (b : Branch) : List Site :=
  let root : Site := ⟨[b.frame.slot], b⟩
  if b.direct then [root] else root.below

variable {paths : List RecipePath} {r t : Site} {sites : List Site} {a rest : List Nat} {i j : Nat}
variable {x : Slot} {s : List Slot}

theorem children_descriptor (t : Site) : t.descriptor.children = t.below.map descriptor := by
  obtain ⟨s, f, d, children⟩ := t
  simp [descriptor, below, Branch.descriptor, Branch.descriptors_eq_map, Function.comp_def]

theorem name_descriptor (t : Site) : t.descriptor.name = t.branch.frame.name := by
  obtain ⟨s, f, d, children⟩ := t
  rfl

theorem displayName_descriptor (t : Site) :
    t.descriptor.displayName = t.branch.frame.displayName := by
  obtain ⟨s, f, d, children⟩ := t
  rfl

theorem map_exposed (b : Branch) : (exposed b).map descriptor = b.exposed := by
  unfold exposed Branch.exposed
  split
  · rfl
  · simp [below, Branch.descriptors_eq_map, Function.comp_def, descriptor]

theorem get?_descriptor (t : Site) (a : List Nat) :
    t.descriptor.get? a = (t.get? a).map descriptor := by
  induction a generalizing t with
  | nil => rfl
  | cons i rest ih =>
    rw [get?, Descriptor.get?, children_descriptor, List.getElem?_map]
    cases t.below[i]? with
    | none => rfl
    | some child => exact ih child

theorem find?_descriptor (sites : List Site) (a : List Nat) :
    Descriptor.find? (sites.map descriptor) a = (find? sites a).map descriptor := by
  cases a with
  | nil => rfl
  | cons i rest =>
    rw [find?, Descriptor.find?, List.getElem?_map]
    cases sites[i]? with
    | none => rfl
    | some root => exact get?_descriptor root rest

theorem get?_append (t : Site) (a rest : List Nat) :
    t.get? (a ++ rest) = (t.get? a).bind fun child => child.get? rest := by
  induction a generalizing t with
  | nil => rfl
  | cons i a ih =>
    rw [List.cons_append, get?, get?]
    cases t.below[i]? with
    | none => rfl
    | some child => exact ih child

theorem find?_append (ha : a ≠ []) (rest : List Nat) :
    find? sites (a ++ rest) = (find? sites a).bind fun child => child.get? rest := by
  cases a with
  | nil => exact absurd rfl ha
  | cons i a =>
    rw [List.cons_append, find?, find?]
    cases sites[i]? with
    | none => rfl
    | some root => exact get?_append root a rest

theorem get?_singleton (t : Site) (i : Nat) : t.get? [i] = t.below[i]? := by
  rw [get?]
  cases t.below[i]? <;> rfl

theorem find?_singleton (sites : List Site) (i : Nat) : find? sites [i] = sites[i]? := by
  rw [find?]
  cases sites[i]? <;> rfl

theorem exists_of_mem_below (h : t ∈ r.below) : ∃ x, t.slots = r.slots ++ [x] := by
  obtain ⟨b, -, rfl⟩ := List.mem_map.mp h
  exact ⟨_, rfl⟩

theorem slots_of_get? (h : r.get? a = some t) :
    r.slots <+: t.slots ∧ t.slots.length = r.slots.length + a.length := by
  induction a generalizing r with
  | nil =>
    cases h
    exact ⟨List.prefix_refl _, rfl⟩
  | cons i a ih =>
    obtain ⟨child, hc, h⟩ := Option.bind_eq_some_iff.mp h
    obtain ⟨x, hx⟩ := exists_of_mem_below (List.mem_of_getElem? hc)
    obtain ⟨hp, hl⟩ := ih h
    rw [hx] at hp hl
    refine ⟨(List.prefix_append _ _).trans hp, ?_⟩
    rw [hl, List.length_append, List.length_singleton, List.length_cons]
    omega

def Stands (paths : List RecipePath) (t : Site) : Prop :=
  t.branch.Stands paths t.slots

structure Ordered (paths : List RecipePath) (sites : List Site) : Prop where
  stands : ∀ t ∈ sites, t.Stands paths
  pairwise : sites.Pairwise fun s t => Precedes paths s.slots t.slots

namespace Stands

theorem below (h : r.Stands paths) : Ordered paths r.below where
  stands t ht := by
    obtain ⟨b, hb, rfl⟩ := List.mem_map.mp ht
    exact Branch.Stands.below h |>.stands hb
  pairwise := by
    have ho := (Branch.Stands.below h).ordered
    rw [List.pairwise_map] at ho
    rw [Site.below, List.pairwise_map]
    exact ho.imp fun hb => by simpa using hb.precedes [] []

theorem exists_below (h : r.Stands paths) (hx : Covers paths (r.slots ++ [x])) :
    ∃ t ∈ r.below, t.slots = r.slots ++ [x] := by
  obtain ⟨b, hb, rfl⟩ := (Branch.Stands.below h).complete hx
  exact ⟨_, List.mem_map_of_mem hb, rfl⟩

theorem get? (h : r.Stands paths) (ht : r.get? a = some t) : t.Stands paths := by
  induction a generalizing r with
  | nil =>
    cases ht
    exact h
  | cons i a ih =>
    obtain ⟨child, hc, ht⟩ := Option.bind_eq_some_iff.mp ht
    exact ih (h.below.stands child (List.mem_of_getElem? hc)) ht

theorem exists_get? (h : r.Stands paths) (hs : r.slots <+: s) (hc : Covers paths s) :
    ∃ a t, r.get? a = some t ∧ t.slots = s := by
  obtain ⟨v, rfl⟩ := hs
  induction v generalizing r with
  | nil => exact ⟨[], r, rfl, by simp⟩
  | cons x v ih =>
    rw [List.append_cons] at hc ⊢
    obtain ⟨child, hm, hx⟩ := h.exists_below (hc.mono (List.prefix_append _ v))
    obtain ⟨i, hi⟩ := List.mem_iff_getElem?.mp hm
    rw [← hx] at hc ⊢
    obtain ⟨a, t, ht, hts⟩ := ih (h.below.stands child hm) hc
    exact ⟨i :: a, t, by rw [Site.get?, hi, Option.bind_some, ht], hts⟩

theorem ends_of_childless (h : t.Stands paths) (hn : t.descriptor.children = []) :
    Ends paths t.slots := by
  obtain ⟨path, hm, v, hv⟩ := Branch.Stands.covers h
  cases v with
  | nil => exact ⟨path, hm, by rw [← hv, List.append_nil]⟩
  | cons x v =>
    have hx : Covers paths (t.slots ++ [x]) := ⟨path, hm, v, by rw [← hv, ← List.append_cons]⟩
    obtain ⟨child, hc, -⟩ := h.exists_below hx
    rw [children_descriptor, List.map_eq_nil_iff] at hn
    rw [hn] at hc
    simp at hc

end Stands

namespace Ordered

theorem index_eq (h : Ordered paths sites) (hr : sites[i]? = some r) (ht : sites[j]? = some t)
    (hrs : r.slots <+: s) (hts : t.slots <+: s) : i = j := by
  have hp := List.pairwise_iff_getElem.mp h.pairwise
  obtain ⟨hi, rfl⟩ := List.getElem?_eq_some_iff.mp hr
  obtain ⟨hj, rfl⟩ := List.getElem?_eq_some_iff.mp ht
  rcases Nat.lt_trichotomy i j with hlt | rfl | hlt
  · exact absurd ((hp i j hi hj hlt).mono hrs hts) not_precedes_self
  · rfl
  · exact absurd ((hp j i hj hi hlt).mono hts hrs) not_precedes_self

theorem precedes (h : Ordered paths sites) (hij : i < j) (hr : sites[i]? = some r)
    (ht : sites[j]? = some t) : Precedes paths r.slots t.slots := by
  obtain ⟨hi, rfl⟩ := List.getElem?_eq_some_iff.mp hr
  obtain ⟨hj, rfl⟩ := List.getElem?_eq_some_iff.mp ht
  exact List.pairwise_iff_getElem.mp h.pairwise i j hi hj hij

end Ordered

theorem Stands.address_eq {b : List Nat} {t' : Site} (h : r.Stands paths) (ht : r.get? a = some t)
    (ht' : r.get? b = some t') (hs : t.slots = t'.slots) : a = b := by
  have hl : a.length = b.length := by
    have hl := (slots_of_get? ht).2
    have hl' := (slots_of_get? ht').2
    rw [hs] at hl
    omega
  induction a generalizing r b with
  | nil => exact (List.length_eq_zero_iff.mp hl.symm).symm
  | cons i a ih =>
    cases b with
    | nil => simp at hl
    | cons j b =>
      obtain ⟨child, hc, ht⟩ := Option.bind_eq_some_iff.mp ht
      obtain ⟨child', hc', ht'⟩ := Option.bind_eq_some_iff.mp ht'
      obtain rfl := h.below.index_eq hc hc' (slots_of_get? ht).1 (hs ▸ (slots_of_get? ht').1)
      obtain rfl := Option.some.inj (hc.symm.trans hc')
      rw [ih (h.below.stands child (List.mem_of_getElem? hc)) ht ht' (by simpa using hl)]

theorem of_mem_exposed {b : Branch} (h : t ∈ exposed b) :
    t.slots = [b.frame.slot] ∧ b.direct = true ∨
      ∃ x, t.slots = [b.frame.slot, x] ∧ ¬ b.direct = true := by
  unfold exposed at h
  split at h
  case isTrue hd =>
    cases List.mem_singleton.mp h
    exact .inl ⟨rfl, hd⟩
  case isFalse hd =>
    obtain ⟨x, hx⟩ := exists_of_mem_below h
    exact .inr ⟨x, hx, hd⟩

theorem starts_of_mem_exposed {b : Branch} (h : t ∈ exposed b) :
    [b.frame.slot] <+: t.slots := by
  rcases of_mem_exposed h with ⟨ht, -⟩ | ⟨x, ht, -⟩
  · rw [ht]
  · rw [ht]
    exact List.prefix_append [b.frame.slot] [x]

theorem Stands.exposed {b : Branch} (h : b.Stands paths [b.frame.slot]) :
    Ordered paths (exposed b) := by
  unfold Site.exposed
  split
  · refine ⟨fun t ht => ?_, List.pairwise_singleton _ _⟩
    cases List.mem_singleton.mp ht
    exact h
  · exact Stands.below (r := ⟨_, b⟩) h

end Site

end Codemod
