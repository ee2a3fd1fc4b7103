import Codemod.Marker

namespace Codemod

/-- What a set keeps one marker of. Search results have no key, a set may hold any number. -/
inductive Marker.Key where
  | provenance
  | custom (key : String)
deriving DecidableEq, Repr

def Marker.key? : Marker → Option Marker.Key
  | .searchResult _ => none
  | .recipesThatMadeChanges _ => some .provenance
  | .custom key _ => some (.custom key)

namespace Markers
variable {m n : Markers} {key other : Marker.Key} {new : List Marker}

def under (m : Markers) (key : Marker.Key) : List Marker :=
  m.entries.filter fun e => e.key? = some key

def apart (m : Markers) (key : Marker.Key) : List Marker :=
  m.entries.filter fun e => e.key? ≠ some key

def unkeyed (m : Markers) : List Marker :=
  m.entries.filter fun e => e.key? = none

theorem findSome?_filter {α β : Type} {f : α → Option β} {keep : α → Bool} (l : List α)
    (h : ∀ x, keep x = false → f x = none) : (l.filter keep).findSome? f = l.findSome? f := by
  induction l with
  | nil => rfl
  | cons x l ih =>
    cases hx : keep x with
    | true => rw [List.filter_cons_of_pos hx, List.findSome?_cons, List.findSome?_cons, ih]
    | false => simp [hx, h x hx, ih]

-- Each query looks at the entries under its key only, and the list of search results at those
-- without a key.
theorem provenance?_under (m : Markers) :
    (m.under .provenance).findSome? Marker.provenance? = m.provenance? := by
  refine findSome?_filter _ fun e he => ?_
  cases e <;> simp_all [Marker.key?, Marker.provenance?]

theorem custom?_under (m : Markers) (k : String) :
    (m.under (.custom k)).findSome? (Marker.custom? k) = m.custom? k := by
  refine findSome?_filter _ fun e he => ?_
  cases e <;> simp_all [Marker.key?, Marker.custom?]

theorem searchResults_unkeyed (m : Markers) :
    m.unkeyed.filterMap Marker.searchResult? = m.searchResults := by
  rw [unkeyed, List.filterMap_filter, searchResults]
  congr 1
  funext e
  cases e <;> simp [Marker.key?, Marker.searchResult?]

theorem provenance?_congr (h : m.under .provenance = n.under .provenance) :
    m.provenance? = n.provenance? := by
  rw [← provenance?_under, h, provenance?_under]

theorem custom?_congr {k : String} (h : m.under (.custom k) = n.under (.custom k)) :
    m.custom? k = n.custom? k := by
  rw [← custom?_under, h, custom?_under]

theorem searchResults_congr (h : m.unkeyed = n.unkeyed) : m.searchResults = n.searchResults := by
  rw [← searchResults_unkeyed, h, searchResults_unkeyed]

def replace (m : Markers) (key : Marker.Key) (new : List Marker) : Markers :=
  ⟨m.apart key ++ new⟩

theorem withoutProvenance_eq (m : Markers) : m.withoutProvenance = m.replace .provenance [] := by
  rw [withoutProvenance, replace, apart, List.append_nil]
  congr 1
  refine List.filter_congr fun e _ => ?_
  cases e <;> simp [Marker.key?, Marker.provenance?]

theorem withProvenance_eq (m : Markers) (p : Provenance) :
    m.withProvenance p = m.replace .provenance [.recipesThatMadeChanges p] := by
  rw [withProvenance, withoutProvenance_eq, append, replace, replace, List.append_nil]

theorem withCustom_eq (m : Markers) (k : String) (v : Json) :
    m.withCustom k v = m.replace (.custom k) [.custom k v] := by
  rw [withCustom, append, replace, apart]
  congr 2
  refine List.filter_congr fun e _ => ?_
  cases e with
  | custom key value => by_cases hk : key = k <;> simp [Marker.key?, Marker.custom?, hk]
  | _ => simp [Marker.key?, Marker.custom?]

section
variable (hn : ∀ e ∈ new, e.key? = some key)
include hn

theorem under_replace : (m.replace key new).under key = new := by
  have ha : (m.apart key).filter (fun e => e.key? = some key) = [] := by
    simp [apart]
  have hk : new.filter (fun e => e.key? = some key) = new := by
    simpa [List.filter_eq_self] using hn
  rw [under, replace, List.filter_append, ha, hk, List.nil_append]

theorem filter_replace (keep : Option Marker.Key → Bool) (h : keep (some key) = false) :
    (m.replace key new).entries.filter (fun e => keep e.key?) =
      m.entries.filter fun e => keep e.key? := by
  have ha : (m.apart key).filter (fun e => keep e.key?) = m.entries.filter fun e => keep e.key? := by
    rw [apart, List.filter_filter]
    refine List.filter_congr fun e _ => ?_
    by_cases he : e.key? = some key <;> simp [he, h]
  have hk : new.filter (fun e => keep e.key?) = [] := by
    rw [List.filter_eq_nil_iff]
    intro e he
    simp [hn e he, h]
  rw [replace, List.filter_append, ha, hk, List.append_nil]

theorem under_replace_of_ne (h : other ≠ key) :
    (m.replace key new).under other = m.under other := by
  have hk : decide (some key = some other) = false := by simpa using Ne.symm h
  exact filter_replace hn (fun k => k = some other) hk

theorem apart_replace : (m.replace key new).apart key = m.apart key :=
  filter_replace hn (fun k => k ≠ some key) (by simp)

theorem unkeyed_replace : (m.replace key new).unkeyed = m.unkeyed :=
  filter_replace hn (fun k => k = none) (by simp)

theorem replace_replace (newer : List Marker) :
    (m.replace key new).replace key newer = m.replace key newer := by
  rw [replace, apart_replace hn, replace]

theorem custom?_replace {k : String} (h : .custom k ≠ key) :
    (m.replace key new).custom? k = m.custom? k :=
  custom?_congr (under_replace_of_ne hn h)

theorem provenance?_replace (h : .provenance ≠ key) :
    (m.replace key new).provenance? = m.provenance? :=
  provenance?_congr (under_replace_of_ne hn h)

theorem searchResults_replace : (m.replace key new).searchResults = m.searchResults :=
  searchResults_congr (unkeyed_replace hn)

end

theorem custom?_withCustom (m : Markers) (k : String) (v : Json) :
    (m.withCustom k v).custom? k = some v := by
  have hu : (m.withCustom k v).under (.custom k) = under ⟨[.custom k v]⟩ (.custom k) := by
    rw [withCustom_eq, under_replace (by simp [Marker.key?])]
    simp [under, Marker.key?]
  rw [custom?_congr hu]
  simp [custom?, Marker.custom?]

theorem under_withSearchResult (m : Markers) (d : Option String) (key : Marker.Key) :
    (m.withSearchResult d).under key = m.under key := by
  simp [under, withSearchResult, append, Marker.key?]

inductive Update where
  | provenance (p : Provenance)
  | noProvenance
  | searchResult (description : Option String)
  | custom (key : String) (value : Json)

def update (m : Markers) : Update → Markers
  | .provenance p => m.withProvenance p
  | .noProvenance => m.withoutProvenance
  | .searchResult d => m.withSearchResult d
  | .custom k v => m.withCustom k v

def updateAll (m : Markers) (updates : List Update) : Markers :=
  updates.foldl update m

def IsKeyed (m : Markers) : Prop :=
  ∀ key, (m.under key).length ≤ 1

theorem IsKeyed.replace (h : m.IsKeyed) (hn : ∀ e ∈ new, e.key? = some key)
    (hl : new.length ≤ 1) : (m.replace key new).IsKeyed := by
  intro other
  by_cases ho : other = key
  · rw [ho, under_replace hn]
    exact hl
  · rw [under_replace_of_ne hn ho]
    exact h other

theorem IsKeyed.update (h : m.IsKeyed) (u : Update) : (m.update u).IsKeyed := by
  cases u with
  | provenance p =>
    rw [Markers.update, withProvenance_eq]
    exact h.replace (by simp [Marker.key?]) (by simp)
  | noProvenance =>
    rw [Markers.update, withoutProvenance_eq]
    exact h.replace (by simp) (by simp)
  | searchResult d =>
    intro key
    rw [Markers.update, under_withSearchResult]
    exact h key
  | custom k v =>
    rw [Markers.update, withCustom_eq]
    exact h.replace (by simp [Marker.key?]) (by simp)

theorem IsKeyed.updateAll (h : m.IsKeyed) (updates : List Update) :
    (m.updateAll updates).IsKeyed := by
  induction updates generalizing m with
  | nil => exact h
  | cons u updates ih => exact ih (h.update u)

theorem isKeyed_empty : empty.IsKeyed := fun _ => by simp [under, empty]

/-- An update sets what it names, once and at the end, and keeps all else in its order; what starts
empty never holds two markers under one key. -/
theorem updates_keep_the_rest (m : Markers) (p q : Provenance) (k : String) (v w : Json)
    (d : Option String) :
    ((m.withProvenance p).under .provenance = [.recipesThatMadeChanges p] ∧
      (m.withProvenance p).provenance? = some p ∧
      (m.withProvenance p).entries = m.apart .provenance ++ [.recipesThatMadeChanges p]) ∧
    (m.withoutProvenance.under .provenance = [] ∧ m.withoutProvenance.provenance? = none ∧
      m.withoutProvenance.entries = m.apart .provenance) ∧
    ((m.withCustom k v).under (.custom k) = [.custom k v] ∧
      (m.withCustom k v).custom? k = some v ∧
      (∀ other, other ≠ k → (m.withCustom k v).custom? other = m.custom? other) ∧
      (m.withCustom k v).entries = m.apart (.custom k) ++ [.custom k v]) ∧
    ((∀ key, (m.withProvenance p).custom? key = m.custom? key ∧
        m.withoutProvenance.custom? key = m.custom? key) ∧
      (m.withProvenance p).searchResults = m.searchResults ∧
      m.withoutProvenance.searchResults = m.searchResults) ∧
    (m.withSearchResult d).entries = m.entries ++ [.searchResult d] ∧
    ((m.withCustom k v).provenance? = m.provenance? ∧
      (m.withSearchResult d).provenance? = m.provenance? ∧
      (m.withCustom k v).searchResults = m.searchResults) ∧
    ((m.withProvenance p).withProvenance q = m.withProvenance q ∧
      (m.withCustom k v).withCustom k w = m.withCustom k w) ∧
    ∀ updates, (empty.updateAll updates).IsKeyed := by
  have hp : ∀ e ∈ [Marker.recipesThatMadeChanges p], e.key? = some .provenance := by
    simp [Marker.key?]
  have hk : ∀ e ∈ [Marker.custom k v], e.key? = some (.custom k) := by simp [Marker.key?]
  have h0 : ∀ e ∈ ([] : List Marker), e.key? = some .provenance := by simp
  have hd : (m.withSearchResult d).provenance? = m.provenance? :=
    provenance?_congr (under_withSearchResult m d _)
  rw [withProvenance_eq, withoutProvenance_eq, withCustom_eq]
  refine ⟨⟨under_replace hp, ?_, rfl⟩, ⟨under_replace h0, ?_, ?_⟩, ⟨under_replace hk, ?_, ?_, rfl⟩,
    ⟨fun key => ⟨?_, ?_⟩, ?_, ?_⟩, rfl, ⟨?_, hd, ?_⟩, ⟨?_, ?_⟩, isKeyed_empty.updateAll⟩
  · rw [← withProvenance_eq, provenance?_withProvenance]
  · rw [← withoutProvenance_eq, provenance?_withoutProvenance]
  · rw [replace, List.append_nil]
  · rw [← withCustom_eq, custom?_withCustom]
  · exact fun other ho => custom?_replace hk (by simpa using ho)
  · exact custom?_replace hp (by simp)
  · exact custom?_replace h0 (by simp)
  · exact searchResults_replace hp
  · exact searchResults_replace h0
  · exact provenance?_replace hk (by simp)
  · exact searchResults_replace hk
  · rw [withProvenance_eq, withProvenance_eq, replace_replace hp]
  · rw [withCustom_eq, withCustom_eq, replace_replace hk]

end Markers

namespace Sample

-- Two markers of one key, as only a collected or decoded set may hold them.
def crowded : Markers :=
  ⟨[.recipesThatMadeChanges .empty, .custom "a" .null, .searchResult none, .custom "b" .null,
    .recipesThatMadeChanges ⟨[[⟨0, "old", "old"⟩]]⟩, .custom "a" (.bool false)]⟩

theorem crowded_updates_keep_the_rest :
    ¬ crowded.IsKeyed ∧
    (crowded.withProvenance .empty).entries = [.custom "a" .null, .searchResult none,
      .custom "b" .null, .custom "a" (.bool false), .recipesThatMadeChanges .empty] ∧
    (crowded.withCustom "a" (.bool true)).custom? "a" = some (.bool true) ∧
    "b" ≠ "a" ∧ (crowded.withCustom "a" (.bool true)).custom? "b" = some .null ∧
    (crowded.withSearchResult (some "n")).entries = crowded.entries ++ [.searchResult (some "n")] ∧
    (crowded.withCustom "a" (.bool true)).provenance? = some .empty := by
  obtain ⟨⟨-, -, hp⟩, -, ⟨-, ha, hb, -⟩, -, hr, ⟨hs, -⟩, -⟩ :=
    Markers.updates_keep_the_rest crowded .empty .empty "a" (.bool true) .null (some "n")
  exact ⟨fun h => absurd (h .provenance) (by decide), hp, ha, by decide, hb "b" (by decide), hr, hs⟩

end Sample

end Codemod
