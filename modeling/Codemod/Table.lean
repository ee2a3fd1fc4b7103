namespace Codemod

/-- Values under distinct keys, in the order in which the keys first came. -/
structure Table (κ ν : Type) where
  entries : List (κ × ν) := []
  nodup : (entries.map Prod.fst).Nodup := by simp

namespace Table
variable {κ ν : Type}

def empty : Table κ ν := {}

instance : Inhabited (Table κ ν) := ⟨empty⟩

def keys (t : Table κ ν) : List κ :=
  t.entries.map Prod.fst

def size (t : Table κ ν) : Nat :=
  t.entries.length

variable [DecidableEq κ]

def valueAt (k : κ) : List (κ × ν) → Option ν
  | [] => none
  | (i, v) :: es => if i = k then some v else valueAt k es

def get? (t : Table κ ν) (k : κ) : Option ν :=
  valueAt k t.entries

def contains (t : Table κ ν) (k : κ) : Bool :=
  (t.get? k).isSome

def overwrite (k : κ) (v : ν) (e : κ × ν) : κ × ν :=
  if e.1 = k then (e.1, v) else e

theorem overwrite_fst (k : κ) (v : ν) (e : κ × ν) : (overwrite k v e).1 = e.1 := by
  unfold overwrite
  split <;> rfl

theorem map_fst_overwrite (k : κ) (v : ν) (es : List (κ × ν)) :
    (es.map (overwrite k v)).map Prod.fst = es.map Prod.fst := by
  simp [overwrite_fst]

def insert (t : Table κ ν) (k : κ) (v : ν) : Table κ ν :=
  if h : k ∈ t.keys then
    ⟨t.entries.map (overwrite k v), by rw [map_fst_overwrite]; exact t.nodup⟩
  else
    ⟨t.entries ++ [(k, v)], by
      rw [List.map_append, List.nodup_append]
      refine ⟨t.nodup, by simp, ?_⟩
      rintro a ha b hb rfl
      simp only [List.map_cons, List.map_nil, List.mem_singleton] at hb
      exact h (hb ▸ ha)⟩

def erase (t : Table κ ν) (k : κ) : Table κ ν :=
  ⟨t.entries.filter (fun e => e.1 ≠ k), t.nodup.sublist (List.filter_sublist.map _)⟩

theorem valueAt_overwrite (k j : κ) (v : ν) (es : List (κ × ν)) :
    valueAt j (es.map (overwrite k v)) =
      if j = k then (valueAt k es).map (fun _ => v) else valueAt j es := by
  induction es with
  | nil => simp [valueAt]
  | cons e es ih =>
    obtain ⟨i, w⟩ := e
    by_cases hi : i = k
    · subst hi
      by_cases hj : i = j
      · simp [valueAt, overwrite, hj]
      · simp [valueAt, overwrite, hj, ih, Ne.symm hj]
    · by_cases hj : i = j
      · subst hj
        simp [valueAt, overwrite, hi]
      · simp [valueAt, overwrite, hi, hj, ih]

theorem valueAt_append_singleton (k j : κ) (v : ν) (es : List (κ × ν))
    (h : k ∉ es.map Prod.fst) :
    valueAt j (es ++ [(k, v)]) = if j = k then some v else valueAt j es := by
  induction es with
  | nil => simp [valueAt, eq_comm]
  | cons e es ih =>
    obtain ⟨i, w⟩ := e
    simp only [List.map_cons, List.mem_cons, not_or] at h
    by_cases hi : i = j
    · subst hi
      simp [valueAt, Ne.symm h.1]
    · simp [valueAt, hi, ih h.2]

theorem valueAt_filter_ne (k j : κ) (es : List (κ × ν)) :
    valueAt j (es.filter (fun e => e.1 ≠ k)) = if j = k then none else valueAt j es := by
  induction es with
  | nil => simp [valueAt]
  | cons e es ih =>
    obtain ⟨i, w⟩ := e
    by_cases hi : i = k <;> by_cases hj : i = j <;> simp_all [valueAt]

theorem valueAt_isSome_iff (k : κ) (es : List (κ × ν)) :
    (valueAt k es).isSome = true ↔ k ∈ es.map Prod.fst := by
  induction es with
  | nil => simp [valueAt]
  | cons e es ih =>
    obtain ⟨i, w⟩ := e
    by_cases h : i = k
    · simp [valueAt, h]
    · simp only [valueAt, h, if_false, ih, List.map_cons, List.mem_cons, Ne.symm h, false_or]

theorem get?_empty (k : κ) : (empty : Table κ ν).get? k = none := rfl

theorem contains_iff {t : Table κ ν} {k : κ} : t.contains k = true ↔ k ∈ t.keys :=
  valueAt_isSome_iff k t.entries

theorem get?_insert (t : Table κ ν) (k j : κ) (v : ν) :
    (t.insert k v).get? j = if j = k then some v else t.get? j := by
  unfold insert get?
  split
  case isTrue h =>
    obtain ⟨w, hw⟩ := Option.isSome_iff_exists.mp ((valueAt_isSome_iff k t.entries).mpr h)
    simp [valueAt_overwrite, hw]
  case isFalse h => exact valueAt_append_singleton k j v t.entries h

theorem get?_erase (t : Table κ ν) (k j : κ) :
    (t.erase k).get? j = if j = k then none else t.get? j :=
  valueAt_filter_ne k j t.entries

theorem keys_insert (t : Table κ ν) (k : κ) (v : ν) :
    (t.insert k v).keys = if k ∈ t.keys then t.keys else t.keys ++ [k] := by
  unfold insert
  split
  case isTrue h => simp only [keys, map_fst_overwrite]
  case isFalse h => simp [keys]

theorem keys_erase (t : Table κ ν) (k : κ) : (t.erase k).keys = t.keys.filter (· ≠ k) := by
  simp [keys, erase, List.filter_map, Function.comp_def]

end Table

end Codemod
