import Codemod.Metadata.Decode
import Mathlib.Data.List.Forall2

namespace Codemod

namespace Json
variable {α β : Type} {j : Json}

def Reads (ofJson? : Json → Option α) (Form : Json → α → Prop) : Prop :=
  ∀ j a, ofJson? j = some a ↔ Form j a

def Writes (toJson : α → Json) (Form : Json → α → Prop) : Prop :=
  ∀ a, Form (toJson a) a

def OnlyForm (toJson : α → Json) (j : Json) (a : α) : Prop :=
  j = toJson a

theorem reads_string : Reads string? (OnlyForm string) := by
  intro j s
  unfold string? OnlyForm
  split
  case h_1 => simp
  case h_2 h => simpa using h s

theorem reads_bool : Reads bool? (OnlyForm bool) := by
  intro j b
  unfold bool? OnlyForm
  split
  case h_1 => simp
  case h_2 h => simpa using h b

theorem reads_nat : Reads nat? (OnlyForm fun n => int n) := by
  intro j n
  unfold nat? OnlyForm
  split
  case h_1 i =>
    rw [scalar.injEq, Scalar.int.injEq]
    split <;> simp <;> omega
  case h_2 h => simpa using h n

theorem reads_items : Reads items? (OnlyForm array) := by
  intro j items
  unfold items? OnlyForm
  split
  case h_1 => simp
  case h_2 h => simpa using h items

theorem mapM_eq_some_iff {f : α → Option β} {xs : List α} {ys : List β} :
    xs.mapM f = some ys ↔ List.Forall₂ (fun x y => f x = some y) xs ys := by
  induction xs generalizing ys with
  | nil => cases ys <;> simp
  | cons x xs ih =>
    cases ys with
    | nil => simp [List.mapM_cons, Option.bind_eq_some_iff]
    | cons y ys => simp [List.mapM_cons, Option.bind_eq_some_iff, ih]

variable {ofJson? : Json → Option α} {toJson : α → Json} {Form : Json → α → Prop}

theorem writes_only (toJson : α → Json) : Writes toJson (OnlyForm toJson) :=
  fun _ => rfl

theorem Reads.map (h : Reads ofJson? Form) {f : α → β} {g : β → α} (hf : ∀ a, g (f a) = a)
    (hg : ∀ b, f (g b) = b) : Reads (fun j => (ofJson? j).map f) fun j b => Form j (g b) := by
  intro j b
  refine Option.map_eq_some_iff.trans ⟨?_, fun hb => ⟨g b, (h j (g b)).mpr hb, hg b⟩⟩
  rintro ⟨a, ha, rfl⟩
  exact (h j (g (f a))).mp (by rw [ha, hf])

def ListForm (Form : Json → α → Prop) (j : Json) (values : List α) : Prop :=
  ∃ items, j = .array items ∧ List.Forall₂ Form items values

theorem Reads.list (h : Reads ofJson? Form) : Reads (list? ofJson?) (ListForm Form) := by
  intro j values
  have hf : (fun item a => ofJson? item = some a) = Form := by
    funext item a
    exact propext (h item a)
  rw [list?, Option.bind_eq_some_iff]
  refine exists_congr fun items => and_congr (reads_items j items) ?_
  rw [mapM_eq_some_iff, hf]

theorem Writes.list (h : Writes toJson Form) :
    Writes (fun values => .array (values.map toJson)) (ListForm Form) :=
  fun _ => ⟨_, rfl, List.forall₂_map_left_iff.mpr (List.forall₂_same.mpr fun a _ => h a)⟩

/-- A record has its fields by name, in any order and among fields of other names, or by position,
and then no more than these. -/
inductive IsRecord (names : List String) : Json → List Json → Prop
  | byName {fields : List (String × Json)} {values : List Json} :
    List.Forall₂ (fun name value => field? fields name = some value) names values →
      IsRecord names (.object fields) values
  | byPosition {values : List Json} :
    values.length = names.length → IsRecord names (.array values) values

theorem reads_record (names : List String) : Reads (record? names) (IsRecord names) := by
  intro j values
  constructor
  · intro h
    cases j with
    | scalar s => simp [record?] at h
    | array items =>
      obtain ⟨hl, rfl⟩ : items.length = names.length ∧ items = values := by
        simpa [record?] using h
      exact .byPosition hl
    | object fields => exact .byName (mapM_eq_some_iff.mp h)
  · intro h
    cases h with
    | byName h => exact mapM_eq_some_iff.mpr h
    | byPosition h => simp [record?, h]

def FieldForm (name : String) (Form : Json → α → Prop) (j : Json) (a : α) : Prop :=
  ∃ content, IsRecord [name] j [content] ∧ Form content a

theorem Reads.field (h : Reads ofJson? Form) (name : String) :
    Reads (fun j => match j.record? [name] with
      | some [content] => ofJson? content
      | _ => none) (FieldForm name Form) := by
  intro j a
  simp only [FieldForm, ← reads_record _ _ _, ← h _ a]
  split
  case h_1 hr => simp [hr]
  case h_2 hr => simpa using fun _ hc => absurd hc (hr _)

theorem Writes.field (h : Writes toJson Form) (name : String) :
    Writes (fun a => .object [(name, toJson a)]) (FieldForm name Form) :=
  fun a => ⟨_, .byName (by simp [field?_cons]), h a⟩

def DefaultForm (Form : Json → α → Prop) (default : α) : Option Json → α → Prop
  | none, a => a = default
  | some j, a => Form j a

theorem Reads.elim_eq_some_iff (h : Reads ofJson? Form) {default a : α} {given : Option Json} :
    given.elim (some default) ofJson? = some a ↔ DefaultForm Form default given a := by
  cases given with
  | none => simp [DefaultForm, eq_comm]
  | some j => exact h j a

end Json

end Codemod
