import Codemod.Metadata.Encode
import Codemod.Proofs.JsonForms

namespace Codemod

open Json

namespace SourcePath

def Form (j : Json) (p : SourcePath) : Prop :=
  ListForm (OnlyForm string) j p.segments

theorem reads : Reads ofJson? Form :=
  reads_string.list.map (f := mk) (g := segments) (fun _ => rfl) fun _ => rfl

theorem writes : Writes toJson Form :=
  fun p => (writes_only string).list p.segments

end SourcePath

namespace Frame

def Form (j : Json) (f : Frame) : Prop :=
  IsRecord ["position", "name", "display_name"] j
    [.int f.position, .string f.name, .string f.displayName]

theorem reads : Reads ofJson? Form := by
  intro j f
  cases f
  rw [Form, ← reads_record, ofJson?]
  split
  case h_1 h => simp [h, Option.bind_eq_some_iff, reads_nat _ _, reads_string _ _, OnlyForm]
  case h_2 h => simpa using h _ _ _

theorem writes : Writes toJson Form :=
  fun _ => .byName (by simp [field?_cons])

end Frame

namespace Descriptor

mutual
inductive Form : Json → Descriptor → Prop
  | record {j : Json} {name displayName : String} {items : List Json} {children : List Descriptor} :
    IsRecord ["name", "display_name", "children"] j
        [.string name, .string displayName, .array items] →
      Forms items children → Form j ⟨name, displayName, children⟩

inductive Forms : List Json → List Descriptor → Prop
  | nil : Forms [] []
  | cons {j : Json} {d : Descriptor} {js : List Json} {ds : List Descriptor} :
    Form j d → Forms js ds → Forms (j :: js) (d :: ds)
end

theorem form_iff {j : Json} {name displayName : String} {children : List Descriptor} :
    Form j ⟨name, displayName, children⟩ ↔ ∃ items,
      IsRecord ["name", "display_name", "children"] j
        [.string name, .string displayName, .array items] ∧ Forms items children :=
  ⟨fun | .record hr hc => ⟨_, hr, hc⟩, fun ⟨_, hr, hc⟩ => .record hr hc⟩

theorem forms_cons_iff {j : Json} {js : List Json} {d : Descriptor} {ds : List Descriptor} :
    Forms (j :: js) (d :: ds) ↔ Form j d ∧ Forms js ds :=
  ⟨fun | .cons hj hjs => ⟨hj, hjs⟩, fun ⟨hj, hjs⟩ => .cons hj hjs⟩

theorem ofChildren?_eq (fields : List (String × Json)) :
    ofChildren? fields = (field? fields "children").bind fun j => j.items?.bind ofItems? := by
  induction fields with
  | nil => rfl
  | cons f fields ih =>
    obtain ⟨key, j⟩ := f
    rw [field?_cons]
    cases j <;> by_cases hk : key = "children" <;> simp [ofChildren?, items?, hk, ih]

theorem ofJson?_of_length_ne {items : List Json} (h : items.length ≠ 3) :
    ofJson? (.array items) = none := by
  unfold ofJson?
  split <;> simp_all

theorem ofJson?_eq_some_iff {j : Json} {name displayName : String} {children : List Descriptor} :
    ofJson? j = some ⟨name, displayName, children⟩ ↔ ∃ items,
      IsRecord ["name", "display_name", "children"] j
        [.string name, .string displayName, .array items] ∧ ofItems? items = some children := by
  simp only [← reads_record _ _ _]
  cases j with
  | scalar s => simp [ofJson?, record?]
  | object fields =>
    simp [ofJson?, ofNames?, ofChildren?_eq, record?, Option.bind_eq_some_iff,
      reads_items _ _, reads_string _ _, OnlyForm, and_assoc]
  | array items =>
    by_cases hl : items.length = 3
    · obtain ⟨n, d, c, rfl⟩ := List.length_eq_three.mp hl
      cases c <;> simp [ofJson?, ofNames?, record?, Option.bind_eq_some_iff, reads_string _ _,
        OnlyForm, and_assoc]
    · simp [ofJson?_of_length_ne hl, record?, hl]

mutual
theorem ofJson?_iff_form : ∀ (d : Descriptor) (j : Json), ofJson? j = some d ↔ Form j d
  | ⟨_, _, children⟩, j => by
    rw [ofJson?_eq_some_iff, form_iff]
    exact exists_congr fun items => and_congr_right fun _ => ofItems?_iff_forms children items

theorem ofItems?_iff_forms : ∀ (ds : List Descriptor) (js : List Json),
    ofItems? js = some ds ↔ Forms js ds
  | [], [] => ⟨fun _ => .nil, fun _ => rfl⟩
  | [], j :: js => ⟨by simp [ofItems?, Option.bind_eq_some_iff], nofun⟩
  | d :: ds, [] => ⟨by simp [ofItems?], nofun⟩
  | d :: ds, j :: js => by
    rw [forms_cons_iff, ← ofJson?_iff_form d j, ← ofItems?_iff_forms ds js]
    simp [ofItems?, Option.bind_eq_some_iff]
end

theorem reads : Reads ofJson? Form :=
  fun j d => ofJson?_iff_form d j

mutual
theorem writes : ∀ d : Descriptor, Form d.toJson d
  | ⟨_, _, children⟩ => .record (.byName (by simp [field?_cons])) (forms_toJsonItems children)

theorem forms_toJsonItems : ∀ ds : List Descriptor, Forms (toJsonItems ds) ds
  | [] => .nil
  | d :: ds => .cons (writes d) (forms_toJsonItems ds)
end

end Descriptor

def RecipePath.Form : Json → RecipePath → Prop :=
  ListForm Frame.Form

theorem RecipePath.reads : Reads RecipePath.ofJson? RecipePath.Form := Frame.reads.list

theorem RecipePath.writes : Writes RecipePath.toJson RecipePath.Form := Frame.writes.list

namespace Provenance

def Form (j : Json) (p : Provenance) : Prop :=
  FieldForm "paths" (ListForm RecipePath.Form) j p.paths

theorem reads : Reads ofJson? Form :=
  (RecipePath.reads.list.map (f := mk) (g := paths) (fun _ => rfl) fun _ => rfl).field "paths"

theorem writes : Writes toJson Form :=
  fun p => RecipePath.writes.list.field "paths" p.paths

end Provenance

namespace Marker

/-- The fields of a search result and of a custom marker are given by name only. -/
inductive Form : Json → Marker → Prop
  | undescribed {fields : List (String × Json)} :
    field? fields "description" = none ∨ field? fields "description" = some .null →
      Form (.object [("SearchResult", .object fields)]) (.searchResult none)
  | described {fields : List (String × Json)} {s : String} :
    field? fields "description" = some (.string s) →
      Form (.object [("SearchResult", .object fields)]) (.searchResult (some s))
  | provenance {j : Json} {p : Provenance} :
    Provenance.Form j p → Form (.object [("RecipesThatMadeChanges", j)]) (.recipesThatMadeChanges p)
  | custom {fields : List (String × Json)} {key : String} {value : Json} :
    field? fields "key" = some (.string key) → field? fields "value" = some value →
      Form (.object [("Custom", .object fields)]) (.custom key value)

theorem form_of_searchResultOf? {fields : List (String × Json)} {m : Marker}
    (h : searchResultOf? fields = some m) : Form (.object [("SearchResult", .object fields)]) m := by
  unfold searchResultOf? at h
  split at h
  case h_1 hd =>
    cases h
    exact .undescribed (.inl hd)
  case h_2 hd =>
    cases h
    exact .undescribed (.inr hd)
  case h_3 j _ hd =>
    obtain ⟨s, hs, rfl⟩ := Option.map_eq_some_iff.mp h
    rw [(reads_string j s).mp hs] at hd
    exact .described hd

theorem form_of_customOf? {fields : List (String × Json)} {m : Marker}
    (h : customOf? fields = some m) : Form (.object [("Custom", .object fields)]) m := by
  simp only [customOf?, Option.bind_eq_bind, Option.bind_eq_some_iff] at h
  obtain ⟨j, hk, key, hj, value, hv, h⟩ := h
  cases h
  rw [(reads_string j key).mp hj] at hk
  exact .custom hk hv

theorem form_of_ofJson? {j : Json} {m : Marker} (h : ofJson? j = some m) : Form j m := by
  unfold ofJson? at h
  split at h
  case h_1 kind content =>
    split at h
    case isTrue hk =>
      obtain ⟨p, hp, rfl⟩ := Option.map_eq_some_iff.mp h
      rw [hk]
      exact .provenance ((Provenance.reads content p).mp hp)
    case isFalse =>
      split at h
      case h_1 fields =>
        split at h
        case isTrue hk =>
          rw [hk]
          exact form_of_searchResultOf? h
        case isFalse =>
          split at h
          case isTrue hk =>
            rw [hk]
            exact form_of_customOf? h
          case isFalse => cases h
      case h_2 => cases h
  case h_2 => cases h

theorem reads : Reads ofJson? Form := by
  intro j m
  refine ⟨form_of_ofJson?, fun h => ?_⟩
  cases h with
  | undescribed h => rcases h with h | h <;> simp [ofJson?, searchResultOf?, h]
  | described h => simp [ofJson?, searchResultOf?, h, string?]
  | provenance h => simp [ofJson?, (Provenance.reads _ _).mpr h]
  | custom hk hv => simp [ofJson?, customOf?, hk, hv, string?]

theorem writes : Writes toJson Form
  | .searchResult none => .undescribed (by simp [field?_cons, optionalString])
  | .searchResult (some s) => .described (by simp [field?_cons, optionalString])
  | .recipesThatMadeChanges p => .provenance (Provenance.writes p)
  | .custom key value => .custom (by simp [field?_cons]) (by simp [field?_cons])

end Marker

namespace Markers

def Form (j : Json) (m : Markers) : Prop :=
  FieldForm "entries" (ListForm Marker.Form) j m.entries

theorem reads : Reads ofJson? Form :=
  (Marker.reads.list.map (f := mk) (g := entries) (fun _ => rfl) fun _ => rfl).field "entries"

theorem writes : Writes toJson Form :=
  fun m => Marker.writes.list.field "entries" m.entries

end Markers

namespace Config

def Settings (maxCycles minCycles parallel parallelThreshold : Option Json) (c : Config) : Prop :=
  let natForm := DefaultForm (OnlyForm fun n : Nat => int n)
  let boolForm := DefaultForm (OnlyForm Json.bool)
  natForm 3 maxCycles c.maxCycles ∧ natForm 1 minCycles c.minCycles ∧
    boolForm true parallel c.parallel ∧ natForm 64 parallelThreshold c.parallelThreshold

inductive Form : Json → Config → Prop
  | byName {fields : List (String × Json)} {c : Config} :
    Settings (field? fields "max_cycles") (field? fields "min_cycles")
        (field? fields "parallel") (field? fields "parallel_threshold") c →
      Form (.object fields) c
  | byPosition {items : List Json} {c : Config} :
    items.length ≤ 4 → Settings items[0]? items[1]? items[2]? items[3]? c →
      Form (.array items) c

theorem ofSettings?_eq (maxCycles minCycles parallel parallelThreshold : Option Json) :
    ofSettings? maxCycles minCycles parallel parallelThreshold =
      (maxCycles.elim (some 3) nat?).bind fun maxCycles =>
        (minCycles.elim (some 1) nat?).bind fun minCycles =>
          (parallel.elim (some true) bool?).bind fun parallel =>
            (parallelThreshold.elim (some 64) nat?).bind fun parallelThreshold =>
              some ⟨maxCycles, minCycles, parallel, parallelThreshold⟩ := by
  unfold ofSettings?
  cases maxCycles <;> cases minCycles <;> cases parallel <;> cases parallelThreshold <;> rfl

theorem ofSettings?_eq_some_iff {maxCycles minCycles parallel parallelThreshold : Option Json}
    {c : Config} :
    ofSettings? maxCycles minCycles parallel parallelThreshold = some c ↔
      Settings maxCycles minCycles parallel parallelThreshold c := by
  simp only [ofSettings?_eq, Option.bind_eq_some_iff, reads_nat.elim_eq_some_iff,
    reads_bool.elim_eq_some_iff, Option.some.injEq]
  constructor
  · rintro ⟨_, hmax, _, hmin, _, hp, _, ht, rfl⟩
    exact ⟨hmax, hmin, hp, ht⟩
  · rintro ⟨hmax, hmin, hp, ht⟩
    exact ⟨_, hmax, _, hmin, _, hp, _, ht, rfl⟩

theorem reads : Reads ofJson? Form := by
  intro j c
  cases j with
  | scalar s => exact ⟨by simp [ofJson?], nofun⟩
  | object fields =>
    rw [ofJson?, ofSettings?_eq_some_iff]
    exact ⟨.byName, fun | .byName h => h⟩
  | array items =>
    rw [ofJson?, Option.ite_none_right_eq_some, ofSettings?_eq_some_iff]
    exact ⟨fun ⟨hl, hs⟩ => .byPosition hl hs, fun | .byPosition hl hs => ⟨hl, hs⟩⟩

theorem writes : Writes toJson Form :=
  fun _ => .byName ⟨rfl, rfl, rfl, rfl⟩

end Config

structure Json.RoundTrips {α : Type} (toJson : α → Json) (ofJson? : Json → Option α)
    (Form : Json → α → Prop) : Prop where
  read_back : ∀ a, ofJson? (toJson a) = some a
  read_form : ∀ j a, ofJson? j = some a ↔ Form j a
  read_again : ∀ j a, ofJson? j = some a → ofJson? (toJson a) = some a

theorem Json.Reads.roundTrips {α : Type} {toJson : α → Json} {ofJson? : Json → Option α}
    {Form : Json → α → Prop} (hr : Reads ofJson? Form) (hw : Writes toJson Form) :
    RoundTrips toJson ofJson? Form where
  read_back a := (hr _ a).mpr (hw a)
  read_form := hr
  read_again _ a _ := (hr _ a).mpr (hw a)

theorem metadata_round_trips :
    RoundTrips Markers.toJson Markers.ofJson? Markers.Form ∧
    RoundTrips Marker.toJson Marker.ofJson? Marker.Form ∧
    RoundTrips Provenance.toJson Provenance.ofJson? Provenance.Form ∧
    RoundTrips Frame.toJson Frame.ofJson? Frame.Form ∧
    RoundTrips Descriptor.toJson Descriptor.ofJson? Descriptor.Form ∧
    RoundTrips SourcePath.toJson SourcePath.ofJson? SourcePath.Form ∧
    RoundTrips Config.toJson Config.ofJson? Config.Form :=
  ⟨Markers.reads.roundTrips Markers.writes, Marker.reads.roundTrips Marker.writes,
    Provenance.reads.roundTrips Provenance.writes, Frame.reads.roundTrips Frame.writes,
    Descriptor.reads.roundTrips Descriptor.writes, SourcePath.reads.roundTrips SourcePath.writes,
    Config.reads.roundTrips Config.writes⟩

namespace Sample

-- Records by name, with a field that no one knows, and by position; a description left out, and a
-- payload that has the shape of a marker.
def untidy : Json :=
  .object [
    ("entries", .array [
      .object [("RecipesThatMadeChanges", .array [.array [
        .array [
          .object [("display_name", .string "Root"), ("extra", .null), ("name", .string "root"),
            ("position", .int 0)],
          .array [.int 1, .string "a", .string "A"]],
        .array []]])],
      .object [("SearchResult", .object [("hint", .int 1)])],
      .object [("Custom", .object [("key", .string "k"),
        ("value", .object [("SearchResult", .object [])])])]]),
    ("version", .int 2)]

def tidied : Markers :=
  ⟨[.recipesThatMadeChanges ⟨[[⟨0, "root", "Root"⟩, ⟨1, "a", "A"⟩], []]⟩, .searchResult none,
    .custom "k" (.object [("SearchResult", .object [])])]⟩

theorem untidy_markers_round_trip :
    Markers.ofJson? untidy = some tidied ∧ tidied.toJson ≠ untidy ∧
      Markers.ofJson? tidied.toJson = some tidied := by
  have h : Markers.ofJson? untidy = some tidied := by decide
  exact ⟨h, by decide, metadata_round_trips.1.read_again untidy tidied h⟩

end Sample

end Codemod
