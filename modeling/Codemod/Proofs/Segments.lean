import Codemod.SourcePath

namespace Codemod.SourcePath
variable {s segment : String} {p q : SourcePath} {e : PathError}

theorem pieces_eq_splitOn (cs : List Char) : pieces cs = cs.splitOn '/' := by
  have h : (['/'].intercalate (pieces cs)).splitOn '/' = pieces cs :=
    List.splitOn_intercalate '/' (fun _ => slash_not_mem_pieces) (pieces_ne_nil cs)
  rw [← h, intercalate_pieces]

def parts (s : String) : List String :=
  (s.toList.splitOn '/').map String.ofList

def IsSegment (segment : String) : Prop :=
  segment ≠ "" ∧ segment ≠ "." ∧ segment ≠ ".." ∧
    ∀ c ∈ segment.toList, c ≠ '/' ∧ c ≠ '\\' ∧ c ≠ '\x00'

-- Named, so that it scans the text: characters are finite, and they could be gone through as well.
instance (segment : String) : Decidable (IsSegment segment) :=
  have : Decidable (∀ c ∈ segment.toList, c ≠ '/' ∧ c ≠ '\\' ∧ c ≠ '\x00') :=
    List.decidableBAll _ _
  inferInstanceAs (Decidable (_ ∧ _))

def IsValid (p : SourcePath) : Prop :=
  ∀ segment ∈ p.segments, IsSegment segment

instance (p : SourcePath) : Decidable p.IsValid :=
  inferInstanceAs (Decidable (∀ segment ∈ p.segments, IsSegment segment))

theorem IsSegment.slash_not_mem (h : IsSegment segment) : '/' ∉ segment.toList :=
  fun hm => (h.2.2.2 _ hm).1 rfl

theorem slash_not_mem_of_mem_parts (h : segment ∈ parts s) : '/' ∉ segment.toList := by
  rw [parts, ← pieces_eq_splitOn] at h
  obtain ⟨piece, hm, rfl⟩ := List.mem_map.mp h
  simpa using slash_not_mem_pieces hm

theorem intercalate_parts (s : String) : "/".intercalate (parts s) = s := by
  rw [← String.toList_inj, String.toList_intercalate, parts, List.map_map]
  have hid : String.toList ∘ String.ofList = id := by
    funext cs
    simp
  rw [hid, List.map_id]
  exact List.intercalate_splitOn '/'

theorem parts_intercalate {segments : List String} (hne : segments ≠ [])
    (h : ∀ segment ∈ segments, '/' ∉ segment.toList) :
    parts ("/".intercalate segments) = segments := by
  have hs : (['/'].intercalate (segments.map String.toList)).splitOn '/' =
      segments.map String.toList := by
    refine List.splitOn_intercalate '/' ?_ (by simpa using hne)
    intro cs hcs
    obtain ⟨segment, hm, rfl⟩ := List.mem_map.mp hcs
    exact h segment hm
  have ht : ("/" : String).toList = ['/'] := rfl
  rw [parts, String.toList_intercalate, ht, hs, List.map_map]
  have hid : String.ofList ∘ String.toList = id := by
    funext segment
    simp
  rw [hid, List.map_id]

theorem fault?_eq_none_iff (h : '/' ∉ segment.toList) :
    fault? segment = none ↔ IsSegment segment := by
  have hc : (∀ c ∈ segment.toList, c ≠ '/' ∧ c ≠ '\\' ∧ c ≠ '\x00') ↔
      '\\' ∉ segment.toList ∧ '\x00' ∉ segment.toList := by
    constructor
    · exact fun hc => ⟨fun hm => (hc _ hm).2.1 rfl, fun hm => (hc _ hm).2.2 rfl⟩
    · rintro ⟨hb, hz⟩ c hm
      refine ⟨?_, ?_, ?_⟩
      · rintro rfl
        exact h hm
      · rintro rfl
        exact hb hm
      · rintro rfl
        exact hz hm
  rw [IsSegment, hc, fault?]
  split
  case isTrue he => simp [he]
  case isFalse he =>
    rw [ite_eq_right_iff]
    simp only [he, reduceCtorEq, imp_false, not_or, ne_eq, not_false_eq_true, true_and]

def flaw (segment : String) : PathError :=
  if segment = "" then .emptySegment else .invalidSegment segment

theorem eq_flaw_of_fault? (h : fault? segment = some e) : e = flaw segment := by
  unfold fault? at h
  unfold flaw
  split at h
  case isTrue he => rw [if_pos he, Option.some.inj h]
  case isFalse he =>
    rw [if_neg he]
    split at h
    case isTrue => exact (Option.some.inj h).symm
    case isFalse => cases h

theorem fault?_eq_some_iff (h : '/' ∉ segment.toList) :
    fault? segment = some e ↔ ¬ IsSegment segment ∧ e = flaw segment := by
  rw [← fault?_eq_none_iff h]
  constructor
  · exact fun he => ⟨by simp [he], eq_flaw_of_fault? he⟩
  · rintro ⟨hf, rfl⟩
    obtain ⟨e, he⟩ := Option.ne_none_iff_exists'.mp hf
    rw [he, eq_flaw_of_fault? he]

theorem parse_of_ne (hs : s ≠ "") :
    parse s = match (parts s).findSome? fault? with
      | some e => .error e
      | none => .ok ⟨parts s⟩ := by
  rw [parse, if_neg hs, pieces_eq_splitOn]
  rfl

theorem parse_eq_error_iff :
    parse s = .error e ↔ s ≠ "" ∧ ∃ before bad after, parts s = before ++ bad :: after ∧
      (∀ segment ∈ before, IsSegment segment) ∧ ¬ IsSegment bad ∧ e = flaw bad := by
  by_cases hs : s = ""
  · subst hs
    simp [parse]
  · have hm : ∀ {segment}, segment ∈ parts s → '/' ∉ segment.toList := slash_not_mem_of_mem_parts
    have hp : parse s = .error e ↔ (parts s).findSome? fault? = some e := by
      rw [parse_of_ne hs]
      cases (parts s).findSome? fault? <;> simp
    rw [hp, List.findSome?_eq_some_iff]
    simp only [ne_eq, hs, not_false_eq_true, true_and]
    constructor
    · rintro ⟨before, bad, after, he, hb, hbefore⟩
      refine ⟨before, bad, after, he, fun segment hs => ?_, ?_⟩
      · exact (fault?_eq_none_iff (hm (he ▸ List.mem_append_left _ hs))).mp (hbefore segment hs)
      · exact (fault?_eq_some_iff (hm (he ▸ by simp))).mp hb
    · rintro ⟨before, bad, after, he, hbefore, hb⟩
      refine ⟨before, bad, after, he, ?_, fun segment hs => ?_⟩
      · exact (fault?_eq_some_iff (hm (he ▸ by simp))).mpr hb
      · exact (fault?_eq_none_iff (hm (he ▸ List.mem_append_left _ hs))).mpr (hbefore segment hs)

theorem parse_eq_ok_iff :
    parse s = .ok p ↔ s = "" ∧ p = root ∨
      s ≠ "" ∧ p.segments = parts s ∧ ∀ segment ∈ parts s, IsSegment segment := by
  by_cases hs : s = ""
  · subst hs
    simp [parse, eq_comm]
  · have hv : (∀ segment ∈ parts s, IsSegment segment) ↔ (parts s).findSome? fault? = none := by
      rw [List.findSome?_eq_none_iff]
      refine forall₂_congr fun segment hm => ?_
      exact (fault?_eq_none_iff (slash_not_mem_of_mem_parts hm)).symm
    rw [parse_of_ne hs, hv]
    cases p with
    | mk segments => cases (parts s).findSome? fault? <;> simp [hs, eq_comm]

theorem display_of_parse (h : parse s = .ok p) : p.display = s := by
  rcases parse_eq_ok_iff.mp h with ⟨rfl, rfl⟩ | ⟨-, hp, -⟩
  · rfl
  · rw [display, hp, intercalate_parts]

theorem isValid_of_parse (h : parse s = .ok p) : p.IsValid := by
  rcases parse_eq_ok_iff.mp h with ⟨-, rfl⟩ | ⟨-, hp, hv⟩
  · simp [IsValid, root]
  · exact fun segment hm => hv segment (hp ▸ hm)

theorem parts_display (h : p.IsValid) (hne : p.segments ≠ []) : parts p.display = p.segments :=
  parts_intercalate hne fun segment hm => (h segment hm).slash_not_mem

theorem display_ne_empty (h : p.IsValid) (hne : p.segments ≠ []) : p.display ≠ "" := by
  intro hd
  have hp : parts "" = p.segments := hd ▸ parts_display h hne
  exact (h "" (hp ▸ by decide)).1 rfl

theorem parse_display_iff : parse p.display = .ok p ↔ p.IsValid := by
  refine ⟨isValid_of_parse, fun h => parse_eq_ok_iff.mpr ?_⟩
  by_cases hne : p.segments = []
  · obtain rfl : p = root := by
      cases p
      exact congrArg mk hne
    exact .inl ⟨rfl, rfl⟩
  · rw [parts_display h hne]
    exact .inr ⟨display_ne_empty h hne, rfl, h⟩

theorem parsing_inverts_display :
    (∀ s, ((∃ p, parse s = .ok p) ↔ s = "" ∨ ∀ segment ∈ parts s, IsSegment segment) ∧
      (∀ p, parse s = .ok p → p.display = s ∧ p.IsValid) ∧
      ∀ e, parse s = .error e ↔ s ≠ "" ∧ ∃ before bad after, parts s = before ++ bad :: after ∧
        (∀ segment ∈ before, IsSegment segment) ∧ ¬ IsSegment bad ∧
          e = if bad = "" then .emptySegment else .invalidSegment bad) ∧
    (∀ p : SourcePath, parse p.display = .ok p ↔ p.IsValid) ∧
    ∀ p q : SourcePath, p.IsValid → q.IsValid → p.display = q.display → p = q := by
  refine ⟨fun s => ⟨?_, fun p h => ⟨display_of_parse h, isValid_of_parse h⟩, fun e => ?_⟩,
    fun p => parse_display_iff, fun p q hp hq h => ?_⟩
  · simp only [parse_eq_ok_iff]
    constructor
    · rintro ⟨p, ⟨hs, -⟩ | ⟨-, -, hv⟩⟩
      · exact .inl hs
      · exact .inr hv
    · intro h
      by_cases hs : s = ""
      · exact ⟨root, .inl ⟨hs, rfl⟩⟩
      · exact ⟨⟨parts s⟩, .inr ⟨hs, rfl, h.resolve_left hs⟩⟩
  · exact parse_eq_error_iff
  · have he : parse p.display = .ok q := h ▸ parse_display_iff.mpr hq
    rw [parse_display_iff.mpr hp] at he
    exact Except.ok.inj he

end Codemod.SourcePath

namespace Codemod.Sample

theorem one_of_two_paths_is_read_back :
    let flat := SourcePath.single "src/main.rs"
    let nested := (SourcePath.single "src").child "main.rs"
    flat.display = nested.display ∧ nested.IsValid ∧ ¬ flat.IsValid ∧
      SourcePath.parse nested.display = .ok nested ∧
      SourcePath.parse flat.display ≠ .ok flat ∧
      SourcePath.parse "src/..//main.rs" = .error (.invalidSegment "..") := by
  obtain ⟨hparse, hdisplay, -⟩ := SourcePath.parsing_inverts_display
  refine ⟨by decide, by decide, by decide, (hdisplay _).mpr (by decide),
    fun h => absurd ((hdisplay _).mp h) (by decide), ?_⟩
  refine (hparse "src/..//main.rs").2.2 _ |>.mpr ⟨by decide, ["src"], "..", ["", "main.rs"], ?_⟩
  exact ⟨by decide, by decide, by decide, by decide⟩

end Codemod.Sample
