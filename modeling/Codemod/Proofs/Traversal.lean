import Codemod.Proofs.Answers

namespace Codemod

def Unfailing (calls : List HookCall) : Prop :=
  ∀ c ∈ calls, ∀ e, c.result ≠ .error e

def Settles {α : Type} (calls : List HookCall) (r : VisitResult α) : Prop :=
  match r with
  | .ok _ => Unfailing calls
  | .error e => ∃ init c, calls = init ++ [c] ∧ Unfailing init ∧ c.result = .error e

def Follows {α : Type} (calls : List HookCall) (plan : List (Phase × TreeId)) (r : VisitResult α) :
    Prop :=
  match r with
  | .ok _ => calls.map HookCall.key = plan
  | .error _ => calls.map HookCall.key <+: plan

section
variable {α : Type} {calls more : List HookCall} {r : VisitResult α} {c : HookCall}
variable {plan : List (Phase × TreeId)} {e : VisitError}

theorem settles_singleton (phase : Phase) (s : Section) (r : VisitResult Section) :
    Settles [⟨phase, s, r⟩] r := by
  cases r with
  | error e => exact ⟨[], _, rfl, by simp [Unfailing], rfl⟩
  | ok kept => simp [Settles, Unfailing]

theorem unfailing_append : Unfailing (calls ++ more) ↔ Unfailing calls ∧ Unfailing more :=
  List.forall_mem_append

theorem Settles.append (h : Settles more r) (hc : Unfailing calls) : Settles (calls ++ more) r := by
  cases r with
  | ok kept => exact unfailing_append.mpr ⟨hc, h⟩
  | error e =>
    obtain ⟨init, c, rfl, hi, he⟩ := h
    exact ⟨calls ++ init, c, by simp, unfailing_append.mpr ⟨hc, hi⟩, he⟩

theorem Settles.cons (h : Settles calls r) {x : Option Section} (hc : c.result = .ok x) :
    Settles (c :: calls) r := by
  have hs : Unfailing [c] := by simp [Unfailing, hc]
  exact h.append hs

theorem Settles.of_error (h : Settles calls r) (hc : c ∈ calls) (he : c.result = .error e) :
    calls.getLast? = some c ∧ r = .error e := by
  cases r with
  | ok kept => exact absurd he (h c hc e)
  | error e' =>
    obtain ⟨init, last, rfl, hi, hl⟩ := h
    rcases List.mem_append.mp hc with hc | hc
    · exact absurd he (hi c hc e)
    · obtain rfl := List.mem_singleton.mp hc
      exact ⟨by simp, congrArg Except.error (Except.error.inj (hl.symm.trans he))⟩

theorem Settles.exists_error (h : Settles calls (.error e : VisitResult α)) :
    ∃ c ∈ calls, c.result = .error e := by
  obtain ⟨init, c, rfl, -, he⟩ := h
  exact ⟨c, by simp, he⟩

theorem Settles.not_unfailing (h : Settles calls (.error e : VisitResult α)) :
    ¬ Unfailing calls := by
  intro hu
  obtain ⟨c, hm, he⟩ := h.exists_error
  exact hu c hm e he

theorem Follows.of_eq (h : calls.map HookCall.key = plan) (r : VisitResult α) :
    Follows calls plan r := by
  cases r with
  | ok kept => exact h
  | error e => exact h ▸ List.prefix_refl _

theorem Follows.of_error {β : Type} (h : Follows calls plan (.error e : VisitResult α))
    (rest : List (Phase × TreeId)) : Follows calls (plan ++ rest) (.error e : VisitResult β) :=
  h.trans (List.prefix_append plan rest)

theorem Follows.starts (h : Follows calls plan r) : calls.map HookCall.key <+: plan := by
  cases r with
  | ok kept => exact h ▸ List.prefix_refl _
  | error e => exact h

theorem Follows.cons {k : Phase × TreeId} (h : Follows calls plan r) (hc : c.key = k) :
    Follows (c :: calls) (k :: plan) r := by
  cases r with
  | ok kept => exact congrArg₂ List.cons hc h
  | error e => exact List.cons_prefix_cons.mpr ⟨hc, h⟩

theorem Follows.append {rest : List (Phase × TreeId)} (hc : calls.map HookCall.key = plan)
    (h : Follows more rest r) : Follows (calls ++ more) (plan ++ rest) r := by
  cases r with
  | ok kept => exact (List.map_append ..).trans (congrArg₂ (· ++ ·) hc h)
  | error e =>
    change (calls ++ more).map HookCall.key <+: plan ++ rest
    rw [List.map_append, hc]
    exact (List.prefix_append_right_inj plan).mpr h

end

section
variable {answers : Answers}

-- That no call is made twice has to come from the walk which keeps everything: an answer is looked
-- up by its call, so nothing can be said through the answers before that.
mutual
theorem Visits.sublist_schedule {calls : List HookCall} {r : VisitResult Section} (s : Section)
    (h : Visits s calls r) : (calls.map HookCall.key).Sublist s.schedule := by
  obtain ⟨id, title, children⟩ := s
  rw [Section.schedule_mk]
  cases h with
  | preStops hr => simp [HookCall.key]
  | visitStops ht hr => simp [HookCall.key, ht.1]
  | childFails ht hu below =>
    have hb := VisitsAll.sublist_schedule children below
    simpa [HookCall.key, ht.1] using hb.trans (List.sublist_append_left _ _)
  | finishes ht hu below hr =>
    have hb := VisitsAll.sublist_schedule children below
    simpa [HookCall.key, ht.1, hu.1] using hb

theorem VisitsAll.sublist_schedule {calls : List HookCall} {r : VisitResult (List Section)}
    (ss : List Section) (h : VisitsAll ss calls r) :
    (calls.map HookCall.key).Sublist (Section.scheduleOf ss) := by
  cases h with
  | nil => exact List.nil_sublist _
  | @fails s ss _ _ head =>
    rw [Section.scheduleOf_cons]
    exact (Visits.sublist_schedule s head).trans (List.sublist_append_left _ _)
  | @laterFails s ss _ _ _ _ head later | @cons s ss _ _ _ _ head later =>
    rw [Section.scheduleOf_cons, List.map_append]
    exact (Visits.sublist_schedule s head).append (VisitsAll.sublist_schedule ss later)
end

mutual
theorem Visits.settles {calls : List HookCall} {r : VisitResult Section} (s : Section)
    (h : Visits s calls r) : Settles calls r := by
  obtain ⟨id, title, children⟩ := s
  cases h with
  | preStops hr => exact settles_singleton _ _ _
  | visitStops ht hr => exact (settles_singleton _ _ _).cons rfl
  | childFails ht hu below => exact ((VisitsAll.settles children below).cons rfl).cons rfl
  | finishes ht hu below hr =>
    have hb := VisitsAll.settles children below
    exact (((settles_singleton _ _ _).append hb).cons rfl).cons rfl

theorem VisitsAll.settles {calls : List HookCall} {r : VisitResult (List Section)}
    (ss : List Section) (h : VisitsAll ss calls r) : Settles calls r := by
  cases h with
  | nil => simp [Settles, Unfailing]
  | @fails s ss _ _ head => exact Visits.settles s head
  | @laterFails s ss _ _ _ _ head later | @cons s ss _ _ _ _ head later =>
    exact (VisitsAll.settles ss later).append (Visits.settles s head)
end

mutual
theorem Visits.follows {calls : List HookCall} {r : VisitResult Section} (s : Section)
    (h : Visits s calls r) (ha : answers.Fits calls) :
    Follows calls (s.agenda answers.keeps) r := by
  obtain ⟨id, title, children⟩ := s
  rw [Section.agenda]
  cases h with
  | preStops hr =>
    rw [Answers.keeps_of_stops (Answers.fits_cons.mp ha).1 hr]
    exact .of_eq rfl _
  | visitStops ht hr =>
    obtain ⟨hp, hv, -⟩ := Answers.fits_opening ht ha
    rw [Answers.keeps_of_ok hp, Answers.keeps_of_stops hv hr]
    exact .of_eq (by simp [HookCall.key, ht.1]) _
  | childFails ht hu below =>
    obtain ⟨hp, hv, ha⟩ := Answers.fits_opening ht ha
    rw [Answers.keeps_of_ok hp, Answers.keeps_of_ok hv, if_pos rfl, if_pos rfl]
    have hb := VisitsAll.follows children below ha
    exact .cons (.cons (hb.of_error [(.post, id)]) (congrArg (Prod.mk _) ht.1)) rfl
  | finishes ht hu below hr =>
    obtain ⟨hp, hv, ha⟩ := Answers.fits_opening ht ha
    rw [Answers.keeps_of_ok hp, Answers.keeps_of_ok hv, if_pos rfl, if_pos rfl]
    have hb := VisitsAll.follows children below (Answers.fits_closing ht hu ha).1
    refine ((Follows.append hb (.of_eq ?_ _)).cons (congrArg (Prod.mk _) ht.1)).cons rfl
    simp [HookCall.key, ht.1, hu.1]

theorem VisitsAll.follows {calls : List HookCall} {r : VisitResult (List Section)}
    (ss : List Section) (h : VisitsAll ss calls r) (ha : answers.Fits calls) :
    Follows calls (Section.agendaOf answers.keeps ss) r := by
  cases h with
  | nil => exact .of_eq rfl _
  | @fails s ss _ _ head =>
    rw [Section.agendaOf]
    exact (Visits.follows s head ha).of_error _
  | @laterFails s ss _ _ _ _ head later =>
    obtain ⟨ha, hl⟩ := Answers.fits_append.mp ha
    rw [Section.agendaOf]
    exact .append (Visits.follows s head ha) (VisitsAll.follows ss later hl)
  | @cons s ss _ _ _ _ head later =>
    obtain ⟨ha, hl⟩ := Answers.fits_append.mp ha
    rw [Section.agendaOf]
    exact .of_eq (Follows.append (Visits.follows s head ha) (VisitsAll.follows ss later hl)) _
end

mutual
theorem Visits.idsOf_kept {calls : List HookCall} {kept : Option Section} (s : Section)
    (h : Visits s calls (.ok kept)) (ha : answers.Fits calls) :
    Section.idsOf kept.toList = s.survivors answers.discards := by
  obtain ⟨id, title, children⟩ := s
  rw [Section.survivors]
  cases h with
  | preStops hr =>
    have hp := (Answers.fits_cons.mp ha).1
    cases kept with
    | some t => exact absurd rfl (hr t)
    | none =>
      rw [Answers.discards, Answers.drops_of_none hp]
      rfl
  | visitStops ht hr =>
    obtain ⟨-, hv, -⟩ := Answers.fits_opening ht ha
    cases kept with
    | some t => exact absurd rfl (hr t)
    | none =>
      rw [Answers.discards, Answers.drops_of_none hv, Bool.or_true, Bool.true_or]
      rfl
  | finishes ht hu below hr =>
    obtain ⟨hp, hv, ha⟩ := Answers.fits_opening ht ha
    obtain ⟨hb, hpost⟩ := Answers.fits_closing ht hu ha
    rw [Answers.discards, Answers.drops_of_some hp, Answers.drops_of_some hv]
    cases kept with
    | none =>
      rw [Answers.drops_of_none hpost]
      rfl
    | some v =>
      obtain ⟨hid, hchildren⟩ := hr v rfl
      rw [Answers.drops_of_some hpost, ← VisitsAll.idsOf_kept children below hb]
      have hv : v.id = id := hid.trans (hu.1.trans ht.1)
      rw [Option.toList_some, Section.idsOf_cons, v.ids_eq_cons, hchildren, hv]
      simp [Section.idsOf, Section.nodesOf]

theorem VisitsAll.idsOf_kept {calls : List HookCall} {kept : List Section} (ss : List Section)
    (h : VisitsAll ss calls (.ok (some kept))) (ha : answers.Fits calls) :
    Section.idsOf kept = Section.survivorsOf answers.discards ss := by
  cases h with
  | nil => rfl
  | @cons s ss _ _ _ _ head later =>
    obtain ⟨ha, hl⟩ := Answers.fits_append.mp ha
    rw [Section.idsOf_append, Section.survivorsOf, Visits.idsOf_kept s head ha,
      VisitsAll.idsOf_kept ss later hl]
end

mutual
theorem Visits.posted {calls : List HookCall} {kept : Option Section} (s : Section)
    (h : Visits s calls (.ok kept)) (ha : answers.Fits calls) :
    ∀ n ∈ Section.nodesOf kept.toList, answers .post n.id = some (.ok (some n)) := by
  obtain ⟨id, title, children⟩ := s
  cases kept with
  | none => simp [Section.nodesOf]
  | some v =>
    cases h with
    | preStops hr => exact absurd rfl (hr v)
    | visitStops ht hr => exact absurd rfl (hr v)
    | finishes ht hu below hr =>
      obtain ⟨-, -, ha⟩ := Answers.fits_opening ht ha
      obtain ⟨hb, hpost⟩ := Answers.fits_closing ht hu ha
      obtain ⟨hid, hchildren⟩ := hr v rfl
      intro n hn
      rw [Option.toList_some, Section.nodesOf_singleton, v.nodes_eq_cons, hchildren] at hn
      rcases List.mem_cons.mp hn with rfl | hn
      · rw [hid.trans (hu.1.trans ht.1), hpost]
      · exact VisitsAll.posted children below hb n hn

theorem VisitsAll.posted {calls : List HookCall} {kept : List Section} (ss : List Section)
    (h : VisitsAll ss calls (.ok (some kept))) (ha : answers.Fits calls) :
    ∀ n ∈ Section.nodesOf kept, answers .post n.id = some (.ok (some n)) := by
  cases h with
  | nil => simp [Section.nodesOf]
  | @cons s ss _ _ _ _ head later =>
    obtain ⟨ha, hl⟩ := Answers.fits_append.mp ha
    intro n hn
    rw [Section.nodesOf_append] at hn
    rcases List.mem_append.mp hn with hn | hn
    · exact Visits.posted s head ha n hn
    · exact VisitsAll.posted ss later hl n hn
end

mutual
theorem Visits.handed {calls : List HookCall} {r : VisitResult Section} (s : Section)
    (h : Visits s calls r) (ha : answers.Fits calls) : ∀ c ∈ calls, c.Handed answers s.nodes := by
  obtain ⟨id, title, children⟩ := s
  rw [Section.nodes]
  cases h with
  | preStops hr => simp [HookCall.Handed]
  | visitStops ht hr =>
    obtain ⟨hp, -, -⟩ := Answers.fits_opening ht ha
    rw [← ht.1] at hp
    simp [HookCall.Handed, hp]
  | childFails ht hu below =>
    obtain ⟨hp, -, ha⟩ := Answers.fits_opening ht ha
    rw [← ht.1] at hp
    have hb := VisitsAll.handed children below ha
    simp only [List.forall_mem_cons]
    exact ⟨List.mem_cons_self, hp, fun c hc => (hb c hc).mono (List.subset_cons_self _ _)⟩
  | finishes ht hu below hr =>
    obtain ⟨hp, hv, ha⟩ := Answers.fits_opening ht ha
    rw [← ht.1] at hp hv
    rw [← hu.1] at hv
    have hb := VisitsAll.handed children below (Answers.fits_closing ht hu ha).1
    simp only [List.forall_mem_cons, List.forall_mem_append]
    exact ⟨List.mem_cons_self, hp, fun c hc => (hb c hc).mono (List.subset_cons_self _ _),
      ⟨_, hv, rfl⟩, by simp⟩

theorem VisitsAll.handed {calls : List HookCall} {r : VisitResult (List Section)}
    (ss : List Section) (h : VisitsAll ss calls r) (ha : answers.Fits calls) :
    ∀ c ∈ calls, c.Handed answers (Section.nodesOf ss) := by
  cases h with
  | nil => simp
  | @fails s ss _ _ head =>
    rw [Section.nodesOf]
    exact fun c hc => (Visits.handed s head ha c hc).mono (List.subset_append_left _ _)
  | @laterFails s ss _ _ _ _ head later | @cons s ss _ _ _ _ head later =>
    obtain ⟨ha, hl⟩ := Answers.fits_append.mp ha
    rw [Section.nodesOf, List.forall_mem_append]
    have hh := Visits.handed s head ha
    have hl := VisitsAll.handed ss later hl
    exact ⟨fun c hc => (hh c hc).mono (List.subset_append_left _ _),
      fun c hc => (hl c hc).mono (List.subset_append_right _ _)⟩
end

end

/-- The calls of a visit of the whole tree: each at most once and in the order of the walk, none
after a failure. What comes back is the tree without the parts that a hook gave up. -/
structure Traversal (tree : Section) (calls : List HookCall) (r : VisitResult Section) : Prop where
  once : (calls.map HookCall.key).Nodup
  depth_first : calls.map HookCall.key <+: tree.agenda (Answers.ofCalls calls).keeps
  complete : Unfailing calls →
    calls.map HookCall.key = tree.agenda (Answers.ofCalls calls).keeps
  preorder : ((calls.filter fun c => c.phase = .pre).map fun c => c.node.id).Sublist tree.ids
  postorder : ((calls.filter fun c => c.phase = .post).map fun c => c.node.id).Sublist
    tree.postorder
  handed : ∀ c ∈ calls, c.Handed (Answers.ofCalls calls) tree.nodes
  stops : ∀ c ∈ calls, ∀ e, c.result = .error e → calls.getLast? = some c ∧ r = .error e
  failed : ∀ e, r = .error e → ∃ c ∈ calls, c.result = .error e
  absent : Unfailing calls →
    (r = .ok none ↔ (Answers.ofCalls calls).discards tree.id = true)
  ids : ∀ t, r = .ok (some t) →
    t.ids = tree.ids.filter fun i => !Section.lost (Answers.ofCalls calls).discards tree.nodes i
  nodes : ∀ t, r = .ok (some t) →
    ∀ n ∈ t.nodes, Answers.ofCalls calls .post n.id = some (.ok (some n))

theorem Visits.traversal {tree : Section} {calls : List HookCall} {r : VisitResult Section}
    (h : Visits tree calls r) (hn : tree.ids.Nodup) : Traversal tree calls r := by
  have hs := h.sublist_schedule tree
  have hk := hs.nodup (tree.nodup_schedule hn)
  have ha := Answers.fits_ofCalls hk
  have ordered : ∀ phase, ((calls.filter fun c => c.phase = phase).map fun c => c.node.id).Sublist
      ((tree.schedule.filter fun k => k.1 = phase).map Prod.snd) := by
    intro phase
    have := (hs.filter fun k => k.1 = phase).map Prod.snd
    rwa [List.filter_map, List.map_map] at this
  have hids : ∀ kept, r = .ok kept →
      Section.idsOf kept.toList = tree.survivors (Answers.ofCalls calls).discards := by
    rintro kept rfl
    exact h.idsOf_kept tree ha
  constructor
  case once => exact hk
  case depth_first => exact (h.follows tree ha).starts
  case complete =>
    intro hc
    cases r with
    | ok kept => exact h.follows tree ha
    | error e => exact absurd hc (h.settles tree).not_unfailing
  case preorder => exact tree.pre_schedule ▸ ordered .pre
  case postorder => exact tree.post_schedule ▸ ordered .post
  case handed => exact h.handed tree ha
  case stops => exact fun c hc e he => (h.settles tree).of_error hc he
  case failed =>
    rintro e rfl
    exact (h.settles tree).exists_error
  case absent =>
    intro hc
    rw [← Section.survivors_eq_nil_iff]
    rcases r with e | _ | t
    · exact absurd hc (h.settles tree).not_unfailing
    · rw [← hids none rfl]
      simp [Section.idsOf, Section.nodesOf]
    · rw [← hids (some t) rfl]
      simp [Section.idsOf_cons, t.ids_eq_cons]
  case ids =>
    intro t ht
    rw [← tree.survivors_eq_filter hn, ← hids _ ht]
    simp [Section.ids, Section.idsOf, Section.nodesOf_singleton]
  case nodes =>
    rintro t rfl n hm
    exact h.posted tree ha n (by simpa [Section.nodesOf_singleton] using hm)

theorem TreeVisitor.visit_traverses {ω τ : Type} {hook : ErrorHook ω}
    {v : TreeVisitor ω τ Section} {tree : Section} (hw : v.whole = none) (hv : v.KeepsShape hook)
    (hn : tree.ids.Nodup) (s : τ) (c : Context ω) :
    ∃ calls r s' c', (v.visit tree).outcome hook s c = ((r, s'), c') ∧
      (v.noted.visit tree).outcome hook (s, []) c = ((r, (s', calls)), c') ∧
      Traversal tree calls r := by
  obtain ⟨calls, r, s', c', h, hp, hl⟩ := TreeVisitor.logs_visit hw hv tree s c []
  exact ⟨calls, r, s', c', hp, hl, h.traversal hn⟩

namespace Sample

def thin (title mark : String) (s : Section) : Hook Unit Nat Section :=
  if s.title = title then Hook.discard else pure { s with title := s.title ++ mark }

def weeder : TreeVisitor Unit Nat Section where
  preVisit s := do
    Hook.updateState (· + 1)
    pure s
  visitNode := thin "tmp" "!"
  postVisit := thin "draft!" "?"

theorem keepsShape_thin (hook : ErrorHook Unit) (title mark : String) :
    Hook.KeepsShape hook (thin title mark) := by
  intro node s c kept h
  rw [thin] at h
  split at h
  · cases h
  · cases h
    exact ⟨rfl, rfl⟩

theorem keepsShape_weeder (hook : ErrorHook Unit) : weeder.KeepsShape hook where
  preVisit node s c kept h := by
    cases h
    exact ⟨rfl, rfl⟩
  visitNode := keepsShape_thin hook "tmp" "!"
  postVisit := keepsShape_thin hook "draft!" "?"

def weedy : Section :=
  ⟨⟨1⟩, "root", [⟨⟨2⟩, "tmp", [⟨⟨3⟩, "hidden", []⟩]⟩, ⟨⟨4⟩, "draft", [⟨⟨5⟩, "part", []⟩]⟩,
    ⟨⟨6⟩, "end", []⟩]⟩

theorem weeding_traverses :
    let weeded : Section := ⟨⟨1⟩, "root!?", [⟨⟨6⟩, "end!?", []⟩]⟩
    weeder.whole = none ∧ weeder.KeepsShape .record ∧ weedy.ids.Nodup ∧
      ∃ calls, (weeder.visit weedy).outcome .record 0 { client := () } =
          ((.ok (some weeded), 5), { client := () }) ∧
        (weeder.noted.visit weedy).outcome .record (0, []) { client := () } =
          ((.ok (some weeded), (5, calls)), { client := () }) ∧
        Traversal weedy calls (.ok (some weeded)) := by
  have hn : weedy.ids.Nodup := by decide
  have hv := keepsShape_weeder .record
  obtain ⟨calls, r, s, c, hs, hl, ht⟩ :=
    TreeVisitor.visit_traverses rfl hv hn 0 { client := () }
  cases hs
  exact ⟨rfl, hv, hn, calls, rfl, hl, ht⟩

end Sample

end Codemod
