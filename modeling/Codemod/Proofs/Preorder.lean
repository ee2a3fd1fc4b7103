import Codemod.Document.Section
import Mathlib.Data.List.Nodup

namespace Codemod

inductive Phase where
  | pre
  | visit
  | post
deriving DecidableEq, Repr

namespace Section

mutual
def nodes : Section → List Section
  | ⟨id, title, children⟩ => ⟨id, title, children⟩ :: nodesOf children

def nodesOf : List Section → List Section
  | [] => []
  | s :: ss => nodes s ++ nodesOf ss
end

def ids (s : Section) : List TreeId :=
  s.nodes.map Section.id

def idsOf (ss : List Section) : List TreeId :=
  (nodesOf ss).map Section.id

mutual
def postorder : Section → List TreeId
  | ⟨id, _, children⟩ => postorderOf children ++ [id]

def postorderOf : List Section → List TreeId
  | [] => []
  | s :: ss => postorder s ++ postorderOf ss
end

mutual
/-- The hooks to call where `keep` tells which of them keep their node: the second one only for a
node that the first one kept, and the children and the last one only after the second. -/
def agenda (keep : Phase → TreeId → Bool) : Section → List (Phase × TreeId)
  | ⟨id, _, children⟩ =>
    (.pre, id) :: if keep .pre id then
      (.visit, id) :: if keep .visit id then agendaOf keep children ++ [(.post, id)] else []
    else []

def agendaOf (keep : Phase → TreeId → Bool) : List Section → List (Phase × TreeId)
  | [] => []
  | s :: ss => agenda keep s ++ agendaOf keep ss
end

def schedule (s : Section) : List (Phase × TreeId) :=
  s.agenda fun _ _ => true

def scheduleOf (ss : List Section) : List (Phase × TreeId) :=
  agendaOf (fun _ _ => true) ss

mutual
def survivors (gone : TreeId → Bool) : Section → List TreeId
  | ⟨id, _, children⟩ => if gone id then [] else id :: survivorsOf gone children

def survivorsOf (gone : TreeId → Bool) : List Section → List TreeId
  | [] => []
  | s :: ss => survivors gone s ++ survivorsOf gone ss
end

def lost (gone : TreeId → Bool) (nodes : List Section) (id : TreeId) : Bool :=
  nodes.any fun n => gone n.id && n.ids.contains id

variable {s n : Section} {ss : List Section} {id i : TreeId} {title : String}

theorem ids_mk (id : TreeId) (title : String) (children : List Section) :
    ids ⟨id, title, children⟩ = id :: idsOf children := by
  rw [ids, nodes, List.map_cons, idsOf]

theorem idsOf_cons (s : Section) (ss : List Section) : idsOf (s :: ss) = s.ids ++ idsOf ss := by
  rw [idsOf, nodesOf, List.map_append, ids, idsOf]

theorem nodesOf_append (ss ts : List Section) : nodesOf (ss ++ ts) = nodesOf ss ++ nodesOf ts := by
  induction ss with
  | nil => rfl
  | cons s ss ih => rw [List.cons_append, nodesOf, ih, nodesOf, List.append_assoc]

theorem idsOf_append (ss ts : List Section) : idsOf (ss ++ ts) = idsOf ss ++ idsOf ts := by
  rw [idsOf, nodesOf_append, List.map_append, idsOf, idsOf]

theorem nodesOf_singleton (s : Section) : nodesOf [s] = s.nodes := by
  rw [nodesOf, nodesOf, List.append_nil]

theorem nodes_eq_cons (s : Section) : s.nodes = s :: nodesOf s.children := by
  cases s
  rw [nodes]

theorem ids_eq_cons (s : Section) : s.ids = s.id :: idsOf s.children := by
  rw [ids, nodes_eq_cons, List.map_cons, idsOf]

theorem schedule_mk (id : TreeId) (title : String) (children : List Section) :
    schedule ⟨id, title, children⟩ =
      (.pre, id) :: (.visit, id) :: (scheduleOf children ++ [(.post, id)]) := by
  rw [schedule, agenda, if_pos rfl, if_pos rfl, scheduleOf]

theorem scheduleOf_cons (s : Section) (ss : List Section) :
    scheduleOf (s :: ss) = s.schedule ++ scheduleOf ss := by
  rw [scheduleOf, agendaOf, schedule, scheduleOf]

mutual
theorem ids_subset_of_mem (s : Section) (h : n ∈ s.nodes) : n.ids ⊆ s.ids := by
  obtain ⟨id, title, children⟩ := s
  rw [nodes] at h
  rcases List.mem_cons.mp h with rfl | h
  · exact List.Subset.refl _
  · rw [ids_mk]
    exact List.Subset.trans (idsOf_subset_of_mem children h) (List.subset_cons_self _ _)

theorem idsOf_subset_of_mem (ss : List Section) (h : n ∈ nodesOf ss) : n.ids ⊆ idsOf ss := by
  cases ss with
  | nil => simp [nodesOf] at h
  | cons s ss =>
    rw [nodesOf] at h
    rw [idsOf_cons]
    rcases List.mem_append.mp h with h | h
    · exact List.Subset.trans (ids_subset_of_mem s h) (List.subset_append_left _ _)
    · exact List.Subset.trans (idsOf_subset_of_mem ss h) (List.subset_append_right _ _)
end

mutual
theorem pre_schedule (s : Section) :
    (s.schedule.filter fun k => k.1 = .pre).map Prod.snd = s.ids := by
  obtain ⟨id, title, children⟩ := s
  simp [schedule_mk, ids_mk, pre_scheduleOf children]

theorem pre_scheduleOf (ss : List Section) :
    ((scheduleOf ss).filter fun k => k.1 = .pre).map Prod.snd = idsOf ss := by
  cases ss with
  | nil => rfl
  | cons s ss => simp [scheduleOf_cons, idsOf_cons, pre_schedule s, pre_scheduleOf ss]
end

mutual
theorem post_schedule (s : Section) :
    (s.schedule.filter fun k => k.1 = .post).map Prod.snd = s.postorder := by
  obtain ⟨id, title, children⟩ := s
  simp [schedule_mk, postorder, post_scheduleOf children]

theorem post_scheduleOf (ss : List Section) :
    ((scheduleOf ss).filter fun k => k.1 = .post).map Prod.snd = postorderOf ss := by
  cases ss with
  | nil => rfl
  | cons s ss => simp [scheduleOf_cons, postorderOf, post_schedule s, post_scheduleOf ss]
end

mutual
theorem mem_ids_of_mem_schedule {k : Phase × TreeId} (s : Section) (h : k ∈ s.schedule) :
    k.2 ∈ s.ids := by
  obtain ⟨id, title, children⟩ := s
  rw [schedule_mk] at h
  rw [ids_mk, List.mem_cons]
  simp only [List.mem_cons, List.mem_append, List.not_mem_nil, or_false] at h
  rcases h with rfl | rfl | h | rfl
  · exact .inl rfl
  · exact .inl rfl
  · exact .inr (mem_idsOf_of_mem_scheduleOf children h)
  · exact .inl rfl

theorem mem_idsOf_of_mem_scheduleOf {k : Phase × TreeId} (ss : List Section)
    (h : k ∈ scheduleOf ss) : k.2 ∈ idsOf ss := by
  cases ss with
  | nil => simp [scheduleOf, agendaOf] at h
  | cons s ss =>
    rw [scheduleOf_cons] at h
    rw [idsOf_cons, List.mem_append]
    rcases List.mem_append.mp h with h | h
    · exact .inl (mem_ids_of_mem_schedule s h)
    · exact .inr (mem_idsOf_of_mem_scheduleOf ss h)
end

mutual
theorem nodup_schedule (s : Section) (hn : s.ids.Nodup) : s.schedule.Nodup := by
  obtain ⟨id, title, children⟩ := s
  rw [ids_mk, List.nodup_cons] at hn
  obtain ⟨hid, hn⟩ := hn
  have hfresh : ∀ phase, (phase, id) ∉ scheduleOf children :=
    fun phase h => hid (mem_idsOf_of_mem_scheduleOf children h)
  have hpost : (scheduleOf children ++ [(Phase.post, id)]).Nodup := by
    rw [← List.concat_eq_append]
    exact (nodup_scheduleOf children hn).concat (hfresh .post)
  simp [schedule_mk, hpost, hfresh]

theorem nodup_scheduleOf (ss : List Section) (hn : (idsOf ss).Nodup) : (scheduleOf ss).Nodup := by
  cases ss with
  | nil => simp [scheduleOf, agendaOf]
  | cons s ss =>
    rw [idsOf_cons, List.nodup_append] at hn
    obtain ⟨hs, hss, hd⟩ := hn
    rw [scheduleOf_cons, List.nodup_append]
    refine ⟨nodup_schedule s hs, nodup_scheduleOf ss hss, fun a ha b hb he => ?_⟩
    have hne := hd a.2 (mem_ids_of_mem_schedule s ha) b.2 (mem_idsOf_of_mem_scheduleOf ss hb)
    exact hne (congrArg Prod.snd he)
end

section
variable {gone : TreeId → Bool}

theorem lost_cons (n : Section) (ns : List Section) (i : TreeId) :
    lost gone (n :: ns) i = (gone n.id && n.ids.contains i || lost gone ns i) :=
  List.any_cons

theorem lost_append (ns ms : List Section) (i : TreeId) :
    lost gone (ns ++ ms) i = (lost gone ns i || lost gone ms i) :=
  List.any_append

theorem lost_eq_false {ns : List Section} (h : ∀ n ∈ ns, i ∉ n.ids) : lost gone ns i = false := by
  rw [lost, List.any_eq_false]
  intro n hn
  simp [h n hn]

mutual
theorem survivors_eq_filter (s : Section) (hn : s.ids.Nodup) :
    survivors gone s = s.ids.filter fun i => !lost gone s.nodes i := by
  obtain ⟨id, title, children⟩ := s
  rw [ids_mk, List.nodup_cons] at hn
  obtain ⟨hid, hn⟩ := hn
  have hroot : lost gone (nodesOf children) id = false :=
    lost_eq_false fun n hm hi => hid (idsOf_subset_of_mem children hm hi)
  rw [survivors, nodes]
  split
  case isTrue hg =>
    symm
    rw [List.filter_eq_nil_iff]
    intro i hi
    simp [lost_cons, hg, hi]
  case isFalse hg =>
    simp only [lost_cons, hg, Bool.false_and, Bool.false_or, ids_mk, List.filter_cons, hroot]
    rw [survivorsOf_eq_filter children hn]
    rfl

theorem survivorsOf_eq_filter (ss : List Section) (hn : (idsOf ss).Nodup) :
    survivorsOf gone ss = (idsOf ss).filter fun i => !lost gone (nodesOf ss) i := by
  cases ss with
  | nil => rfl
  | cons s ss =>
    rw [idsOf_cons, List.nodup_append] at hn
    obtain ⟨hs, hss, hd⟩ := hn
    rw [survivorsOf, nodesOf, idsOf_cons, List.filter_append, survivors_eq_filter s hs,
      survivorsOf_eq_filter ss hss]
    -- No node of the one part has an identity of the other part in it.
    congr 1
    · refine List.filter_congr fun i hi => ?_
      have hl : lost gone (nodesOf ss) i = false :=
        lost_eq_false fun n hm hi' => hd i hi i (idsOf_subset_of_mem ss hm hi') rfl
      rw [lost_append, hl, Bool.or_false]
    · refine List.filter_congr fun i hi => ?_
      have hl : lost gone s.nodes i = false :=
        lost_eq_false fun n hm hi' => hd i (ids_subset_of_mem s hm hi') i hi rfl
      rw [lost_append, hl, Bool.false_or]
end

theorem survivors_eq_nil_iff : survivors gone s = [] ↔ gone s.id = true := by
  cases s
  rw [survivors]
  split <;> simp_all

end

end Section

end Codemod
