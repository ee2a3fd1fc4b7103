import Codemod.Proofs.VisitLog

namespace Codemod

def HookCall.key (c : HookCall) : Phase × TreeId :=
  (c.phase, c.node.id)

abbrev Answers := Phase → TreeId → Option (VisitResult Section)

namespace Answers

def ofCalls (calls : List HookCall) : Answers := fun phase id =>
  (calls.find? fun c => c.key = (phase, id)).map HookCall.result

def keeps (answers : Answers) (phase : Phase) (id : TreeId) : Bool :=
  match answers phase id with
  | some (.ok (some _)) => true
  | _ => false

def drops (answers : Answers) (phase : Phase) (id : TreeId) : Bool :=
  match answers phase id with
  | some (.ok none) => true
  | _ => false

def discards (answers : Answers) (id : TreeId) : Bool :=
  answers.drops .pre id || answers.drops .visit id || answers.drops .post id

def Fits (answers : Answers) (calls : List HookCall) : Prop :=
  ∀ c ∈ calls, answers c.phase c.node.id = some c.result

section
variable {answers : Answers} {calls more : List HookCall} {c : HookCall}

theorem keeps_of_ok {phase : Phase} {id : TreeId} {s : Section}
    (h : answers phase id = some (.ok (some s))) : answers.keeps phase id = true := by
  rw [keeps, h]

theorem keeps_of_stops {phase : Phase} {id : TreeId} {r : VisitResult Section}
    (h : answers phase id = some r) (hr : ∀ s, r ≠ .ok (some s)) :
    answers.keeps phase id = false := by
  rw [keeps, h]
  rcases r with e | _ | s
  · rfl
  · rfl
  · exact absurd rfl (hr s)

theorem drops_of_none {phase : Phase} {id : TreeId} (h : answers phase id = some (.ok none)) :
    answers.drops phase id = true := by
  rw [drops, h]

theorem drops_of_some {phase : Phase} {id : TreeId} {s : Section}
    (h : answers phase id = some (.ok (some s))) : answers.drops phase id = false := by
  rw [drops, h]

theorem fits_cons :
    answers.Fits (c :: calls) ↔ answers c.phase c.node.id = some c.result ∧ answers.Fits calls := by
  simp [Fits]

theorem fits_append : answers.Fits (calls ++ more) ↔ answers.Fits calls ∧ answers.Fits more := by
  simp [Fits, or_imp, forall_and]

theorem fits_opening {s t : Section} {r : VisitResult Section} (ht : s.Alike t)
    (h : answers.Fits (⟨.pre, s, .ok (some t)⟩ :: ⟨.visit, t, r⟩ :: calls)) :
    answers .pre s.id = some (.ok (some t)) ∧ answers .visit s.id = some r ∧
      answers.Fits calls := by
  obtain ⟨hp, h⟩ := fits_cons.mp h
  obtain ⟨hv, h⟩ := fits_cons.mp h
  exact ⟨hp, ht.1 ▸ hv, h⟩

theorem fits_closing {s t u : Section} {r : VisitResult Section} {ss : List Section}
    (ht : s.Alike t) (hu : t.Alike u)
    (h : answers.Fits (calls ++ [⟨.post, { u with children := ss }, r⟩])) :
    answers.Fits calls ∧ answers .post s.id = some r := by
  obtain ⟨h, hp⟩ := fits_append.mp h
  have hp := (fits_cons.mp hp).1
  rw [← ht.1, ← hu.1]
  exact ⟨h, hp⟩

theorem fits_ofCalls (hn : (calls.map HookCall.key).Nodup) : (ofCalls calls).Fits calls := by
  intro c hc
  have hs : (calls.find? fun d => d.key = c.key).isSome = true := by
    rw [List.find?_isSome]
    exact ⟨c, hc, by simp⟩
  obtain ⟨d, hd⟩ := Option.isSome_iff_exists.mp hs
  have hk : d.key = c.key := by simpa using List.find?_some hd
  obtain rfl := List.inj_on_of_nodup_map hn (List.mem_of_find?_eq_some hd) hc hk
  change (calls.find? fun d' => d'.key = d.key).map HookCall.result = some d.result
  rw [hd, Option.map_some]

end

end Answers

/-- A call is about a node as it stands in the tree, or as the call before left it; the last one
finds other children. -/
def HookCall.Handed (answers : Answers) (nodes : List Section) (c : HookCall) : Prop :=
  match c.phase with
  | .pre => c.node ∈ nodes
  | .visit => answers .pre c.node.id = some (.ok (some c.node))
  | .post => ∃ s, answers .visit c.node.id = some (.ok (some s)) ∧ s.title = c.node.title

theorem HookCall.Handed.mono {answers : Answers} {nodes more : List Section} {c : HookCall}
    (h : c.Handed answers nodes) (hs : nodes ⊆ more) : c.Handed answers more := by
  obtain ⟨phase, node, result⟩ := c
  cases phase with
  | pre => exact hs h
  | visit => exact h
  | post => exact h

end Codemod
