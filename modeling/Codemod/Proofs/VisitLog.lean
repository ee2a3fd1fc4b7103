import Codemod.Proofs.Hooks
import Codemod.Proofs.Preorder

namespace Codemod

structure HookCall where
  phase : Phase
  node : Section
  result : VisitResult Section

/-- As a hook may leave a node: with its identity and its children. -/
def Section.Alike (s t : Section) : Prop :=
  t.id = s.id ∧ t.children = s.children

namespace Hook
variable {ω τ α β : Type}

def outcome (hook : ErrorHook ω) (h : Hook ω τ α) (s : τ) (c : Context ω) :
    (VisitResult α × τ) × Context ω :=
  Action.perform (h.attempt.run s) hook c

def KeepsShape (hook : ErrorHook ω) (f : Section → Hook ω τ Section) : Prop :=
  ∀ node s c kept, ((f node).outcome hook s c).1.1 = .ok (some kept) → node.Alike kept

def noted (phase : Phase) (f : Section → Hook ω τ Section) (node : Section) :
    Hook ω (τ × List HookCall) Section :=
  OptionT.mk (ExceptT.mk fun (s, calls) => do
    let (result, s') ← (f node).attempt.run s
    pure (result, (s', calls ++ [⟨phase, node, result⟩])))

def Logs (hook : ErrorHook ω) (h : Hook ω τ α) (h' : Hook ω (τ × List HookCall) α)
    (P : List HookCall → VisitResult α → Prop) : Prop :=
  ∀ s c log, ∃ calls r s' c', P calls r ∧ h.outcome hook s c = ((r, s'), c') ∧
    h'.outcome hook (s, log) c = ((r, (s', log ++ calls)), c')

variable {hook : ErrorHook ω} {h : Hook ω τ α} {h' : Hook ω (τ × List HookCall) α}
variable {P : List HookCall → VisitResult α → Prop}

theorem outcome_bind (h : Hook ω τ α) (f : α → Hook ω τ β) (s : τ) (c : Context ω) :
    (h >>= f).outcome hook s c =
      match h.outcome hook s c with
      | ((.ok (some x), t), d) => (f x).outcome hook t d
      | ((.ok none, t), d) => ((.ok none, t), d)
      | ((.error e, t), d) => ((.error e, t), d) := by
  unfold outcome
  rw [attempt_bind, Action.perform_bind]
  rcases Action.perform (h.attempt.run s) hook c with ⟨⟨_ | _ | x, t⟩, d⟩
  · rfl
  · rfl
  · rfl

theorem outcome_keep? (h : Hook ω τ α) (s : τ) (c : Context ω) :
    (keep? h).outcome hook s c =
      match h.outcome hook s c with
      | ((.ok kept, t), d) => ((.ok (some kept), t), d)
      | ((.error e, t), d) => ((.error e, t), d) := by
  unfold outcome
  rw [attempt_keep?, Action.perform_bind]
  rcases Action.perform (h.attempt.run s) hook c with ⟨⟨_ | kept, t⟩, d⟩
  · rfl
  · rfl

namespace Logs

theorem pure {x : α} (hx : P [] (.ok (some x))) :
    Logs hook (Pure.pure x : Hook ω τ α) (Pure.pure x) P := by
  intro s c log
  refine ⟨[], .ok (some x), s, c, hx, rfl, ?_⟩
  rw [List.append_nil]
  rfl

theorem bind {f : α → Hook ω τ β} {f' : α → Hook ω (τ × List HookCall) β}
    {Q : List HookCall → VisitResult β → Prop} (hh : Logs hook h h' P)
    (hkept : ∀ calls x, P calls (.ok (some x)) →
      Logs hook (f x) (f' x) fun more r => Q (calls ++ more) r)
    (hdropped : ∀ calls, P calls (.ok none) → Q calls (.ok none))
    (hfailed : ∀ calls e, P calls (.error e) → Q calls (.error e)) :
    Logs hook (h >>= f) (h' >>= f') Q := by
  intro s c log
  obtain ⟨calls, r, t, d, hP, hs, hs'⟩ := hh s c log
  rw [outcome_bind, outcome_bind, hs, hs']
  rcases r with e | _ | x
  · exact ⟨calls, _, t, d, hfailed calls e hP, rfl, rfl⟩
  · exact ⟨calls, _, t, d, hdropped calls hP, rfl, rfl⟩
  · obtain ⟨more, r, t', d', hQ, ht, ht'⟩ := hkept calls x hP t d (log ++ calls)
    exact ⟨calls ++ more, r, t', d', hQ, ht, ht'.trans (by rw [List.append_assoc])⟩

theorem keep? {Q : List HookCall → VisitResult (Option α) → Prop} (hh : Logs hook h h' P)
    (hkept : ∀ calls kept, P calls (.ok kept) → Q calls (.ok (some kept)))
    (hfailed : ∀ calls e, P calls (.error e) → Q calls (.error e)) :
    Logs hook (Hook.keep? h) (Hook.keep? h') Q := by
  intro s c log
  obtain ⟨calls, r, t, d, hP, hs, hs'⟩ := hh s c log
  rw [outcome_keep?, outcome_keep?, hs, hs']
  cases r with
  | error e => exact ⟨calls, _, t, d, hfailed calls e hP, rfl, rfl⟩
  | ok kept => exact ⟨calls, _, t, d, hkept calls kept hP, rfl, rfl⟩

theorem noted {f : Section → Hook ω τ Section} (hf : KeepsShape hook f) (phase : Phase)
    (node : Section) : Logs hook (f node) (noted phase f node) fun calls r =>
      calls = [⟨phase, node, r⟩] ∧ ∀ kept, r = .ok (some kept) → node.Alike kept := by
  intro s c log
  exact ⟨[⟨phase, node, ((f node).outcome hook s c).1.1⟩], _, _, _, ⟨rfl, hf node s c⟩, rfl, rfl⟩

theorem imp {Q : List HookCall → VisitResult α → Prop} (hh : Logs hook h h' P)
    (hPQ : ∀ calls r, P calls r → Q calls r) : Logs hook h h' Q := by
  intro s c log
  obtain ⟨calls, r, t, d, hP, hs⟩ := hh s c log
  exact ⟨calls, r, t, d, hPQ calls r hP, hs⟩

theorem noted_bind {f g : Section → Hook ω τ Section}
    {g' : Section → Hook ω (τ × List HookCall) Section}
    {Q : List HookCall → VisitResult Section → Prop} (hf : KeepsShape hook f) (phase : Phase)
    (node : Section)
    (hkept : ∀ kept, node.Alike kept →
      Logs hook (g kept) (g' kept) fun calls r => Q (⟨phase, node, .ok (some kept)⟩ :: calls) r)
    (hstops : ∀ r, (∀ kept, r ≠ .ok (some kept)) → Q [⟨phase, node, r⟩] r) :
    Logs hook (f node >>= g) (Hook.noted phase f node >>= g') Q := by
  refine (noted hf phase node).bind ?_ ?_ ?_
  · rintro _ kept ⟨rfl, hk⟩
    exact hkept kept (hk kept rfl)
  · rintro _ ⟨rfl, -⟩
    exact hstops _ (by simp)
  · rintro _ e ⟨rfl, -⟩
    exact hstops _ (by simp)

end Logs

end Hook

mutual
inductive Visits : Section → List HookCall → VisitResult Section → Prop
  | preStops {s r} (hr : ∀ t, r ≠ .ok (some t)) : Visits s [⟨.pre, s, r⟩] r
  | visitStops {s t r} (ht : s.Alike t) (hr : ∀ u, r ≠ .ok (some u)) :
      Visits s [⟨.pre, s, .ok (some t)⟩, ⟨.visit, t, r⟩] r
  | childFails {s t u calls e} (ht : s.Alike t) (hu : t.Alike u)
      (below : VisitsAll s.children calls (.error e)) :
      Visits s (⟨.pre, s, .ok (some t)⟩ :: ⟨.visit, t, .ok (some u)⟩ :: calls) (.error e)
  | finishes {s t u calls kept r} (ht : s.Alike t) (hu : t.Alike u)
      (below : VisitsAll s.children calls (.ok (some kept)))
      (hr : ∀ v, r = .ok (some v) → Section.Alike { u with children := kept } v) :
      Visits s (⟨.pre, s, .ok (some t)⟩ :: ⟨.visit, t, .ok (some u)⟩ ::
        (calls ++ [⟨.post, { u with children := kept }, r⟩])) r

inductive VisitsAll : List Section → List HookCall → VisitResult (List Section) → Prop
  | nil : VisitsAll [] [] (.ok (some []))
  | fails {s ss calls e} (head : Visits s calls (.error e)) :
      VisitsAll (s :: ss) calls (.error e)
  | laterFails {s ss calls more kept e} (head : Visits s calls (.ok kept))
      (later : VisitsAll ss more (.error e)) : VisitsAll (s :: ss) (calls ++ more) (.error e)
  | cons {s ss calls more kept rest} (head : Visits s calls (.ok kept))
      (later : VisitsAll ss more (.ok (some rest))) :
      VisitsAll (s :: ss) (calls ++ more) (.ok (some (kept.toList ++ rest)))
end

theorem VisitsAll.ne_none {ss : List Section} {calls : List HookCall}
    {r : VisitResult (List Section)} (h : VisitsAll ss calls r) : r ≠ .ok none := by
  cases h <;> simp

namespace TreeVisitor
variable {ω τ : Type} {hook : ErrorHook ω} {v : TreeVisitor ω τ Section}

structure KeepsShape (hook : ErrorHook ω) (v : TreeVisitor ω τ Section) : Prop where
  preVisit : Hook.KeepsShape hook v.preVisit
  visitNode : Hook.KeepsShape hook v.visitNode
  postVisit : Hook.KeepsShape hook v.postVisit

def noted (v : TreeVisitor ω τ Section) : TreeVisitor ω (τ × List HookCall) Section where
  preVisit := Hook.noted .pre v.preVisit
  visitNode := Hook.noted .visit v.visitNode
  postVisit := Hook.noted .post v.postVisit

theorem logs_filterMap {f : Section → Hook ω τ Section}
    {f' : Section → Hook ω (τ × List HookCall) Section} {ss : List Section}
    (hf : ∀ s ∈ ss, Hook.Logs hook (f s) (f' s) (Visits s)) :
    Hook.Logs hook (Hook.filterMap f ss) (Hook.filterMap f' ss) (VisitsAll ss) := by
  induction ss with
  | nil => exact Hook.Logs.pure VisitsAll.nil
  | cons s ss ih =>
    have head : Hook.Logs hook (Hook.keep? (f s)) (Hook.keep? (f' s)) fun calls r =>
        match r with
        | .ok (some kept) => Visits s calls (.ok kept)
        | .ok none => False
        | .error e => Visits s calls (.error e) :=
      (hf s (by simp)).keep? (fun calls kept h => h) fun calls e h => h
    refine Hook.Logs.bind head (fun calls kept h => ?_) (fun calls h => h.elim)
      fun calls e h => VisitsAll.fails h
    refine Hook.Logs.bind (ih fun s hs => hf s (by simp [hs])) (fun more rest h' => ?_)
      (fun more h' => absurd rfl h'.ne_none) fun more e h' => VisitsAll.laterFails h h'
    refine Hook.Logs.pure ?_
    rw [List.append_nil]
    exact VisitsAll.cons h h'

theorem logs_descend (hv : v.KeepsShape hook) {depth : Nat} {s : Section}
    (hd : s.height < depth) :
    Hook.Logs hook (v.descend depth s) (v.noted.descend depth s) (Visits s) := by
  induction depth generalizing s with
  | zero => omega
  | succ depth ih =>
    refine Hook.Logs.noted_bind hv.preVisit .pre s (fun t ht => ?_) fun r hr => .preStops hr
    refine Hook.Logs.noted_bind hv.visitNode .visit t (fun u hu => ?_) fun r hr => .visitStops ht hr
    -- The hooks left the children alone, so the depth that is left is enough for these.
    have hc : u.children = s.children := hu.2.trans ht.2
    have below : Hook.Logs hook (Hook.filterMap (v.descend depth) u.children)
        (Hook.filterMap (v.noted.descend depth) u.children) (VisitsAll s.children) := by
      rw [hc]
      refine logs_filterMap fun child hm => ih ?_
      have := Section.height_lt_of_mem_children hm
      omega
    refine below.bind (fun calls kept h => ?_) (fun calls h => absurd rfl h.ne_none)
      fun calls e h => .childFails ht hu h
    refine (Hook.Logs.noted hv.postVisit .post { u with children := kept }).imp ?_
    rintro _ r ⟨rfl, hr⟩
    exact .finishes ht hu h hr

theorem logs_visit (hw : v.whole = none) (hv : v.KeepsShape hook) (s : Section) :
    Hook.Logs hook (v.visit s) (v.noted.visit s) (Visits s) := by
  have hd : s.height < s.height + headroom := Nat.lt_add_of_pos_right (by decide)
  rw [visit, hw]
  exact logs_descend hv hd

end TreeVisitor

end Codemod
