import Codemod.Document
import Codemod.Proofs.Identity
import Codemod.Proofs.Stamping

namespace Codemod

structure KindFactory (ω T : Type) where
  State : Type
  make : Action ω (TreeVisitor ω State T × State)

def KindFactory.factory {ω T : Type} [Tree T] (k : KindFactory ω T) (S : Type) [Accepts S T] :
    VisitorFactory ω S :=
  ((fun made => made.1.onKind made.2) <$> k.make : Action ω (SourceVisitor ω S))

structure KindStage (ω T : Type) where
  name : String
  displayName : String := name
  description : Option String := none
  tags : List String := []
  gate : Option (KindFactory ω T) := none
  sourceTest : Option (KindFactory ω T) := none
  visitor : Option (KindFactory ω T) := none
  repeats : Bool := false

def KindStage.stage {ω T : Type} [Tree T] (k : KindStage ω T) (S : Type) [Accepts S T] :
    Stage ω S where
  name := k.name
  displayName := k.displayName
  description := k.description
  tags := k.tags
  gate := k.gate.map (·.factory S)
  sourceTest := k.sourceTest.map (·.factory S)
  visitor := k.visitor.map (·.factory S)
  repeats := k.repeats

namespace Accepts

def isForeign {S : Type} (T : Type) [Accepts S T] (s : S) : Bool :=
  (kind? s : Option T).isNone

theorem isForeign_of_kind? {S T : Type} [Accepts S T] {s : S} {tree : T}
    (h : kind? s = some tree) : isForeign T s = false := by
  rw [isForeign, h]
  rfl

/-- Replacing the tree of a source puts the new one there, and markers have no part in a kind. -/
structure Lawful (S T : Type) [Source S] [Accepts S T] : Prop where
  kind?_withKind {s : S} {tree : T} (h : kind? s = some tree) (new : T) :
    kind? (withKind s new) = some new
  isForeign_withMarkers (s : S) (m : Markers) : isForeign T (Source.withMarkers s m) = isForeign T s

/-- The tree is a part of the source that holds nothing of its identity. -/
structure Inner (S T : Type) [Source S] [Accepts S T] : Prop extends Lawful S T where
  id_withKind (s : S) (new : T) : Tree.id (withKind s new) = Tree.id s
  path_withKind (s : S) (new : T) : Source.path (withKind s new) = Source.path s
  markers_withKind (s : S) (new : T) : Source.markers (withKind s new) = Source.markers s

theorem lawful_plainText : Lawful Document PlainText where
  kind?_withKind {s} tree h new := by
    cases s with
    | text t => rfl
    | outline o => cases h
  isForeign_withMarkers s m := by cases s <;> rfl

theorem inner_section : Inner Document Section where
  kind?_withKind {s} tree h new := by
    cases s with
    | text t => cases h
    | outline o => rfl
  isForeign_withMarkers s m := by cases s <;> rfl
  id_withKind s new := by cases s <;> rfl
  path_withKind s new := by cases s <;> rfl
  markers_withKind s new := by cases s <;> rfl

end Accepts

namespace Source
variable {S : Type} {R : S → Option S → Prop}

inductive Carried (R : S → Option S → Prop) : List S → List S → Prop
  | nil : Carried R [] []
  | cons {s kept before after} (h : R s kept) (rest : Carried R before after) :
      Carried R (s :: before) (kept.toList ++ after)

theorem Carried.refl (hR : ∀ s, R s (some s)) (batch : List S) : Carried R batch batch := by
  induction batch with
  | nil => exact .nil
  | cons s batch ih => exact .cons (hR s) ih

theorem Carried.forall_mem {P : S → Prop} {before after : List S} (h : Carried R before after)
    (hR : ∀ s t, R s (some t) → P s → P t) (hb : ∀ s ∈ before, P s) : ∀ t ∈ after, P t := by
  induction h with
  | nil => simp
  | @cons s kept before after hs _ ih =>
    intro t ht
    rcases List.mem_append.mp ht with ht | ht
    · obtain rfl := Option.mem_toList.mp ht
      exact hR s t hs (hb s (List.mem_cons_self ..))
    · exact ih (fun s hs => hb s (List.mem_cons_of_mem _ hs)) t ht

theorem Carried.exists_mem {P : S → Prop} {before after : List S} (h : Carried R before after)
    (hR : ∀ s kept, R s kept → P s → ∃ t, kept = some t ∧ P t) (hb : ∃ s ∈ before, P s) :
    ∃ t ∈ after, P t := by
  induction h with
  | nil => simp at hb
  | @cons s kept before after hs _ ih =>
    obtain ⟨u, hu, hP⟩ := hb
    rcases List.mem_cons.mp hu with rfl | hu
    · obtain ⟨t, rfl, ht⟩ := hR u kept hs hP
      exact ⟨t, List.mem_append_left _ (List.mem_singleton_self t), ht⟩
    · obtain ⟨t, ht, htP⟩ := ih ⟨u, hu, hP⟩
      exact ⟨t, List.mem_append_right _ ht, htP⟩

theorem carried_filterMap_range {batch : List S} {g : Nat → Option S}
    (h : ∀ i s, batch[i]? = some s → R s (g i)) :
    Carried R batch ((List.range batch.length).filterMap g) := by
  induction batch generalizing g with
  | nil => exact .nil
  | cons s batch ih =>
    have hr : (List.range (s :: batch).length).filterMap g =
        (g 0).toList ++ (List.range batch.length).filterMap (g ∘ Nat.succ) := by
      rw [List.length_cons, List.range_succ_eq_map, List.filterMap_cons, List.filterMap_map]
      cases g 0 <;> rfl
    rw [hr]
    exact .cons (h 0 s rfl) (ih fun i t ht => h (i + 1) t ht)

end Source

namespace Stage
variable {ω S : Type} [Source S] {hook : ErrorHook ω} {c d : Context ω} {stage : Stage ω S}
variable {factory : VisitorFactory ω S} {R : S → Option S → Prop}

theorem kept_of_visitSource {source : S} {kept : Option S}
    (h : (stage.visitSource factory source).perform hook c = (.ok kept, d)) :
    kept = some source ∨ ∃ c₁ c₂, (((Action.perform factory hook c₁).1.visit source).perform
      hook c₂).1 = .ok kept := by
  obtain ⟨admitted, c₁, -, h⟩ := Attempt.bind_eq_ok.mp h
  cases admitted with
  | false => exact .inl (Attempt.pure_eq_ok.mp h).1
  | true =>
    obtain ⟨visitor, c₂, hm, h⟩ := Attempt.bind_eq_ok.mp h
    obtain ⟨result, c₃, hv, h⟩ := Attempt.bind_eq_ok.mp h
    have hv : ((Action.perform factory hook c₁).1.visit source).perform hook c₂ = (result, c₃) := by
      rw [Attempt.lift_eq_ok.mp hm]
      exact Attempt.lift_eq_ok.mp hv
    match result with
    | .ok none =>
      obtain ⟨rfl, -⟩ := Attempt.pure_eq_ok.mp h
      exact .inr ⟨c₁, c₂, by rw [hv]⟩
    | .ok (some after) =>
      simp only at h
      split at h
      case isTrue =>
        obtain ⟨rfl, -⟩ := Attempt.pure_eq_ok.mp h
        exact .inr ⟨c₁, c₂, by rw [hv]⟩
      case isFalse => exact absurd h Attempt.throw_ne_ok
    | .error cause =>
      obtain ⟨-, c₄, -, h⟩ := Attempt.bind_eq_ok.mp h
      exact .inl (Attempt.pure_eq_ok.mp h).1

theorem carried_visitInTurn {batch after : List S}
    (hR : ∀ {s c kept d}, (stage.visitSource factory s).perform hook c = (.ok kept, d) → R s kept)
    (h : (stage.visitInTurn factory batch).perform hook c = (.ok after, d)) :
    Source.Carried R batch after := by
  induction batch generalizing c d after with
  | nil =>
    obtain ⟨rfl, -⟩ := Attempt.pure_eq_ok.mp h
    exact .nil
  | cons source sources ih =>
    obtain ⟨kept, c₁, hv, h⟩ := Attempt.bind_eq_ok.mp h
    obtain ⟨rest, c₂, hr, h⟩ := Attempt.bind_eq_ok.mp h
    obtain ⟨rfl, -⟩ := Attempt.pure_eq_ok.mp h
    exact .cons (hR hv) (ih hr)

theorem exists_outcome_of_visitPositions {batch : List S} {positions : List Nat}
    {outcomes : List (Nat × Option S)}
    (hR : ∀ {s c kept d}, (stage.visitSource factory s).perform hook c = (.ok kept, d) → R s kept)
    (h : (stage.visitPositions factory batch positions).perform hook c = (.ok outcomes, d))
    {i : Nat} {s : S} (hi : i ∈ positions) (hs : batch[i]? = some s) :
    R s ((outcomes.find? (·.1 = i)).bind (·.2)) := by
  induction positions generalizing c d outcomes with
  | nil => simp at hi
  | cons j positions ih =>
    rw [visitPositions] at h
    cases hj : batch[j]? with
    | none =>
      have hne : i ≠ j := by
        rintro rfl
        simp [hs] at hj
      exact ih (by simpa [hj] using h) ((List.mem_cons.mp hi).resolve_left hne)
    | some source =>
      simp only [hj] at h
      obtain ⟨kept, c₁, hv, h⟩ := Attempt.bind_eq_ok.mp h
      obtain ⟨rest, c₂, hr, h⟩ := Attempt.bind_eq_ok.mp h
      obtain ⟨rfl, -⟩ := Attempt.pure_eq_ok.mp h
      by_cases hij : j = i
      · obtain rfl : source = s := Option.some.inj (hj.symm.trans (hij ▸ hs))
        simpa [List.find?_cons, hij] using hR hv
      · have hm : i ∈ positions := (List.mem_cons.mp hi).resolve_left (Ne.symm hij)
        simpa [List.find?_cons, hij] using ih hr hm

theorem carried_visitArranged {arrange : List Nat → List Nat} {batch after : List S}
    (hR : ∀ {s c kept d}, (stage.visitSource factory s).perform hook c = (.ok kept, d) → R s kept)
    (ha : ∀ positions, (arrange positions).Perm positions)
    (h : (stage.visitArranged factory arrange batch).perform hook c = (.ok after, d)) :
    Source.Carried R batch after := by
  obtain ⟨outcomes, e, hv, h⟩ := Attempt.bind_eq_ok.mp h
  obtain ⟨rfl, -⟩ := Attempt.pure_eq_ok.mp h
  refine Source.carried_filterMap_range fun i s hs => ?_
  have hi : i < batch.length := (List.getElem?_eq_some_iff.mp hs).1
  exact exists_outcome_of_visitPositions hR hv ((ha _).mem_iff.mpr (List.mem_range.mpr hi)) hs

end Stage

theorem Scheduler.carried_transform {ω S : Type} [Source S] {σ : Scheduler} {hook : ErrorHook ω}
    {c d : Context ω} {stage : Stage ω S} {R : S → Option S → Prop} {cycle : Nat}
    {path : RecipePath} {batch after : List S} (hs : stage.batchTransform = none)
    (hrefl : ∀ s, R s (some s))
    (hR : ∀ factory, stage.visitor = some factory → ∀ {s c kept d},
      (stage.visitSource factory s).perform hook c = (.ok kept, d) → R s kept)
    (h : (σ.transform cycle path stage batch).perform hook c = (.ok after, d)) :
    Source.Carried R batch after := by
  rw [transform, hs] at h
  cases hv : stage.visitor with
  | none =>
    rw [hv] at h
    obtain ⟨rfl, -⟩ := Attempt.pure_eq_ok.mp h
    exact .refl hrefl _
  | some factory =>
    simp only [hv] at h
    split at h
    · exact Stage.carried_visitArranged (hR factory hv) (σ.order.perm cycle path) h
    · exact Stage.carried_visitInTurn (hR factory hv) h

namespace Source
variable {S T : Type} [Accepts S T]

/-- What a visitor of one kind may make of a source: one of its kind can go or have its tree
replaced, any other stays. -/
inductive Framed (T : Type) [Accepts S T] (s : S) : Option S → Prop
  | same : Framed T s (some s)
  | dropped {tree : T} (h : Accepts.kind? s = some tree) : Framed T s none
  | replaced {tree : T} (h : Accepts.kind? s = some tree) (new : T) :
      Framed T s (some (Accepts.withKind s new))

end Source

section
variable {ω S T : Type} [Source S] [Tree T] [Accepts S T] {hook : ErrorHook ω} {c d : Context ω}

omit [Source S] in
theorem TreeVisitor.framed_visitKind {τ : Type} {v : TreeVisitor ω τ T} {initial : τ} {s : S}
    {kept : Option S} (h : ((v.visitKind initial s).perform hook c).1 = .ok kept) :
    Source.Framed T s kept := by
  unfold visitKind at h
  cases hk : (Accepts.kind? s : Option T) with
  | none =>
    simp only [hk] at h
    obtain rfl := Except.ok.inj h
    exact .same
  | some tree =>
    simp only [hk, Action.perform_bind] at h
    split at h
    case isTrue =>
      rw [Action.perform_bind] at h
      generalize ((v.visit tree).start initial).perform hook _ = o at h
      obtain ⟨result, d⟩ := o
      match result with
      | .error cause => cases h
      | .ok none =>
        obtain rfl := Except.ok.inj h
        exact .dropped hk
      | .ok (some new) =>
        obtain rfl := Except.ok.inj h
        exact .replaced hk new
    case isFalse =>
      obtain rfl := Except.ok.inj h
      exact .same

theorem KindFactory.framed_visitSource {k : KindFactory ω T} {stage : Stage ω S} {s : S}
    {kept : Option S}
    (h : (stage.visitSource (k.factory S) s).perform hook c = (.ok kept, d)) :
    Source.Framed T s kept := by
  rcases Stage.kept_of_visitSource h with rfl | ⟨c₁, c₂, hv⟩
  · exact .same
  · exact TreeVisitor.framed_visitKind hv

variable {cycle : Nat} {path : RecipePath} {σ : Scheduler} {before after : List S}

theorem KindStage.carried_transform (k : KindStage ω T)
    (h : (σ.transform cycle path (k.stage S) before).perform hook c = (.ok after, d)) :
    Source.Carried (Source.Framed T) before after := by
  refine Scheduler.carried_transform rfl (fun s => .same) ?_ h
  intro factory hv s c kept d hs
  obtain ⟨inner, -, rfl⟩ := Option.map_eq_some_iff.mp hv
  exact inner.framed_visitSource hs

end

namespace Source
variable {S T : Type} [Source S] [Accepts S T] {before after : List S} {s s' s'' : S}
variable {kept : Option S}

structure SameShell (T : Type) [Accepts S T] (s s' : S) : Prop where
  id_eq : Tree.id s' = Tree.id s
  path_eq : path s' = path s
  others_eq : (markers s').others = (markers s).others
  isForeign_eq : Accepts.isForeign T s' = Accepts.isForeign T s

theorem SameShell.refl (s : S) : SameShell T s s :=
  ⟨rfl, rfl, rfl, rfl⟩

theorem SameShell.trans (h : SameShell T s s') (h' : SameShell T s' s'') : SameShell T s s'' where
  id_eq := h'.id_eq.trans h.id_eq
  path_eq := h'.path_eq.trans h.path_eq
  others_eq := h'.others_eq.trans h.others_eq
  isForeign_eq := h'.isForeign_eq.trans h.isForeign_eq

theorem Framed.toList_filter (hT : Accepts.Lawful S T) (h : Framed T s kept) :
    kept.toList.filter (Accepts.isForeign T) = [s].filter (Accepts.isForeign T) := by
  cases h with
  | same => rfl
  | dropped hk => simp [Accepts.isForeign_of_kind? hk]
  | replaced hk new =>
    simp [Accepts.isForeign_of_kind? hk, Accepts.isForeign_of_kind? (hT.kind?_withKind hk new)]

theorem Framed.isForeign_eq (hT : Accepts.Lawful S T) (h : Framed T s (some s')) :
    Accepts.isForeign T s' = Accepts.isForeign T s := by
  cases h with
  | same => rfl
  | replaced hk new =>
    rw [Accepts.isForeign_of_kind? hk, Accepts.isForeign_of_kind? (hT.kind?_withKind hk new)]

theorem Framed.sameShell (hT : Accepts.Inner S T) (h : Framed T s (some s')) :
    SameShell T s s' := by
  have hforeign := h.isForeign_eq hT.toLawful
  cases h with
  | same => exact .refl s
  | replaced hk new =>
    constructor
    case id_eq => exact hT.id_withKind s new
    case path_eq => exact hT.path_withKind s new
    case others_eq => rw [hT.markers_withKind]
    case isForeign_eq => exact hforeign

namespace Carried

theorem filter_isForeign (hT : Accepts.Lawful S T) (h : Carried (Framed T) before after) :
    after.filter (Accepts.isForeign T) = before.filter (Accepts.isForeign T) := by
  induction h with
  | nil => rfl
  | @cons s kept before after hs _ ih =>
    rw [List.filter_append, hs.toList_filter hT, ih, ← List.filter_append, List.singleton_append]

end Carried

end Source

namespace KindStage
variable {ω S T : Type} [Source S] [Tree T] [Accepts S T] {σ : Scheduler} {hook : ErrorHook ω}

theorem keeps_foreign (hT : Accepts.Lawful S T) (k : KindStage ω T) (foreign : List S) :
    σ.Keeps hook (k.stage S) fun batch => batch.filter (Accepts.isForeign T) = foreign := by
  intro cycle path before after c d h hb
  exact ((k.carried_transform h).filter_isForeign hT).trans hb

theorem keeps_shells (hT : Accepts.Inner S T) (k : KindStage ω T) (input : List S) :
    σ.Keeps hook (k.stage S) fun batch => ∀ s' ∈ batch, ∃ s ∈ input, Source.SameShell T s s' := by
  intro cycle path before after c d h hb
  refine (k.carried_transform h).forall_mem (fun s' s'' hs ⟨s, hm, hshell⟩ => ?_) hb
  exact ⟨s, hm, hshell.trans (hs.sameShell hT)⟩

end KindStage

end Codemod
