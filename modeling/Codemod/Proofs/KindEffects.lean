import Codemod.Proofs.Hooks

namespace Codemod

section
variable {S : Type} {f : S → Except RecipeError (Option S)} {batch after : List S} {s : S}

theorem filterMapM_of_error {e : RecipeError} (h : f s = .error e) :
    (s :: batch).filterMapM f = .error e := by
  rw [List.filterMapM_cons, h]
  rfl

theorem filterMapM_of_ok {kept : Option S} (h : f s = .ok kept) :
    (s :: batch).filterMapM f = (batch.filterMapM f).map (kept.toList ++ ·) := by
  rw [List.filterMapM_cons, h]
  cases kept <;> cases batch.filterMapM f <;> rfl

def Source.kept (f : S → Except RecipeError (Option S)) (s : S) : Option S :=
  (f s).toOption.join

theorem filterMapM_eq_ok (h : batch.filterMapM f = .ok after) :
    after = batch.filterMap (Source.kept f) := by
  induction batch generalizing after with
  | nil =>
    cases h
    rfl
  | cons s batch ih =>
    cases hs : f s with
    | error e =>
      rw [filterMapM_of_error hs] at h
      cases h
    | ok kept =>
      have hk : Source.kept f s = kept := by
        rw [Source.kept, hs]
        rfl
      rw [filterMapM_of_ok hs] at h
      cases hr : batch.filterMapM f with
      | error e =>
        rw [hr] at h
        cases h
      | ok rest =>
        rw [hr] at h
        cases h
        rw [List.filterMap_cons, hk, ih hr]
        cases kept <;> rfl

theorem filterMapM_ok (g : S → Option S) (batch : List S) :
    batch.filterMapM (fun s => (.ok (g s) : Except RecipeError (Option S))) =
      .ok (batch.filterMap g) := by
  induction batch with
  | nil => rfl
  | cons s batch ih =>
    rw [filterMapM_of_ok rfl, ih, List.filterMap_cons]
    cases g s <;> rfl

end

namespace Source
variable {S T T' : Type} [Source S] [Accepts S T] [Accepts S T']
variable {f : S → Except RecipeError (Option S)} {g : S → Option S} {batch : List S} {id : TreeId}

structure Acts (T : Type) [Accepts S T] (f : S → Except RecipeError (Option S)) : Prop where
  foreign {s : S} (h : Accepts.isForeign T s = true) : f s = .ok (some s)
  id_eq {s t : S} (h : f s = .ok (some t)) : Tree.id t = Tree.id s
  isForeign_eq {s t : S} (h : f s = .ok (some t)) :
    Accepts.isForeign T t = Accepts.isForeign T s

omit [Source S] in
theorem eq_ok_of_kept {s t : S} (h : kept f s = some t) : f s = .ok (some t) := by
  rw [kept] at h
  cases hs : f s with
  | error e =>
    rw [hs] at h
    cases h
  | ok u =>
    rw [hs] at h
    exact congrArg Except.ok h

theorem Acts.kept (hf : Acts T f) : Acts T fun s => .ok (Source.kept f s) where
  foreign h := by
    rw [Source.kept, hf.foreign h]
    rfl
  id_eq h := hf.id_eq (eq_ok_of_kept (Except.ok.inj h))
  isForeign_eq h := hf.isForeign_eq (eq_ok_of_kept (Except.ok.inj h))

theorem Acts.foreign_eq (hg : Acts T fun s => .ok (g s)) {s : S}
    (h : Accepts.isForeign T s = true) : g s = some s :=
  Except.ok.inj (hg.foreign h)

def Disjoint (S T T' : Type) [Accepts S T] [Accepts S T'] : Prop :=
  ∀ s : S, Accepts.isForeign T s = false → Accepts.isForeign T' s = true

omit [Source S] in
theorem Disjoint.symm (h : Disjoint S T T') : Disjoint S T' T := by
  intro s hs
  by_contra hn
  have ht := h s (by simpa using hn)
  rw [hs] at ht
  cases ht

theorem Acts.isForeign_eq_of_disjoint (hf : Acts T f) (hd : Disjoint S T T') {s t : S}
    (h : f s = .ok (some t)) : Accepts.isForeign T' t = Accepts.isForeign T' s := by
  cases hs : Accepts.isForeign T s with
  | false => rw [hd s hs, hd t ((hf.isForeign_eq h).trans hs)]
  | true =>
    obtain rfl : s = t := Option.some.inj (Except.ok.inj ((hf.foreign hs).symm.trans h))
    rfl

theorem filterMapM_filterMap_comm (hf : Acts T f) (hg : Acts T' fun s => .ok (g s))
    (hd : Disjoint S T T') (batch : List S) :
    (batch.filterMap g).filterMapM f = (batch.filterMapM f).map (·.filterMap g) := by
  induction batch with
  | nil => rfl
  | cons s batch ih =>
    rw [List.filterMap_cons]
    cases hs : Accepts.isForeign T s with
    | false =>
      rw [hg.foreign_eq (hd s hs)]
      cases hk : f s with
      | error e =>
        rw [filterMapM_of_error hk, filterMapM_of_error hk]
        rfl
      | ok kept =>
        rw [filterMapM_of_ok hk, filterMapM_of_ok hk, ih]
        cases batch.filterMapM f with
        | error e => rfl
        | ok rest =>
          cases kept with
          | none => rfl
          | some t =>
            have ht : g t = some t :=
              hg.foreign_eq ((hf.isForeign_eq_of_disjoint hd hk).trans (hd s hs))
            simp [Except.map, ht]
    | true =>
      rw [filterMapM_of_ok (hf.foreign hs)]
      cases ht : g s with
      | none =>
        rw [ih]
        cases batch.filterMapM f <;> simp [Except.map, ht]
      | some t =>
        have hft : f t = .ok (some t) :=
          hf.foreign ((hg.isForeign_eq_of_disjoint hd.symm (congrArg Except.ok ht)).trans hs)
        rw [filterMapM_of_ok hft, ih]
        cases batch.filterMapM f <;> simp [Except.map, ht]

theorem find?_filterMap (hg : ∀ s t, g s = some t → Tree.id t = Tree.id s) (hb : Distinct batch)
    (id : TreeId) : find? (batch.filterMap g) id = (find? batch id).bind g := by
  induction batch with
  | nil => rfl
  | cons s batch ih =>
    obtain ⟨hs, hd⟩ := List.nodup_cons.mp (show (Tree.id s :: ids batch).Nodup from hb)
    rw [List.filterMap_cons, find?_cons]
    by_cases hid : Tree.id s = id
    · subst hid
      have hrest : find? (batch.filterMap g) (Tree.id s) = none := by
        rw [ih hd, find?_eq_none_iff.mpr hs]
        rfl
      cases hk : g s with
      | none => simpa [hk] using hrest
      | some t => simp [hk, find?_cons, hg s t hk]
    · rw [if_neg hid, ← ih hd]
      cases hk : g s with
      | none => rfl
      | some t =>
        have ht : ¬ Tree.id t = id := hg s t hk ▸ hid
        exact (find?_cons t _ id).trans (if_neg ht)

theorem changed_filterMap_iff {f : S → Option S} (hf : Acts T fun s => .ok (f s))
    (hg : Acts T' fun s => .ok (g s)) (hd : Disjoint S T T') (hb : Distinct batch) (id : TreeId) :
    Changed (batch.filterMap g) ((batch.filterMap g).filterMap f) id ↔
      Changed batch (batch.filterMap f) id := by
  have hfid : ∀ s t, f s = some t → Tree.id t = Tree.id s := fun s t h =>
    hf.id_eq (congrArg Except.ok h)
  have hgid : ∀ s t, g s = some t → Tree.id t = Tree.id s := fun s t h =>
    hg.id_eq (congrArg Except.ok h)
  have hbg : Distinct (batch.filterMap g) := hb.sublist (ids_filterMap_sublist hgid batch)
  rw [Changed, Changed, find?_filterMap hfid hbg, find?_filterMap hgid hb, find?_filterMap hfid hb]
  cases find? batch id with
  | none => exact Iff.rfl
  | some s =>
    rw [Option.bind_some, Option.bind_some]
    cases hs : Accepts.isForeign T s with
    | false =>
      rw [hg.foreign_eq (hd s hs)]
      exact Iff.rfl
    | true =>
      rw [hf.foreign_eq hs]
      cases ht : g s with
      | none => simp
      | some t =>
        have hft : f t = some t :=
          hf.foreign_eq ((hg.isForeign_eq_of_disjoint hd.symm (congrArg Except.ok ht)).trans hs)
        simp [hft]

end Source

def VisitResult.outcome {S : Type} [Source S] (recipe : String) (s : S) :
    VisitResult S → Except RecipeError (Option S)
  | .ok none => .ok none
  | .ok (some after) =>
    if Tree.id after = Tree.id s then .ok (some after)
    else .error (.contractViolation recipe
      (.replacedId (Tree.id s) (Source.path s) (Tree.id after)))
  | .error _ => .ok (some s)

namespace Stage
variable {ω S : Type} [Source S] {hook : ErrorHook ω} {stage : Stage ω S}
variable {factory : VisitorFactory ω S} {c : Context ω}

theorem constantly_visitSource (hh : hook.Swallows)
    (hs : stage.Each hook (Action.IsConstant hook)) (hb : stage.batchTransform = none)
    {v : SourceVisitor ω S} (hm : ∀ c, Action.perform factory hook c = (v, c)) {s : S}
    {result : VisitResult S} (hr : ∀ c, (v.visit s).perform hook c = (result, c)) (c : Context ω) :
    ∃ admitted : Bool, Attempt.Constantly hook (stage.visitSource factory s)
      (if admitted then result.outcome stage.name s else .ok (some s)) [] := by
  have hQ := Attempt.lawful_constantly hh
  obtain ⟨admitted, es, ha⟩ := returns_admitsSource hQ (hs.answers hb c) s
  refine ⟨admitted, ?_⟩
  cases admitted with
  | false => exact hQ.chains ha (hQ.returns (some s))
  | true =>
    have hmake :
        Attempt.Constantly hook (liftM factory : Attempt ω (SourceVisitor ω S)) (.ok v) [] :=
      fun c => ⟨c, Attempt.lift_eq_ok.mpr (hm c), .refl c⟩
    have hvisit : Attempt.Constantly hook (liftM (v.visit s)) (.ok result) [] :=
      fun c => ⟨c, Attempt.lift_eq_ok.mpr (hr c), .refl c⟩
    match result with
    | .ok none => exact hQ.chains ha (hQ.chains hmake (hQ.chains hvisit (hQ.returns none)))
    | .error cause =>
      exact hQ.chains ha (hQ.chains hmake (hQ.chains hvisit
        (hQ.chains (hQ.raises _) (hQ.returns (some s)))))
    | .ok (some after) =>
      have hend : Attempt.Constantly hook (if Tree.id after = Tree.id s then pure (some after)
          else throw (.contractViolation stage.name (.replacedId (Tree.id s) (Source.path s)
            (Tree.id after)))) (VisitResult.outcome stage.name s (.ok (some after))) [] := by
        by_cases hid : Tree.id after = Tree.id s
        · rw [VisitResult.outcome, if_pos hid, if_pos hid]
          exact hQ.returns (some after)
        · rw [VisitResult.outcome, if_neg hid, if_neg hid]
          exact hQ.throws _
      exact hQ.chains ha (hQ.chains hmake (hQ.chains hvisit hend))

theorem constantly_visitInTurn (hh : hook.Swallows) {f : S → Except RecipeError (Option S)}
    (hf : ∀ s, Attempt.Constantly hook (stage.visitSource factory s) (f s) []) (batch : List S) :
    Attempt.Constantly hook (stage.visitInTurn factory batch) (batch.filterMapM f) [] := by
  have hQ := Attempt.lawful_constantly hh
  induction batch with
  | nil => exact hQ.returns []
  | cons s batch ih =>
    have hs := hf s
    cases hk : f s with
    | error e =>
      rw [filterMapM_of_error hk]
      rw [hk] at hs
      exact hQ.fails hs
    | ok kept =>
      rw [filterMapM_of_ok hk]
      rw [hk] at hs
      cases hr : batch.filterMapM f with
      | error e =>
        rw [hr] at ih
        exact hQ.chains hs (hQ.fails ih)
      | ok rest =>
        rw [hr] at ih
        exact hQ.chains hs (hQ.chains ih (hQ.returns _))

end Stage

structure KindStage.IsPlain {ω T : Type} [Tree T] (hook : ErrorHook ω) (S : Type) [Accepts S T]
    (k : KindStage ω T) : Prop where
  ungated : k.gate = none
  visits : k.visitor.isSome = true
  constant : (k.stage S).Each hook (Action.IsConstant hook)

theorem KindStage.isPlain_of_factories {ω T : Type} [Tree T] {hook : ErrorHook ω} (S : Type)
    [Accepts S T] {k : KindStage ω T} {visitor : KindFactory ω T} (hg : k.gate = none)
    (ht : ∀ test, k.sourceTest = some test → test.IsConstant hook)
    (hv : k.visitor = some visitor) (hc : visitor.IsConstant hook) : k.IsPlain hook S where
  ungated := hg
  visits := by
    rw [hv]
    rfl
  constant := by
    constructor
    case gate =>
      intro test h
      rw [KindStage.stage, hg] at h
      cases h
    case sourceTest =>
      intro test h
      obtain ⟨inner, hi, rfl⟩ := Option.map_eq_some_iff.mp h
      exact (ht inner hi).factory
    case visitor =>
      intro factory h
      obtain ⟨inner, hi, rfl⟩ := Option.map_eq_some_iff.mp h
      obtain rfl := Option.some.inj (hv.symm.trans hi)
      exact hc.factory

section
variable {ω S T : Type} [Source S] [Tree T] [Accepts S T] {hook : ErrorHook ω}

omit [Source S] in
theorem TreeVisitor.visitKind_foreign {τ : Type} (v : TreeVisitor ω τ T) (initial : τ) {s : S}
    (h : Accepts.isForeign T s = true) (c : Context ω) :
    (v.visitKind initial s).perform hook c = (.ok (some s), c) := by
  rw [visitKind, Option.isNone_iff_eq_none.mp h]
  rfl

omit [Tree T] in
theorem VisitResult.outcome_of_framed (hT : Accepts.Inner S T) (recipe : String) {s : S}
    {result : VisitResult S} (h : ∀ kept, result = .ok kept → Source.Framed T s kept) :
    ∃ kept, result.outcome recipe s = .ok kept := by
  match result with
  | .error _ => exact ⟨some s, rfl⟩
  | .ok none => exact ⟨none, rfl⟩
  | .ok (some after) => exact ⟨some after, if_pos ((h _ rfl).sameShell hT).id_eq⟩

/-- What a plain stage of a kind does to each source, in whatever context of a sequential run. -/
structure KindStage.Effect (σ : Scheduler) (hook : ErrorHook ω) (k : KindStage ω T)
    (f : S → Except RecipeError (Option S)) : Prop where
  ungated : (k.stage S).gate = none
  hasTransform : (k.stage S).hasTransform = true
  acts : Source.Acts T f
  total (hT : Accepts.Inner S T) (s : S) : ∃ kept, f s = .ok kept
  transforms (n : Nat) (path : RecipePath) (batch : List S) :
    Attempt.Constantly hook (σ.transform n path (k.stage S) batch) (batch.filterMapM f) []

omit [Tree T] [Accepts S T] in
theorem Scheduler.transform_visitInTurn {σ : Scheduler} {stage : Stage ω S}
    {factory : VisitorFactory ω S} {n : Nat} {path : RecipePath} {batch : List S}
    (hσ : σ.config.parallel = false) (hb : stage.batchTransform = none)
    (hv : stage.visitor = some factory) :
    σ.transform n path stage batch = stage.visitInTurn factory batch := by
  simp only [transform, hb, hv, Config.visitsInParallel, hσ, Bool.false_and, Bool.false_eq_true,
    if_false]

theorem KindStage.IsPlain.exists_effect {k : KindStage ω T} (hk : k.IsPlain hook S)
    (hT : Accepts.Lawful S T) (hh : hook.Swallows) {σ : Scheduler}
    (hσ : σ.config.parallel = false) (c : Context ω) :
    ∃ f : S → Except RecipeError (Option S), k.Effect σ hook f := by
  obtain ⟨inner, hi⟩ := Option.isSome_iff_exists.mp hk.visits
  have hv : (k.stage S).visitor = some (inner.factory S) := by
    rw [KindStage.stage, hi]
    rfl
  obtain ⟨v, hm, hconst⟩ := (hk.constant.visitor hv).constant c
  obtain ⟨initial, tv, rfl⟩ : ∃ (initial : inner.State) (tv : TreeVisitor ω inner.State T),
      v = tv.onKind initial := ⟨_, _, congrArg Prod.fst (hm c).symm⟩
  choose result hr using hconst.visit
  choose admitted ha using fun s =>
    Stage.constantly_visitSource hh hk.constant rfl hm (hr s) c
  let f : S → Except RecipeError (Option S) := fun s =>
    if admitted s then (result s).outcome k.name s else .ok (some s)
  have hf : ∀ s, Attempt.Constantly hook ((k.stage S).visitSource (inner.factory S) s) (f s) [] :=
    ha
  have hframed : ∀ {s : S} {kept : Option S}, f s = .ok kept → Source.Framed T s kept := by
    intro s kept hs
    obtain ⟨d, hd, -⟩ := hf s c
    rw [hs] at hd
    exact inner.framed_visitSource hd
  have hforeign : ∀ {s : S}, Accepts.isForeign T s = true → f s = .ok (some s) := by
    intro s hs
    have hres : result s = .ok (some s) := by
      have hvisit := (hr s c).symm.trans (tv.visitKind_foreign initial hs c)
      exact congrArg Prod.fst hvisit
    simp only [f, hres, VisitResult.outcome, if_true, ite_self]
  have hgate : (k.stage S).gate = none := by
    rw [KindStage.stage, hk.ungated]
    rfl
  have htransform : (k.stage S).hasTransform = true := by
    rw [Stage.hasTransform, hv]
    rfl
  refine ⟨f, ⟨hgate, htransform, ⟨hforeign, ?_, ?_⟩, ?total, ?transforms⟩⟩
  · intro s t hs
    obtain ⟨d, hd, -⟩ := hf s c
    rw [hs] at hd
    exact Stage.id_of_visitSource hd
  · intro s t hs
    exact (hframed hs).isForeign_eq hT
  case total =>
    intro hI s
    by_cases hs : admitted s = true
    · simp only [f, if_pos hs]
      refine VisitResult.outcome_of_framed hI k.name fun kept hkept => ?_
      have hvisit : ((tv.visitKind initial s).perform hook c).1 = .ok kept :=
        (congrArg Prod.fst (hr s c)).trans hkept
      exact TreeVisitor.framed_visitKind hvisit
    · exact ⟨some s, if_neg hs⟩
  case transforms =>
    intro n path batch
    rw [Scheduler.transform_visitInTurn hσ rfl hv]
    exact Stage.constantly_visitInTurn hh hf batch

end

end Codemod
