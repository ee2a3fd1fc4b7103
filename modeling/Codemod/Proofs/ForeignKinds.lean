import Codemod.Proofs.Escalation
import Codemod.Proofs.Kinds
import Codemod.Proofs.Recording

namespace Codemod

def Call.source? {S : Type} : Call S → Option S
  | accept _ _ source _ | visit _ _ source _ => some source
  | make _ _ | transform _ _ _ => none

def Event.source? {S : Type} : Event S → Option S
  | call made => made.source?
  | report _ _ => none

def Event.IsOn {S : Type} (T : Type) [Accepts S T] (event : Event S) : Prop :=
  ∀ s, event.source? = some s → Accepts.isForeign T s = false

theorem Event.isOn_call {S T : Type} [Accepts S T] {call : Call S} {s : S}
    (hs : call.source? = some s) (hf : Accepts.isForeign T s = false) :
    Event.IsOn T (.call call) := by
  intro t ht
  obtain rfl := Option.some.inj (hs.symm.trans ht)
  exact hf

def Event.breach? {S : Type} [Source S] : Event S → Option RecipeError
  | call made => made.breach?
  | report _ _ => none

section
variable {ω τ S T : Type}

def Hook.logged {α : Type} (hook : ErrorHook ω) (h : Hook ω τ α) (call : VisitResult α → Call S) :
    Hook (Logged ω S) τ α :=
  OptionT.mk (ExceptT.mk fun state =>
    Action.logged hook (h.attempt.run state) fun outcome => call outcome.1)

variable [Tree T] [Accepts S T]

def TreeVisitor.watched (hook : ErrorHook ω) (recipe : String) (role : Role) (source : S)
    (v : TreeVisitor ω τ T) : TreeVisitor (Logged ω S) τ T where
  accepts tree := Action.logged hook (v.accepts tree) (.accept recipe role source)
  whole := some fun tree => (v.visit tree).logged hook fun result =>
    .visit recipe role source (result.map (·.map (Accepts.withKind source)))

theorem TreeVisitor.visit_watched (hook : ErrorHook ω) (recipe : String) (role : Role) (source : S)
    (v : TreeVisitor ω τ T) (tree : T) : (v.watched hook recipe role source).visit tree =
      (v.visit tree).logged hook fun result =>
        .visit recipe role source (result.map (·.map (Accepts.withKind source))) := rfl

def TreeVisitor.watchedOnKind (hook : ErrorHook ω) (recipe : String) (role : Role)
    (v : TreeVisitor ω τ T) (initial : τ) : SourceVisitor (Logged ω S) S where
  accepts source := (v.watched hook recipe role source).acceptsKind source
  visit source := (v.watched hook recipe role source).visitKind initial source

def KindFactory.watched (hook : ErrorHook ω) (recipe : String) (role : Role)
    (k : KindFactory ω T) (S : Type) [Accepts S T] : VisitorFactory (Logged ω S) S :=
  ((fun made => made.1.watchedOnKind hook recipe role made.2) <$>
      Action.logged hook k.make fun _ => .make recipe role :
    Action (Logged ω S) (SourceVisitor (Logged ω S) S))

def KindStage.watched (hook : ErrorHook ω) (k : KindStage ω T) (S : Type) [Accepts S T] :
    Stage (Logged ω S) S where
  name := k.name
  displayName := k.displayName
  description := k.description
  tags := k.tags
  gate := k.gate.map (·.watched hook k.name .gate S)
  sourceTest := k.sourceTest.map (·.watched hook k.name .sourceTest S)
  visitor := k.visitor.map (·.watched hook k.name .visitor S)
  repeats := k.repeats

end

namespace Call
variable {S T : Type} [Source S] [Accepts S T]

theorem breach?_of_framed (hT : Accepts.Inner S T) (recipe : String) (role : Role) {s : S}
    {result : VisitResult S} (h : ∀ kept, result = .ok kept → Source.Framed T s kept) :
    (visit recipe role s result).breach? = none := by
  match role, result with
  | .gate, _ => rfl
  | .sourceTest, _ => rfl
  | .visitor, .error _ => rfl
  | .visitor, .ok none => rfl
  | .visitor, .ok (some after) => exact if_pos ((h _ rfl).sameShell hT).id_eq

end Call

namespace Coupling
variable {ω τ S T α β : Type} [Source S] [Tree T] [Accepts S T] {hook : ErrorHook ω}
variable {P : Event S → Prop}

omit [Source S] [Tree T] [Accepts S T] in
theorem lockstep_start {h : Hook ω τ α} {call : VisitResult α → Call S} {initial : τ}
    (hP : ∀ result, P (.call (call result))) :
    (recording hook P).Lockstep Eq (liftM (h.start initial))
      (liftM ((h.logged hook call).start initial)) := by
  rintro _ c' ⟨rfl, hc⟩
  exact .ok rfl ⟨rfl, recorded_append hc (hP _)⟩

theorem lockstep_watchedOnKind {recipe : String} {role : Role} (v : TreeVisitor ω τ T)
    (initial : τ) :
    SourceVisitor.Lockstep (recording hook (Event.IsOn T)) Eq (v.onKind initial : SourceVisitor ω S)
      (v.watchedOnKind hook recipe role initial) where
  accepts := by
    rintro s _ rfl
    change (recording hook (Event.IsOn T)).Lockstep Eq (liftM (v.acceptsKind s))
      (liftM ((v.watched hook recipe role s).acceptsKind s))
    unfold TreeVisitor.acceptsKind
    cases hk : (Accepts.kind? s : Option T) with
    | none => exact lockstep_lift (fun c => rfl) (fun c => rfl) rfl
    | some tree =>
      exact lockstep_recorded fun c => Event.isOn_call rfl (Accepts.isForeign_of_kind? hk)
  visit := by
    rintro s _ rfl
    change (recording hook (Event.IsOn T)).Lockstep _ (liftM (v.visitKind initial s))
      (liftM ((v.watched hook recipe role s).visitKind initial s))
    unfold TreeVisitor.visitKind
    cases hk : (Accepts.kind? s : Option T) with
    | none => exact lockstep_lift (fun c => rfl) (fun c => rfl) (.kept rfl)
    | some tree =>
      have hs : Accepts.isForeign T s = false := Accepts.isForeign_of_kind? hk
      have haccept : (recording hook (Event.IsOn T)).Lockstep Eq (liftM (v.accepts tree))
          (liftM ((v.watched hook recipe role s).accepts tree)) :=
        lockstep_recorded fun c => Event.isOn_call rfl hs
      refine lockstep_lift_bind haccept fun accepted _ he => ?_
      subst he
      split
      case isFalse => exact lockstep_lift (fun c => rfl) (fun c => rfl) (.kept rfl)
      case isTrue =>
        have hcall : ∀ result : VisitResult S,
            (Event.call (.visit recipe role s result)).IsOn T :=
          fun result => Event.isOn_call rfl hs
        have hvisit : (recording hook (Event.IsOn (S := S) T)).Lockstep Eq
            (liftM ((v.visit tree).start initial))
            (liftM (((v.watched hook recipe role s).visit tree).start initial)) := by
          rw [TreeVisitor.visit_watched]
          exact lockstep_start fun result => hcall _
        refine lockstep_lift_bind hvisit ?_
        rintro result _ rfl
        exact lockstep_lift (fun c => rfl) (fun c => rfl) (VisitResult.matched_self s _)

theorem lockstep_watchedFactory {recipe : String} {role : Role} (k : KindFactory ω T) :
    (k.factory S).Lockstep (recording hook (Event.IsOn T)) Eq (k.watched hook recipe role S) := by
  rintro _ c' ⟨rfl, hc⟩
  exact .ok (lockstep_watchedOnKind _ _) ⟨rfl, recorded_append hc fun s h => nomatch h⟩

theorem lockstep_watched (k : KindStage ω T) :
    (k.stage S).Lockstep (recording hook (Event.IsOn T)) Eq (k.watched hook S) := by
  have hk : ∀ (role : Role) (factory : Option (KindFactory ω T)),
      Option.Rel (VisitorFactory.Lockstep (recording hook (Event.IsOn T)) Eq)
        (factory.map (·.factory S)) (factory.map (·.watched hook k.name role S)) := by
    rintro role (_ | factory)
    · exact .none
    · exact .some (lockstep_watchedFactory factory)
  exact Stage.lockstep_of_factories Source.likeness_eq
    (routes_recording fun error answer s h => nomatch h) rfl rfl rfl (hk _ _) (hk _ _) (hk _ _)
    rfl rfl

theorem lockstep_unbroken (hT : Accepts.Inner S T) (recipe : String) (role : Role)
    (v : TreeVisitor ω τ T) (initial : τ) :
    SourceVisitor.Lockstep (recording hook fun event : Event S => event.breach? = none) Eq
      (v.onKind initial) ((v.onKind initial : SourceVisitor ω S).logged hook recipe role) where
  accepts := by
    rintro s _ rfl
    exact lockstep_recorded fun c => rfl
  visit := by
    rintro s _ rfl
    refine (lockstep_recorded fun c => Call.breach?_of_framed hT recipe role
      fun kept hk => TreeVisitor.framed_visitKind hk).imp_of_ok ?_
    rintro c result d _ - rfl
    exact VisitResult.matched_self s _

theorem lockstep_logged_kindStage (hT : Accepts.Inner S T) (k : KindStage ω T) :
    (k.stage S).Lockstep (recording hook fun event : Event S => event.breach? = none) Eq
      ((k.stage S).logged hook) := by
  have hk : ∀ (role : Role) (factory : Option (KindFactory ω T)),
      Option.Rel (VisitorFactory.Lockstep (recording hook fun event => event.breach? = none) Eq)
        (factory.map (·.factory S))
        ((factory.map (·.factory S)).map (VisitorFactory.logged hook k.name role)) := by
    rintro role (_ | factory)
    · exact .none
    · refine .some ?_
      rintro _ c' ⟨rfl, hc⟩
      exact .ok (lockstep_unbroken hT k.name role _ _) ⟨rfl, recorded_append hc rfl⟩
  exact Stage.lockstep_of_factories Source.likeness_eq (routes_recording fun error answer => rfl)
    rfl rfl rfl (hk _ _) (hk _ _) (hk _ _) rfl rfl

end Coupling

namespace Scheduler
variable {ω S T : Type} [Source S] {σ : Scheduler} {hook : ErrorHook ω} {recipe : Recipe ω S}
variable {batch : List S} {c d : Context ω}

theorem ne_contractViolation_of_checks (hd : Source.Distinct batch) (name : String)
    (breach : ContractBreach) :
    σ.checks recipe batch ≠ .error (.contractViolation name breach) := by
  intro h
  cases hv : σ.config.fault? with
  | some fault => simp [checks, Config.validate, hv, bind, Except.bind] at h
  | none =>
    cases hn : recipe.hasBlankName with
    | true => simp [checks, Config.validate, Recipe.validate, hv, hn, bind, Except.bind] at h
    | false =>
      rw [checks_of_valid hv hn, checkIds_eq_ok_iff.mpr hd] at h
      cases h

theorem contractViolation_of_unbroken (hd : Source.Distinct batch)
    (hb : ∀ event ∈ σ.events hook recipe batch c, event.breach? = none) {name : String}
    {breach : ContractBreach}
    (h : ((σ.run recipe batch).perform hook c).1 = .error (.contractViolation name breach)) :
    ∃ pre error, σ.events hook recipe batch c =
      pre ++ [.report error (.error (.contractViolation name breach))] := by
  rcases (conduct_run c).doors h with hr | ⟨-, -, ⟨hc, -⟩ | ⟨pre, call, hes, hcall⟩⟩
  · exact hr
  · exact absurd hc (ne_contractViolation_of_checks hd name breach)
  · have hn : call.breach? = none := hb (.call call) (by rw [hes]; simp)
    rw [hn] at hcall
    cases hcall

end Scheduler

/-- Sources of other kinds come back as they were, but for provenance of earlier runs, in their
order, and are not reported. -/
structure RecipeRun.Spares {S : Type} [Source S] (T : Type) [Accepts S T] (run : RecipeRun S)
    (batch : List S) : Prop where
  untouched : run.batch.filter (Accepts.isForeign T) =
    (batch.filter (Accepts.isForeign T)).map Source.unstamp
  unreported {s : S} (hs : s ∈ batch) (hf : Accepts.isForeign T s = true) :
    ∀ r ∈ run.results, r.id? ≠ some (Tree.id s)

namespace Report
variable {S T : Type} [Source S] [Accepts S T] {batch after : List S} {ledger : Ledger} {n : Nat}

theorem path_stamped (s : S) : Source.path (stamped batch ledger s) = Source.path s := by
  unfold stamped
  split
  · exact Source.path_withMarkers s _
  · split
    · exact Source.path_withMarkers s _
    · rfl

theorem isForeign_stamped (hT : Accepts.Lawful S T) (s : S) :
    Accepts.isForeign T (stamped batch ledger s) = Accepts.isForeign T s := by
  unfold stamped
  split
  · exact hT.isForeign_withMarkers s _
  · split
    · exact hT.isForeign_withMarkers s _
    · rfl

theorem sameShell_stamped (hT : Accepts.Lawful S T) (s : S) :
    Source.SameShell T s (stamped batch ledger s) where
  id_eq := id_stamped batch ledger s
  path_eq := path_stamped s
  others_eq := others_stamped s
  isForeign_eq := isForeign_stamped hT s

theorem spares_ofRun (hT : Accepts.Lawful S T) (hb : Source.Distinct batch)
    (ha : Source.Distinct after)
    (hf : after.filter (Accepts.isForeign T) = batch.filter (Accepts.isForeign T)) :
    (ofRun batch after ledger n).Spares T batch := by
  have hkept : ∀ s ∈ batch, Accepts.isForeign T s = true → s ∈ after := by
    intro s hs hforeign
    have hm : s ∈ after.filter (Accepts.isForeign T) := hf ▸ List.mem_filter.mpr ⟨hs, hforeign⟩
    exact (List.mem_filter.mp hm).1
  constructor
  case untouched =>
    have hcomp : Accepts.isForeign T ∘ stamped batch ledger = Accepts.isForeign T :=
      funext (isForeign_stamped hT)
    rw [ofRun, List.filter_map, hcomp, hf]
    refine List.map_congr_left fun s hs => ?_
    have hfind : Source.find? batch (Tree.id s) = some s :=
      Source.find?_of_mem hb (List.mem_filter.mp hs).1
    rw [stamped, isSettled, hfind, if_pos (by simp)]
  case unreported =>
    intro s hs hforeign r hr hid
    obtain ⟨id, hc, hid', -⟩ := (mem_results_iff hb ha).mp hr
    obtain rfl : Tree.id s = id := Option.some.inj (hid.symm.trans hid')
    refine hc ?_
    rw [Source.find?_of_mem hb hs, Source.find?_of_mem ha (hkept s hs hforeign)]

end Report

namespace Scheduler
variable {ω S T : Type} [Source S] [Tree T] [Accepts S T] {σ : Scheduler} {hook : ErrorHook ω}
variable {recipe : Recipe ω S} {batch : List S} {c d : Context ω} {run : RecipeRun S}
variable {kinds : Stage ω S → KindStage ω T}

def watchedRun (σ : Scheduler) (hook : ErrorHook ω) (recipe : Recipe ω S)
    (kinds : Stage ω S → KindStage ω T) (batch : List S) (c : Context ω) :
    Except RecipeError (RecipeRun S) × Context (Logged ω S) :=
  (σ.run (recipe.mapStages fun stage => (kinds stage).watched hook S) batch).perform hook.logged
    (c.logged [])

theorem watchedRun_eq (hr : ∀ stage ∈ recipe.stages, (kinds stage).stage S = stage) :
    (σ.run recipe batch).perform hook c =
        ((σ.watchedRun hook recipe kinds batch c).1,
          (σ.watchedRun hook recipe kinds batch c).2.unlogged) ∧
      ∀ event ∈ (σ.watchedRun hook recipe kinds batch c).2.client.events, event.IsOn T := by
  refine recorded_run (fun error answer s h => nomatch h) (fun stage hs => ?_) c
  have hl : ((kinds stage).stage S).Lockstep (Coupling.recording hook (Event.IsOn T)) Eq
      ((kinds stage).watched hook S) := Coupling.lockstep_watched (kinds stage)
  rwa [hr stage hs] at hl

theorem events_unbroken (hT : Accepts.Inner S T)
    (hr : ∀ stage ∈ recipe.stages, (kinds stage).stage S = stage) :
    ∀ event ∈ σ.events hook recipe batch c, event.breach? = none := by
  refine (recorded_run (fun error answer => rfl) (fun stage hs => ?_) c).2
  rw [← hr stage hs]
  exact Coupling.lockstep_logged_kindStage hT (kinds stage)

theorem spares_of_run (hT : Accepts.Lawful S T)
    (hr : ∀ stage ∈ recipe.stages, (kinds stage).stage S = stage)
    (h : (σ.run recipe batch).perform hook c = (.ok run, d)) : run.Spares T batch := by
  obtain ⟨rounds, f, hf, rfl⟩ := run_eq_ok_iff.mp h
  have hk : ∀ stage ∈ recipe.stages, σ.Keeps hook stage fun after =>
      after.filter (Accepts.isForeign T) = batch.filter (Accepts.isForeign T) := by
    intro stage hs
    rw [← hr stage hs]
    exact (kinds stage).keeps_foreign hT _
  exact Report.spares_ofRun hT hf.distinct_input hf.distinct_output (hf.keeps hk rfl)

theorem sameShell_of_run (hT : Accepts.Inner S T)
    (hr : ∀ stage ∈ recipe.stages, (kinds stage).stage S = stage)
    (h : (σ.run recipe batch).perform hook c = (.ok run, d)) :
    ∀ s' ∈ run.batch, ∃ s ∈ batch, Source.SameShell T s s' := by
  obtain ⟨rounds, f, hf, rfl⟩ := run_eq_ok_iff.mp h
  have hk : ∀ stage ∈ recipe.stages, σ.Keeps hook stage fun after =>
      ∀ s' ∈ after, ∃ s ∈ batch, Source.SameShell T s s' := by
    intro stage hs
    rw [← hr stage hs]
    exact (kinds stage).keeps_shells hT batch
  intro s'' hm
  obtain ⟨s', hs', rfl⟩ := List.mem_map.mp hm
  obtain ⟨s, hs, hshell⟩ := hf.keeps hk (fun s hs => ⟨s, hs, .refl s⟩) s' hs'
  exact ⟨s, hs, hshell.trans (Report.sameShell_stamped hT.toLawful s')⟩

theorem foreign_kinds_are_spared (σ : Scheduler) (hook : ErrorHook ω) (c : Context ω)
    {batch : List Document} (hd : Source.Distinct batch) :
    (∀ (recipe : Recipe ω Document) (kinds : Stage ω Document → KindStage ω Section),
      (∀ stage ∈ recipe.stages, (kinds stage).stage Document = stage) →
        (∀ name breach, ((σ.run recipe batch).perform hook c).1 =
            .error (.contractViolation name breach) →
          ∃ pre error, σ.events hook recipe batch c =
            pre ++ [.report error (.error (.contractViolation name breach))]) ∧
        ((σ.run recipe batch).perform hook c =
            ((σ.watchedRun hook recipe kinds batch c).1,
              (σ.watchedRun hook recipe kinds batch c).2.unlogged) ∧
          ∀ event ∈ (σ.watchedRun hook recipe kinds batch c).2.client.events, ∀ t,
            event.source? ≠ some (.text t)) ∧
        ∀ run d, (σ.run recipe batch).perform hook c = (.ok run, d) →
          run.Spares Section batch ∧
          ∀ o, .outline o ∈ run.batch → ∃ i, .outline i ∈ batch ∧ o.id = i.id ∧
            o.path = i.path ∧ o.markers.others = i.markers.others) ∧
    ∀ (recipe : Recipe ω Document) (kinds : Stage ω Document → KindStage ω PlainText),
      (∀ stage ∈ recipe.stages, (kinds stage).stage Document = stage) →
        ∀ run d, (σ.run recipe batch).perform hook c = (.ok run, d) →
          run.Spares PlainText batch := by
  refine ⟨fun recipe kinds hr => ⟨?_, ?_, ?_⟩, fun recipe kinds hr run d h => ?_⟩
  · intro name breach
    exact contractViolation_of_unbroken hd (events_unbroken Accepts.inner_section hr)
  · exact ⟨(watchedRun_eq hr).1, fun event he t ht => nomatch (watchedRun_eq hr).2 event he _ ht⟩
  · intro run d h
    refine ⟨spares_of_run Accepts.inner_section.toLawful hr h, fun o ho => ?_⟩
    obtain ⟨s, hs, hshell⟩ := sameShell_of_run Accepts.inner_section hr h _ ho
    cases s with
    | text t => cases hshell.isForeign_eq
    | outline i => exact ⟨i, hs, hshell.id_eq, hshell.path_eq, hshell.others_eq⟩
  · exact spares_of_run Accepts.lawful_plainText hr h

end Scheduler

namespace Sample

def retitle (s : Section) : Hook Unit Nat Section :=
  if s.title = "" then Hook.discard
  else if s.title = "z" then Hook.fail (.failed "z")
  else do
    Hook.updateState (· + 1)
    let n ← Hook.state
    pure { s with title := s.title ++ toString n }

def retitler : KindStage Unit Section :=
  { name := "retitler", visitor := some ⟨Nat, pure ({ visitNode := retitle }, 0)⟩ }

def shouter : KindStage Unit PlainText :=
  { name := "shouter"
    visitor := some
      ⟨Unit, pure ({ visitNode := fun t => pure { t with text := t.text ++ "!" } }, ())⟩ }

def kindRoot (T : Type) : KindStage Unit T :=
  { name := "root" }

def rooted {T : Type} [Tree T] [Accepts Document T] (k : KindStage Unit T) : Recipe Unit Document :=
  ⟨(kindRoot T).stage Document, [⟨k.stage Document, []⟩]⟩

def kindsOver {T : Type} (k : KindStage Unit T) (stage : Stage Unit Document) : KindStage Unit T :=
  if stage.name = "root" then kindRoot T else k

theorem stage_kindsOver {T : Type} [Tree T] [Accepts Document T] {k : KindStage Unit T}
    (hk : k.name ≠ "root") :
    ∀ stage ∈ (rooted k).stages, (kindsOver k stage).stage Document = stage := by
  intro stage hs
  have hl : stage = (kindRoot T).stage Document ∨ stage = k.stage Document := by
    simpa [rooted, Recipe.stages, Recipe.stagesOf] using hs
  rcases hl with rfl | rfl
  · rfl
  · exact congrArg (KindStage.stage · Document) (if_neg hk)

def outline (n : Nat) (root : Section) : Document :=
  .outline ⟨⟨BitVec.ofNat 128 n⟩, ⟨["a"]⟩, {}, root⟩

def documents : List Document :=
  [.text (marked [foreign] (text 1 "x")),
    outline 2 ⟨⟨0⟩, "y", [⟨⟨1⟩, "", []⟩, ⟨⟨2⟩, "x", []⟩]⟩,
    outline 3 ⟨⟨0⟩, "", []⟩, outline 4 ⟨⟨0⟩, "z", []⟩, .text (text 5 "z")]

-- Hands back a violation of its own making.
def accusing : ErrorHook Unit :=
  .custom fun _ c => (.error (.contractViolation "hook" (.duplicateId ⟨0⟩ ⟨[]⟩)), c)

theorem foreign_documents_are_spared :
    ∃ run d run' d',
      (scheduler.run (rooted retitler) documents).perform .record start = (.ok run, d) ∧
      (scheduler.run (rooted shouter) documents).perform .record start = (.ok run', d') ∧
      run.batch.map (fun s => s.root?.map Section.titles) =
        [none, some ["y1", "x2"], some ["z"], none] ∧
      run'.batch.map (fun s => s.text?.map PlainText.text) =
        [some "x!", none, none, none, some "z!"] ∧
      run.Spares Section documents ∧ run'.Spares PlainText documents ∧
      (∀ o, .outline o ∈ run.batch → ∃ i, .outline i ∈ documents ∧ o.id = i.id ∧
        o.path = i.path ∧ o.markers.others = i.markers.others) ∧
      ∃ pre error, scheduler.events accusing (rooted retitler) documents start =
        pre ++ [.report error (.error (.contractViolation "hook" (.duplicateId ⟨0⟩ ⟨[]⟩)))] := by
  have hd : Source.Distinct documents := by
    unfold Source.Distinct
    decide +kernel
  have hr : ((scheduler.run (rooted retitler) documents).perform .record start).1.toOption.map
      (fun run => run.batch.map fun s => s.root?.map Section.titles) =
        some [none, some ["y1", "x2"], some ["z"], none] := by
    decide +kernel
  have hr' : ((scheduler.run (rooted shouter) documents).perform .record start).1.toOption.map
      (fun run => run.batch.map fun s => s.text?.map PlainText.text) =
        some [some "x!", none, none, none, some "z!"] := by
    decide +kernel
  have hv : Attempt.error? ((scheduler.run (rooted retitler) documents).perform accusing start).1 =
      some (.contractViolation "hook" (.duplicateId ⟨0⟩ ⟨[]⟩)) := by
    decide +kernel
  obtain ⟨run, d, h, hb⟩ := Attempt.exists_ok hr
  obtain ⟨run', d', h', hb'⟩ := Attempt.exists_ok hr'
  obtain ⟨hsections, htexts⟩ := Scheduler.foreign_kinds_are_spared scheduler .record start hd
  obtain ⟨-, -, hspares⟩ := hsections _ _ (stage_kindsOver (k := retitler) (by decide))
  obtain ⟨hs, houtlines⟩ := hspares run d h
  have hs' := htexts _ _ (stage_kindsOver (k := shouter) (by decide)) run' d' h'
  obtain ⟨hbreach, -, -⟩ := (Scheduler.foreign_kinds_are_spared scheduler accusing start hd).1 _ _
    (stage_kindsOver (k := retitler) (by decide))
  exact ⟨run, d, run', d', h, h', hb, hb', hs, hs', houtlines,
    hbreach _ _ (Attempt.error?_eq_some_iff.mp hv)⟩

end Sample

end Codemod
