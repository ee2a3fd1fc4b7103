import Codemod.Document
import Codemod.Proofs.History

namespace Codemod

structure Round (ω S : Type) where
  before : List S
  applications : List (Application ω S)
  after : List S
  finish : Context ω

namespace Round
variable {ω S : Type}

def applied (rounds : List (Round ω S)) : List (Application ω S) :=
  rounds.flatMap Round.applications

theorem applied_cons (r : Round ω S) (rounds : List (Round ω S)) :
    applied (r :: rounds) = r.applications ++ applied rounds := by
  simp [applied]

theorem mem_applied_cons {r : Round ω S} {rounds : List (Round ω S)} {a : Application ω S} :
    a ∈ applied (r :: rounds) ↔ a ∈ r.applications ∨ a ∈ applied rounds := by
  rw [applied_cons, List.mem_append]

theorem mem_applied {r : Round ω S} {rounds : List (Round ω S)} {a : Application ω S}
    (hr : r ∈ rounds) (ha : a ∈ r.applications) : a ∈ applied rounds :=
  List.mem_flatMap.mpr ⟨r, hr, ha⟩

def triggers [Source S] (r : Round ω S) : Bool :=
  r.applications.any Application.asks && (r.after ≠ r.before || r.finish.hasNewMessages)

end Round

namespace Scheduler
variable {ω S : Type} [Source S]

/-- Cycles one after another, the first one numbered `n + 1`; no rule here says when to stop. -/
inductive Rounds (σ : Scheduler) (hook : ErrorHook ω) (recipe : Recipe ω S) :
    Nat → List S → Context ω → List (Round ω S) → List S → Context ω → Prop
  | nil {n batch c} : Rounds σ hook recipe n batch c [] batch c
  | cons {n batch c log after e rounds batch' d}
      (walk : Walk σ hook (n + 1) [] 0 [recipe] batch c.resetNewMessages log after e)
      (rest : Rounds σ hook recipe (n + 1) after e rounds batch' d) :
      Rounds σ hook recipe n batch c (⟨batch, log, after, e⟩ :: rounds) batch' d

inductive Cycling (σ : Scheduler) (hook : ErrorHook ω) (recipe : Recipe ω S) :
    Nat → Flight S → Context ω → List (Round ω S) → Flight S → Context ω → Prop
  | spent {f c} : Cycling σ hook recipe 0 f c [] f c
  | cancelled {limit f c} (hc : c.cancelled = true) :
      Cycling σ hook recipe (limit + 1) f c [] f c
  | settled {limit f c log after d} (hc : c.cancelled = false)
      (walk : Walk σ hook (f.cycles + 1) [] 0 [recipe] f.batch c.resetNewMessages log after d)
      (hm : σ.config.minCycles ≤ f.cycles + 1)
      (ht : (Round.mk f.batch log after d).triggers = false) :
      Cycling σ hook recipe (limit + 1) f c [⟨f.batch, log, after, d⟩]
        ⟨after, f.ledger.replay log, f.cycles + 1⟩ d
  | again {limit f c log after e rounds g d} (hc : c.cancelled = false)
      (walk : Walk σ hook (f.cycles + 1) [] 0 [recipe] f.batch c.resetNewMessages log after e)
      (hs : σ.config.minCycles ≤ f.cycles + 1 → (Round.mk f.batch log after e).triggers = true)
      (rest : Cycling σ hook recipe limit ⟨after, f.ledger.replay log, f.cycles + 1⟩ e
        rounds g d) :
      Cycling σ hook recipe (limit + 1) f c (⟨f.batch, log, after, e⟩ :: rounds) g d

variable {σ : Scheduler} {hook : ErrorHook ω} {recipe : Recipe ω S} {limit : Nat}
variable {c d : Context ω} {f g : Flight S} {rounds : List (Round ω S)}

theorem cycle_eq_ok_iff {another : Bool} :
    (σ.cycle recipe f).perform hook c = (.ok (g, another), d) ↔
      ∃ log after,
        Walk σ hook (f.cycles + 1) [] 0 [recipe] f.batch c.resetNewMessages log after d ∧
        g = ⟨after, f.ledger.replay log, f.cycles + 1⟩ ∧
        another = (Round.mk f.batch log after d).triggers := by
  rw [cycle, Attempt.update_bind]
  constructor
  · intro h
    obtain ⟨p, e, hi, h⟩ := Attempt.bind_eq_ok.mp h
    obtain ⟨log, hw, hp⟩ := invoke_eq_ok_iff.mp hi
    have hl : p.ledger = f.ledger.replay log := by rw [hp, Pass.ledger_replay]
    have ha : p.anotherCycle = log.any Application.asks := by
      rw [hp, Pass.anotherCycle_replay, Bool.false_or]
    rw [Attempt.context_bind] at h
    cases h
    rw [hl, ha]
    exact ⟨log, p.batch, hw, rfl, rfl⟩
  · rintro ⟨log, after, hw, rfl, rfl⟩
    let p : Pass S := ⟨f.batch, f.ledger, false⟩
    have hb : (p.replay log).batch = after := hw.batch_replay p rfl
    have hi : (σ.invoke (f.cycles + 1) [] 0 recipe p).perform hook c.resetNewMessages =
        (.ok (p.replay log), d) := invoke_eq_ok_iff.mpr ⟨log, hb.symm ▸ hw, rfl⟩
    rw [Attempt.bind_of_ok hi, Attempt.context_bind, hb, Pass.ledger_replay,
      Pass.anotherCycle_replay, Bool.false_or]
    rfl

theorem cycles_succ (hc : c.cancelled = false) :
    (σ.cycles recipe (limit + 1) f).perform hook c =
      (σ.cycle recipe f >>= fun r =>
        if σ.config.minCycles ≤ r.1.cycles && !r.2 then pure r.1
        else σ.cycles recipe limit r.1).perform hook c := by
  rw [cycles, Attempt.context_bind, hc]
  rfl

theorem Cycling.perform_cycles (h : Cycling σ hook recipe limit f c rounds g d) :
    (σ.cycles recipe limit f).perform hook c = (.ok g, d) := by
  induction h with
  | spent => rfl
  | cancelled hc =>
    rw [cycles, Attempt.context_bind, if_pos hc]
    rfl
  | settled hc hw hm ht =>
    rw [cycles_succ hc, Attempt.bind_of_ok (cycle_eq_ok_iff.mpr ⟨_, _, hw, rfl, rfl⟩)]
    simp only [hm, ht, decide_true, Bool.not_false, Bool.and_self, if_true]
    rfl
  | again hc hw hs rest ih =>
    rw [cycles_succ hc, Attempt.bind_of_ok (cycle_eq_ok_iff.mpr ⟨_, _, hw, rfl, rfl⟩), if_neg]
    · exact ih
    · simpa using hs

theorem cycles_eq_ok_iff :
    (σ.cycles recipe limit f).perform hook c = (.ok g, d) ↔
      ∃ rounds, Cycling σ hook recipe limit f c rounds g d := by
  constructor
  · intro h
    induction limit generalizing f c with
    | zero =>
      cases h
      exact ⟨[], .spent⟩
    | succ limit ih =>
      cases hc : c.cancelled with
      | true =>
        rw [cycles, Attempt.context_bind, if_pos hc] at h
        cases h
        exact ⟨[], .cancelled hc⟩
      | false =>
        rw [cycles_succ hc] at h
        obtain ⟨⟨f', another⟩, e, hf, h⟩ := Attempt.bind_eq_ok.mp h
        obtain ⟨log, after, hw, rfl, rfl⟩ := cycle_eq_ok_iff.mp hf
        split at h
        case isTrue hs =>
          simp only [Bool.and_eq_true, decide_eq_true_eq, Bool.not_eq_true'] at hs
          cases h
          exact ⟨_, .settled hc hw hs.1 hs.2⟩
        case isFalse hs =>
          obtain ⟨rounds, hr⟩ := ih h
          exact ⟨_, .again hc hw (by simpa using hs) hr⟩
  · rintro ⟨rounds, h⟩
    exact h.perform_cycles

namespace Cycling

theorem to_rounds (h : Cycling σ hook recipe limit f c rounds g d) :
    Rounds σ hook recipe f.cycles f.batch c rounds g.batch d := by
  induction h with
  | spent => exact .nil
  | cancelled => exact .nil
  | settled _ hw _ _ => exact .cons hw .nil
  | again _ hw _ _ ih => exact .cons hw ih

theorem cycles_eq (h : Cycling σ hook recipe limit f c rounds g d) :
    g.cycles = f.cycles + rounds.length := by
  induction h with
  | spent => rfl
  | cancelled => rfl
  | settled => rfl
  | again _ _ _ _ ih =>
    rw [ih, List.length_cons, Nat.add_assoc, Nat.add_comm 1]

theorem ledger_eq (h : Cycling σ hook recipe limit f c rounds g d) :
    g.ledger = f.ledger.replay (Round.applied rounds) := by
  induction h with
  | spent => rfl
  | cancelled => rfl
  | settled => simp [Round.applied]
  | again _ _ _ _ ih => rw [ih, Round.applied_cons, Ledger.replay_append]

end Cycling

namespace Rounds
variable {n : Nat} {batch after : List S}

theorem distinct (h : Rounds σ hook recipe n batch c rounds after d)
    (hb : Source.Distinct batch) :
    (∀ a ∈ Round.applied rounds, a.Distinct) ∧ Source.Distinct after := by
  induction h with
  | nil => exact ⟨by simp [Round.applied], hb⟩
  | cons hw _ ih =>
    obtain ⟨hl, hm⟩ := hw.distinct hb
    obtain ⟨hr, ha⟩ := ih hm
    refine ⟨fun a h => ?_, ha⟩
    rcases Round.mem_applied_cons.mp h with h | h
    · exact hl a h
    · exact hr a h

theorem located (h : Rounds σ hook recipe n batch c rounds after d) :
    ∀ a ∈ Round.applied rounds, Recipe.At 0 [recipe] a.path a.stage := by
  induction h with
  | nil => simp [Round.applied]
  | cons hw _ ih =>
    intro a h
    rcases Round.mem_applied_cons.mp h with h | h
    · obtain ⟨tail, hp, ht⟩ := hw.located a h
      rwa [hp, List.nil_append]
    · exact ih a h

theorem performed (h : Rounds σ hook recipe n batch c rounds after d) :
    ∀ a ∈ Round.applied rounds, ∃ cycle, a.Performed σ hook cycle := by
  induction h with
  | nil => simp [Round.applied]
  | cons hw _ ih =>
    intro a h
    rcases Round.mem_applied_cons.mp h with h | h
    · exact ⟨_, hw.performed a h⟩
    · exact ih a h

end Rounds

theorem checks_eq_ok_iff {batch : List S} :
    σ.checks recipe batch = .ok () ↔
      (0 < σ.config.maxCycles ∧ σ.config.minCycles ≤ σ.config.maxCycles) ∧
        recipe.hasBlankName = false ∧ Source.Distinct batch := by
  rw [← Config.fault?_eq_none_iff, checks, Config.validate, Recipe.validate]
  cases hf : σ.config.fault? with
  | some fault => simp [bind, Except.bind]
  | none =>
    cases hb : recipe.hasBlankName with
    | true => simp [bind, Except.bind]
    | false =>
      simp only [bind, Except.bind, Bool.false_eq_true, if_false, true_and]
      exact checkIds_eq_ok_iff

theorem run_of_accepted {batch : List S} (ha : σ.checks recipe batch = .ok ()) :
    (σ.run recipe batch).perform hook c =
      (σ.cycles recipe σ.config.maxCycles ⟨batch, {}, 0⟩ >>= fun f =>
        pure (Report.ofRun batch f.batch f.ledger f.cycles)).perform hook c := by
  have hc : (Attempt.ofExcept (σ.checks recipe batch)).perform hook c = (.ok (), c) :=
    Attempt.ofExcept_eq_ok.mpr ⟨ha, rfl⟩
  rw [run, Attempt.bind_of_ok hc]

structure Completes (σ : Scheduler) (hook : ErrorHook ω) (recipe : Recipe ω S) (batch : List S)
    (c : Context ω) (rounds : List (Round ω S)) (f : Flight S) (d : Context ω) : Prop where
  accepted : σ.checks recipe batch = .ok ()
  flown : Cycling σ hook recipe σ.config.maxCycles ⟨batch, {}, 0⟩ c rounds f d

namespace Completes
variable {batch : List S}

theorem distinct_input (h : Completes σ hook recipe batch c rounds f d) :
    Source.Distinct batch :=
  (checks_eq_ok_iff.mp h.accepted).2.2

theorem to_rounds (h : Completes σ hook recipe batch c rounds f d) :
    Rounds σ hook recipe 0 batch c rounds f.batch d :=
  h.flown.to_rounds

theorem distinct (h : Completes σ hook recipe batch c rounds f d) :
    ∀ a ∈ Round.applied rounds, a.Distinct :=
  (h.to_rounds.distinct h.distinct_input).1

theorem distinct_output (h : Completes σ hook recipe batch c rounds f d) :
    Source.Distinct f.batch :=
  (h.to_rounds.distinct h.distinct_input).2

theorem ledger_eq (h : Completes σ hook recipe batch c rounds f d) :
    f.ledger = Ledger.empty.replay (Round.applied rounds) :=
  h.flown.ledger_eq

theorem cycles_eq (h : Completes σ hook recipe batch c rounds f d) :
    f.cycles = rounds.length := by
  rw [h.flown.cycles_eq, Nat.zero_add]

end Completes

theorem run_eq_ok_iff {batch : List S} {run : RecipeRun S} :
    (σ.run recipe batch).perform hook c = (.ok run, d) ↔
      ∃ rounds f, Completes σ hook recipe batch c rounds f d ∧
        run = Report.ofRun batch f.batch f.ledger f.cycles := by
  constructor
  · intro h
    obtain ⟨⟨⟩, e, ha, hr⟩ := Attempt.bind_eq_ok.mp h
    obtain ⟨hc, rfl⟩ := Attempt.ofExcept_eq_ok.mp ha
    obtain ⟨f, e, hf, hr⟩ := Attempt.bind_eq_ok.mp hr
    obtain ⟨rfl, rfl⟩ := Attempt.pure_eq_ok.mp hr
    obtain ⟨rounds, hf⟩ := cycles_eq_ok_iff.mp hf
    exact ⟨rounds, f, ⟨hc, hf⟩, rfl⟩
  · rintro ⟨rounds, f, ⟨hc, hf⟩, rfl⟩
    rw [run_of_accepted hc, Attempt.bind_of_ok (cycles_eq_ok_iff.mpr ⟨rounds, hf⟩)]
    rfl

end Scheduler

namespace Sample

def rewriting (old new : String) : VisitorFactory Unit PlainText :=
  (pure {
    accepts := fun _ => pure true
    visit := fun t => pure (.ok (some (if t.text = old then { t with text := new } else t))) } :
    Action Unit (SourceVisitor Unit PlainText))

def bang : Recipe Unit PlainText :=
  ⟨{ name := "bang", visitor := some (rewriting "y" "y!"), repeats := true }, []⟩

def swap : Recipe Unit PlainText :=
  ⟨{ name := "swap", visitor := some (rewriting "x" "y"), repeats := true }, []⟩

def purge : Recipe Unit PlainText :=
  ⟨{ name := "purge", batchTransform := some fun batch => pure (batch.filter (·.text ≠ "")) }, []⟩

-- The second sibling acts in the first cycle, the first one only in the second.
def recipe : Recipe Unit PlainText :=
  .composite "root" [⟨{ name := "outer", displayName := "Outer" }, [bang]⟩, swap, purge]

def text (n : Nat) (content : String) : PlainText :=
  ⟨⟨BitVec.ofNat 128 n⟩, ⟨["a"]⟩, {}, content⟩

def batch : List PlainText :=
  [text 1 "", text 2 "x", text 3 "z"]

def scheduler : Scheduler :=
  { config := { maxCycles := 5, parallel := false } }

def lastFirst : VisitOrder where
  arrange := fun _ _ positions => positions.reverse
  perm := fun _ _ positions => positions.reverse_perm

def start : Context Unit :=
  { client := () }

def outcome : Except RecipeError (RecipeRun PlainText) × Context Unit :=
  (scheduler.run recipe batch).perform .record start

def run : RecipeRun PlainText :=
  outcome.1.toOption.getD ⟨[], batch, 0⟩

theorem outcome_eq : outcome = (.ok run, outcome.2) := by
  have h : outcome.1.toOption.isSome = true := by decide +kernel
  unfold run
  generalize outcome = o at h
  obtain ⟨r | r, d⟩ := o
  · simp [Except.toOption] at h
  · rfl

end Sample

end Codemod
