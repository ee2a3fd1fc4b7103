import Codemod.Script.ContextStep
import Mathlib.Data.List.DropRight

namespace Codemod

/-- An entry with the first property, which also sees what came before it, and after that entry none
with the second. -/
def Since {α : Type} (P : List α → α → Prop) (T : α → Prop) (l : List α) : Prop :=
  ∃ before x after, l = before ++ x :: after ∧ P before x ∧ ∀ y ∈ after, ¬ T y

section
variable {α : Type} {P : List α → α → Prop} {T : α → Prop}

theorem not_since_nil : ¬ Since P T [] := by
  rintro ⟨before, x, after, he, -⟩
  simp at he

theorem since_append_singleton {l : List α} {y : α} :
    Since P T (l ++ [y]) ↔ P l y ∨ ¬ T y ∧ Since P T l := by
  constructor
  · rintro ⟨before, x, after, he, hp, ht⟩
    induction after using List.reverseRecOn with
    | nil =>
      obtain ⟨rfl, rfl⟩ := List.append_singleton_inj.mp he
      exact .inl hp
    | append_singleton after z =>
      rw [← List.cons_append, ← List.append_assoc] at he
      obtain ⟨rfl, rfl⟩ := List.append_singleton_inj.mp he
      exact .inr ⟨ht y (by simp), before, x, after, rfl, hp, fun z hz => ht z (by simp [hz])⟩
  · rintro (hp | ⟨hy, before, x, after, rfl, hp, ht⟩)
    · exact ⟨l, y, [], rfl, hp, by simp⟩
    · refine ⟨before, x, after ++ [y], by simp, hp, fun z hz => ?_⟩
      rcases List.mem_append.mp hz with hz | hz
      · exact ht z hz
      · exact List.mem_singleton.mp hz ▸ hy

end

namespace Table
variable {κ ν : Type} [DecidableEq κ] {t : Table κ ν} {k j : κ} {v w : ν}

theorem get?_insert_eq_some_iff :
    (t.insert k v).get? j = some w ↔ (k = j ∧ v = w) ∨ ¬ k = j ∧ t.get? j = some w := by
  rw [get?_insert]
  by_cases h : j = k
  · simp [h]
  · simp [h, Ne.symm h]

theorem get?_erase_eq_some_iff :
    (t.erase k).get? j = some w ↔ ¬ k = j ∧ t.get? j = some w := by
  rw [get?_erase]
  by_cases h : j = k
  · simp [h]
  · simp [h, Ne.symm h]

end Table

theorem Message.as?_eq_some_iff {κ : Type} [MessageKinds κ] [DecidableEq κ] {m : Message κ} {k : κ}
    {v : MessageKinds.Value k} : m.as? k = some v ↔ m = ⟨k, v⟩ := by
  obtain ⟨kind, value⟩ := m
  by_cases h : kind = k
  · subst h
    rw [as?_self]
    simp
  · rw [as?_of_ne value h]
    simp [h]

theorem Context.get?_eq_some_iff {ω κ : Type} [MessageKinds κ] [DecidableEq κ] {c : Context ω κ}
    {k : κ} {key : String} {v : MessageKinds.Value k} :
    c.get? k key = some v ↔ c.messages.get? key = some ⟨k, v⟩ := by
  simp [get?, Option.bind_eq_some_iff, Message.as?_eq_some_iff]

theorem Context.holds_iff {ω κ : Type} [MessageKinds κ] {c : Context ω κ} {key : String} :
    c.holds key = true ↔ ∃ m, c.messages.get? key = some m :=
  Option.isSome_iff_exists

def ErrorHook.IsAloof {ω κ : Type} [MessageKinds κ] : ErrorHook ω κ → Prop
  | .record => True
  | .custom handle => ∀ e c, ∃ client, (handle e c).2 = { c with client := client }

namespace ContextStep
variable {κ : Type} [MessageKinds κ]

def Touches (key : String) : ContextStep κ → Prop
  | .put k _ | .remove k | .compute _ k _ => k = key
  | _ => False

def Writes : ContextStep κ → Prop
  | .put _ _ | .compute _ _ _ => True
  | _ => False

def Resets : ContextStep κ → Prop
  | .resetNewMessages => True
  | _ => False

def Cancels (shared : Bool) : ContextStep κ → Prop
  | .cancel => True
  | .cancelToken => shared = true
  | _ => False

def reported? : ContextStep κ → Option RecipeError
  | .report e => some e
  | _ => none

def takes : ContextStep κ → Bool
  | .takeErrors => true
  | _ => false

def apply {ω : Type} [DecidableEq κ] (shared : Bool) (c : Context ω κ) :
    ContextStep κ → Context ω κ
  | .put k m => c.put k m
  | .remove k => c.remove k
  | .compute kind k f => c.compute kind k f
  | .resetNewMessages => c.resetNewMessages
  | .cancel => c.cancel
  | .cancelToken => { c with cancelled := c.cancelled || shared }
  | _ => c

def recorded? {ω : Type} (hook : ErrorHook ω κ) (s : ContextStep κ) : Option RecipeError :=
  if hook.isCustom then none else s.reported?

def untaken (history : List (ContextStep κ)) : List RecipeError :=
  (history.rtakeWhile fun s => !s.takes).filterMap reported?

end ContextStep

def ContextAnswer.ofVerdict {κ : Type} [MessageKinds κ] : Except RecipeError Unit → ContextAnswer κ
  | .ok () => .swallowed
  | .error e => .returned e

namespace TokenTrial
variable {ω κ : Type} [MessageKinds κ] [DecidableEq κ] {hook : ErrorHook ω κ}
variable {t : TokenTrial ω κ} {history : List (ContextStep κ)} {key : String}

def after (hook : ErrorHook ω κ) (t : TokenTrial ω κ) (history : List (ContextStep κ)) :
    TokenTrial ω κ :=
  history.foldl (fun t s => (t.step hook s).2) t

theorem after_append_singleton (s : ContextStep κ) :
    t.after hook (history ++ [s]) = ((t.after hook history).step hook s).2 := by
  simp [after]

def Leaves (hook : ErrorHook ω κ) (t : TokenTrial ω κ) (key : String) (m : Message κ) :
    ContextStep κ → Prop
  | .put k m' => k = key ∧ m' = m
  | .compute kind k f => k = key ∧ (t.step hook (.compute kind k f)).1 = .value (some m)
  | _ => False

def Stored (hook : ErrorHook ω κ) (start : TokenTrial ω κ) (history : List (ContextStep κ))
    (key : String) (m : Message κ) : Prop :=
  Since (fun before s => (start.after hook before).Leaves hook key m s) (ContextStep.Touches key)
    history

theorem step_report (hook : ErrorHook ω κ) (t : TokenTrial ω κ) (e : RecipeError) :
    t.step hook (.report e) = (.ofVerdict (hook.handle e t.context).1,
      { t with context := (hook.handle e t.context).2 }) := by
  simp only [step]
  cases hook.handle e t.context with
  | mk verdict context => cases verdict <;> rfl

theorem shared_step (s : ContextStep κ) : (t.step hook s).2.shared = t.shared := by
  cases s with
  | report e => rw [step_report]
  | cancelToken =>
    change t.cancelToken.shared = t.shared
    unfold cancelToken
    split <;> rfl
  | _ => rfl

theorem shared_after (history : List (ContextStep κ)) :
    (t.after hook history).shared = t.shared := by
  induction history using List.reverseRecOn with
  | nil => rfl
  | append_singleton history s ih => rw [after_append_singleton, shared_step, ih]

section
variable (hh : hook.IsAloof)
include hh

-- The one place where the cases of a step and of a hook are looked at together.
theorem context_step (t : TokenTrial ω κ) (s : ContextStep κ) :
    ∃ client, (t.step hook s).2.context = { s.apply t.shared t.context with
      errors := if s.takes then [] else t.context.errors ++ (s.recorded? hook).toList
      client := client } := by
  cases s with
  | report e =>
    rw [step_report]
    cases hook with
    | record => exact ⟨t.context.client, rfl⟩
    | custom handle =>
      obtain ⟨client, hc⟩ := hh e t.context
      exact ⟨client, hc.trans (by simp [ContextStep.apply, ContextStep.takes,
        ContextStep.recorded?, ErrorHook.isCustom])⟩
  | cancelToken =>
    refine ⟨t.context.client, ?_⟩
    change t.cancelToken.context = _
    unfold cancelToken
    split <;> simp_all [onContext, Context.cancel, ContextStep.apply, ContextStep.takes,
      ContextStep.recorded?, ContextStep.reported?]
  | _ =>
    exact ⟨t.context.client, by simp [step, onContext, ContextStep.apply, ContextStep.takes,
      ContextStep.recorded?, ContextStep.reported?, Context.put, Context.remove, Context.compute,
      Context.resetNewMessages, Context.cancel, Context.clearErrors]⟩

theorem messages_step_iff (s : ContextStep κ) (m : Message κ) :
    (t.step hook s).2.context.messages.get? key = some m ↔
      t.Leaves hook key m s ∨ ¬ s.Touches key ∧ t.context.messages.get? key = some m := by
  obtain ⟨client, hc⟩ := context_step hh t s
  rw [hc]
  cases s with
  | put k m' => exact Table.get?_insert_eq_some_iff
  | remove k => exact Table.get?_erase_eq_some_iff.trans (or_iff_right id).symm
  | compute kind k f =>
    refine Table.get?_insert_eq_some_iff.trans (or_congr_left (and_congr_right' ?_))
    change _ ↔ ContextAnswer.value (some _) = ContextAnswer.value (some m)
    rw [ContextAnswer.value.injEq, Option.some.injEq]
  | _ => simp [ContextStep.apply, Leaves, ContextStep.Touches, Context.resetNewMessages,
      Context.cancel]

theorem stored_iff (hs : t.context.messages = .empty) (m : Message κ) :
    (t.after hook history).context.messages.get? key = some m ↔ t.Stored hook history key m := by
  induction history using List.reverseRecOn generalizing m with
  | nil =>
    have hn : t.context.messages.get? key = none := hs ▸ Table.get?_empty key
    exact iff_of_false (by simp [after, hn]) not_since_nil
  | append_singleton history s ih =>
    rw [after_append_singleton, messages_step_iff hh, ih, Stored, Stored,
      since_append_singleton]

theorem seen_le_writes_step (h : t.context.seen ≤ t.context.writes) (s : ContextStep κ) :
    (t.step hook s).2.context.seen ≤ (t.step hook s).2.context.writes := by
  obtain ⟨client, hc⟩ := context_step hh t s
  rw [hc]
  cases s with
  | put k m => exact Nat.le_succ_of_le h
  | compute kind k f => exact Nat.le_succ_of_le h
  | resetNewMessages => exact Nat.le_refl _
  | _ => exact h

theorem seen_le_writes_after (h : t.context.seen ≤ t.context.writes) :
    (t.after hook history).context.seen ≤ (t.after hook history).context.writes := by
  induction history using List.reverseRecOn with
  | nil => exact h
  | append_singleton history s ih =>
    rw [after_append_singleton]
    exact seen_le_writes_step hh ih s

theorem hasNewMessages_step_iff (h : t.context.seen ≤ t.context.writes) (s : ContextStep κ) :
    (t.step hook s).2.context.hasNewMessages = true ↔
      s.Writes ∨ ¬ s.Resets ∧ t.context.hasNewMessages = true := by
  obtain ⟨client, hc⟩ := context_step hh t s
  have hw : (t.context.writes + 1 != t.context.seen) = true := by
    rw [bne_iff_ne]
    omega
  rw [hc]
  cases s with
  | put k m => exact iff_of_true hw (.inl trivial)
  | compute kind k f => exact iff_of_true hw (.inl trivial)
  | _ => simp [ContextStep.apply, Context.hasNewMessages, Context.resetNewMessages, Context.cancel,
      Context.remove, ContextStep.Writes, ContextStep.Resets]

theorem hasNewMessages_iff (hs : t.context.seen = t.context.writes) :
    (t.after hook history).context.hasNewMessages = true ↔
      Since (fun _ s => s.Writes) ContextStep.Resets history := by
  induction history using List.reverseRecOn with
  | nil => exact iff_of_false (by simp [after, Context.hasNewMessages, hs]) not_since_nil
  | append_singleton history s ih =>
    have hle : (t.after hook history).context.seen ≤ (t.after hook history).context.writes :=
      seen_le_writes_after hh (Nat.le_of_eq hs)
    rw [after_append_singleton, hasNewMessages_step_iff hh hle, since_append_singleton]
    exact or_congr Iff.rfl (and_congr Iff.rfl ih)

theorem cancelled_step_iff (s : ContextStep κ) :
    (t.step hook s).2.context.cancelled = true ↔
      t.context.cancelled = true ∨ s.Cancels t.shared := by
  obtain ⟨client, hc⟩ := context_step hh t s
  rw [hc]
  cases s <;> simp [ContextStep.apply, ContextStep.Cancels, Context.cancel, Context.put,
    Context.remove, Context.compute, Context.resetNewMessages]

theorem cancelled_iff :
    (t.after hook history).context.cancelled = true ↔
      t.context.cancelled = true ∨ ∃ s ∈ history, s.Cancels t.shared := by
  induction history using List.reverseRecOn with
  | nil => simp [after]
  | append_singleton history s ih =>
    rw [after_append_singleton, cancelled_step_iff hh, ih, shared_after, or_assoc]
    simp [or_and_right, exists_or]

theorem errors_after (hs : t.context.errors = []) :
    (t.after hook history).context.errors =
      if hook.isCustom then [] else ContextStep.untaken history := by
  induction history using List.reverseRecOn with
  | nil => simp [after, hs, ContextStep.untaken]
  | append_singleton history s ih =>
    obtain ⟨client, hc⟩ := context_step hh (t.after hook history) s
    rw [after_append_singleton, hc, ContextStep.untaken, List.rtakeWhile_concat]
    change (if s.takes then [] else (t.after hook history).context.errors ++ _) = _
    rw [ih, ContextStep.recorded?]
    cases s.takes with
    | true => simp
    | false =>
      rw [if_neg (by decide), Bool.not_false, if_pos rfl, List.filterMap_append,
        List.filterMap_cons, List.filterMap_nil]
      cases hook.isCustom with
      | true => rfl
      | false => cases s.reported? <;> rfl

end

/-- The steps before decide what a context answers: the last write under a key, while nothing is
removed there; new messages, once one is written after the last reset; cancellation, by any cancel;
and the errors reported since the last take, which a custom hook keeps out. -/
theorem history_determines_context (hh : hook.IsAloof) (shared cancelled : Bool) (client : ω)
    (history : List (ContextStep κ)) :
    let start : TokenTrial ω κ := .start shared cancelled client
    let t := start.after hook history
    (∀ kind key v, t.context.get? kind key = some v ↔
      start.Stored hook history key ⟨kind, v⟩) ∧
    (∀ kind key f, let computed := t.step hook (.compute kind key f)
      let v := f (t.context.get? kind key)
      computed.1 = .value (some ⟨kind, v⟩) ∧ computed.2.context.get? kind key = some v) ∧
    (∀ key, (t.step hook (.remove key)).1 = .flag true ↔ ∃ m, start.Stored hook history key m) ∧
    (t.context.hasNewMessages = true ↔
      Since (fun _ s => s.Writes) ContextStep.Resets history) ∧
    (t.context.cancelled = true ↔
      (shared = true ∧ cancelled = true) ∨ ∃ s ∈ history, s.Cancels shared) ∧
    (∀ e, (t.step hook (.report e)).1 = .ofVerdict (hook.handle e t.context).1) ∧
    (hook = .record →
      (t.step hook .errorMessages).1 =
          .texts ((ContextStep.untaken history).map RecipeError.message) ∧
        (t.step hook .takeErrors).1 = .errors (ContextStep.untaken history)) ∧
    (hook.isCustom = true → t.context.errors = []) := by
  intro start t
  refine ⟨fun kind key v => ?_, fun kind key f => ⟨rfl, ?_⟩, fun key => ?_, ?_, ?_, fun e => ?_,
    ?_, ?_⟩
  · rw [Context.get?_eq_some_iff]
    exact stored_iff hh rfl _
  · refine (Context.get?_put _ _ _ _ _ _).trans ?_
    rw [if_pos rfl, Message.as?_self]
    rfl
  · have hr : (t.step hook (.remove key)).1 = .flag (t.context.holds key) := rfl
    rw [hr, ContextAnswer.flag.injEq, Context.holds_iff]
    exact exists_congr fun m => stored_iff hh rfl m
  · exact hasNewMessages_iff hh rfl
  · refine (cancelled_iff hh).trans (or_congr ?_ Iff.rfl)
    exact Bool.and_eq_true _ _ ▸ Iff.rfl
  · rw [step_report]
  · rintro rfl
    have he : t.context.errors = ContextStep.untaken history := errors_after hh rfl
    have hm : t.context.errorMessages = (ContextStep.untaken history).map RecipeError.message := by
      rw [Context.errorMessages, he]
    exact ⟨congrArg ContextAnswer.texts hm, congrArg ContextAnswer.errors he⟩
  · exact fun hc => (errors_after hh rfl).trans (if_pos hc)

end TokenTrial

namespace Sample

def refusing : ErrorHook (List RecipeError) :=
  .custom fun e c => (.error e, { c with client := c.client ++ [e] })

-- The text under the key counts as absent for the sum, and gives way to it.
def steps : List ContextStep :=
  [.put "k" ⟨.text, "v"⟩, .resetNewMessages, .addInt "k" 2, .remove "j", .report (.aborted "stop"),
    .cancelToken]

theorem steps_determine_context :
    let t := TokenTrial.after refusing (.start true false []) steps
    refusing.IsAloof ∧ t.context.get? .int "k" = some (2 : Int64) ∧
      t.context.hasNewMessages = true ∧ t.context.cancelled = true ∧
      (t.step refusing (.report (.aborted "late"))).1 = .returned (.aborted "late") ∧
      t.context.errors = [] := by
  have hh : refusing.IsAloof := fun e c => ⟨c.client ++ [e], rfl⟩
  obtain ⟨hget, -, -, hnew, hcancelled, hreport, -, herrors⟩ :=
    TokenTrial.history_determines_context hh true false [] steps
  refine ⟨hh, ?_, ?_, ?_, hreport _, herrors rfl⟩
  · refine (hget .int "k" (2 : Int64)).mpr ⟨steps.take 2, .addInt "k" 2, steps.drop 3, rfl, ?_, ?_⟩
    · exact ⟨rfl, rfl⟩
    · simp [steps, ContextStep.Touches]
  · refine hnew.mpr ⟨steps.take 2, .addInt "k" 2, steps.drop 3, rfl, trivial, ?_⟩
    simp [steps, ContextStep.Resets]
  · exact hcancelled.mpr (.inr ⟨.cancelToken, by simp [steps], rfl⟩)

end Sample

end Codemod
