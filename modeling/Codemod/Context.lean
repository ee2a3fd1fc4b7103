import Codemod.Error
import Codemod.Table

namespace Codemod

class MessageKinds (κ : Type) where
  Value : κ → Type

inductive MessageKind where
  | int
  | text
  | flag
  | list
deriving DecidableEq, Repr

abbrev MessageKind.Value : MessageKind → Type
  | int => Int64
  | text => String
  | flag => Bool
  | list => List String

instance : MessageKinds MessageKind := ⟨MessageKind.Value⟩

structure Message (κ : Type := MessageKind) [MessageKinds κ] where
  kind : κ
  value : MessageKinds.Value kind

namespace Message
variable {κ : Type} [MessageKinds κ] [DecidableEq κ]

def as? (m : Message κ) (k : κ) : Option (MessageKinds.Value k) :=
  if h : m.kind = k then some (h ▸ m.value) else none

theorem as?_self (k : κ) (v : MessageKinds.Value k) : (Message.mk k v).as? k = some v := by
  simp [as?]

theorem as?_of_ne {k j : κ} (v : MessageKinds.Value k) (h : k ≠ j) :
    (Message.mk k v).as? j = none := by
  simp [as?, h]

end Message

/-- What the recipes of a run share: the cancellation flag, the messages, the errors swallowed so
far, and a state `ω` of the client's own. `writes` counts the messages ever written; they are new
when it differs from `seen`. -/
structure Context (ω : Type) (κ : Type := MessageKind) [MessageKinds κ] where
  cancelled : Bool := false
  messages : Table String (Message κ) := .empty
  writes : Nat := 0
  seen : Nat := 0
  errors : List RecipeError := []
  client : ω

namespace Context
variable {ω κ : Type} [MessageKinds κ]

def cancel (c : Context ω κ) : Context ω κ :=
  { c with cancelled := true }

def put (c : Context ω κ) (key : String) (m : Message κ) : Context ω κ :=
  { c with messages := c.messages.insert key m, writes := c.writes + 1 }

def get? [DecidableEq κ] (c : Context ω κ) (k : κ) (key : String) :
    Option (MessageKinds.Value k) :=
  (c.messages.get? key).bind (·.as? k)

def computed [DecidableEq κ] (c : Context ω κ) (k : κ) (key : String)
    (f : Option (MessageKinds.Value k) → MessageKinds.Value k) : MessageKinds.Value k :=
  f (c.get? k key)

def compute [DecidableEq κ] (c : Context ω κ) (k : κ) (key : String)
    (f : Option (MessageKinds.Value k) → MessageKinds.Value k) : Context ω κ :=
  c.put key ⟨k, c.computed k key f⟩

def remove (c : Context ω κ) (key : String) : Context ω κ :=
  { c with messages := c.messages.erase key }

def holds (c : Context ω κ) (key : String) : Bool :=
  c.messages.contains key

def hasNewMessages (c : Context ω κ) : Bool :=
  c.writes != c.seen

def resetNewMessages (c : Context ω κ) : Context ω κ :=
  { c with seen := c.writes }

def recordError (c : Context ω κ) (e : RecipeError) : Context ω κ :=
  { c with errors := c.errors ++ [e] }

def clearErrors (c : Context ω κ) : Context ω κ :=
  { c with errors := [] }

def errorMessages (c : Context ω κ) : List String :=
  c.errors.map RecipeError.message

theorem get?_put [DecidableEq κ] (c : Context ω κ) (key other : String) (k j : κ)
    (v : MessageKinds.Value k) :
    (c.put key ⟨k, v⟩).get? j other =
      if other = key then (Message.mk k v).as? j else c.get? j other := by
  unfold get? put
  simp only [Table.get?_insert]
  split <;> rfl

theorem get?_remove [DecidableEq κ] (c : Context ω κ) (key other : String) (k : κ) :
    (c.remove key).get? k other = if other = key then none else c.get? k other := by
  unfold get? remove
  simp only [Table.get?_erase]
  split <;> rfl

theorem hasNewMessages_resetNewMessages (c : Context ω κ) :
    c.resetNewMessages.hasNewMessages = false := by
  simp [hasNewMessages, resetNewMessages]

theorem hasNewMessages_remove (c : Context ω κ) (key : String) :
    (c.remove key).hasNewMessages = c.hasNewMessages := rfl

end Context

inductive ErrorHook (ω : Type) (κ : Type := MessageKind) [MessageKinds κ] where
  | record
  | custom (handle : RecipeError → Context ω κ → Except RecipeError Unit × Context ω κ)

namespace ErrorHook
variable {ω κ : Type} [MessageKinds κ]

def isCustom : ErrorHook ω κ → Bool
  | record => false
  | custom _ => true

def handle : ErrorHook ω κ → RecipeError → Context ω κ → Except RecipeError Unit × Context ω κ
  | record, e, c => (.ok (), c.recordError e)
  | custom handle, e, c => handle e c

end ErrorHook

def Context.summary {ω κ : Type} [MessageKinds κ] (c : Context ω κ) (hook : ErrorHook ω κ) :
    String :=
  s!"ExecutionContext \x7b cancelled: {c.cancelled}, messages: {c.messages.size}, " ++
    s!"errors: {c.errors.length}, custom_error_handler: {hook.isCustom} \x7d"

abbrev Action (ω : Type) := ReaderT (ErrorHook ω) (StateM (Context ω))

/-- An action that an error may end; what it did to the context before stays. -/
abbrev Attempt (ω : Type) := ExceptT RecipeError (Action ω)

namespace Action
variable {ω : Type}

def context : Action ω (Context ω) := get

def update (f : Context ω → Context ω) : Action ω Unit := modify f

def updateClient (f : ω → ω) : Action ω Unit :=
  update fun c => { c with client := f c.client }

def reportError (e : RecipeError) : Action ω (Except RecipeError Unit) := do
  let hook ← read
  modifyGet fun c => hook.handle e c

def perform {α : Type} (a : Action ω α) (hook : ErrorHook ω) (c : Context ω) : α × Context ω :=
  (a.run hook).run c

theorem perform_pure {α : Type} (x : α) (hook : ErrorHook ω) (c : Context ω) :
    (pure x : Action ω α).perform hook c = (x, c) := rfl

theorem perform_bind {α β : Type} (a : Action ω α) (f : α → Action ω β) (hook : ErrorHook ω)
    (c : Context ω) :
    (a >>= f).perform hook c =
      (f (a.perform hook c).1).perform hook (a.perform hook c).2 := rfl

theorem perform_update (f : Context ω → Context ω) (hook : ErrorHook ω) (c : Context ω) :
    (update f).perform hook c = ((), f c) := rfl

end Action

namespace Attempt
variable {ω α : Type}

def ofExcept (e : Except RecipeError α) : Attempt ω α :=
  ExceptT.mk (pure e)

def context : Attempt ω (Context ω) :=
  ExceptT.lift Action.context

def update (f : Context ω → Context ω) : Attempt ω Unit :=
  ExceptT.lift (Action.update f)

def raise (e : RecipeError) : Attempt ω Unit :=
  ExceptT.mk (Action.reportError e)

def perform (a : Attempt ω α) (hook : ErrorHook ω) (c : Context ω) :
    Except RecipeError α × Context ω :=
  Action.perform a.run hook c

theorem perform_pure (x : α) (hook : ErrorHook ω) (c : Context ω) :
    (pure x : Attempt ω α).perform hook c = (.ok x, c) := rfl

theorem perform_throw (e : RecipeError) (hook : ErrorHook ω) (c : Context ω) :
    (throw e : Attempt ω α).perform hook c = (.error e, c) := rfl

theorem perform_bind {β : Type} (a : Attempt ω α) (f : α → Attempt ω β) (hook : ErrorHook ω)
    (c : Context ω) :
    (a >>= f).perform hook c =
      match a.perform hook c with
      | (.ok x, d) => (f x).perform hook d
      | (.error e, d) => (.error e, d) := by
  unfold perform
  rw [ExceptT.run_bind, Action.perform_bind]
  cases Action.perform a.run hook c with
  | mk r d => cases r <;> rfl

theorem perform_lift (a : Action ω α) (hook : ErrorHook ω) (c : Context ω) :
    (liftM a : Attempt ω α).perform hook c =
      (.ok (a.perform hook c).1, (a.perform hook c).2) := rfl

theorem perform_ofExcept (e : Except RecipeError α) (hook : ErrorHook ω) (c : Context ω) :
    (ofExcept e).perform hook c = (e, c) := rfl

theorem perform_context (hook : ErrorHook ω) (c : Context ω) :
    (context : Attempt ω (Context ω)).perform hook c = (.ok c, c) := rfl

theorem perform_update (f : Context ω → Context ω) (hook : ErrorHook ω) (c : Context ω) :
    (update f).perform hook c = (.ok (), f c) := rfl

theorem perform_raise (e : RecipeError) (hook : ErrorHook ω) (c : Context ω) :
    (raise e).perform hook c = hook.handle e c := rfl

end Attempt

end Codemod
