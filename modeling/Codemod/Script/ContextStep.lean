import Codemod.Context

namespace Codemod

/-- One use of a context. A token stands beside it; the context may have been given that token, and
then they share one flag. -/
inductive ContextStep (κ : Type := MessageKind) [MessageKinds κ] where
  | put (key : String) (message : Message κ)
  | get (kind : κ) (key : String)
  | remove (key : String)
  | compute (kind : κ) (key : String)
      (f : Option (MessageKinds.Value kind) → MessageKinds.Value kind)
  | resetNewMessages
  | cancel
  | cancelToken
  | report (error : RecipeError)
  | errorMessages
  | takeErrors

namespace ContextStep

def addInt (key : String) (n : Int64) : ContextStep :=
  .compute .int key fun (v : Option Int64) => v.getD 0 + n

def concat (key : String) (s : String) : ContextStep :=
  .compute .text key fun (v : Option String) => v.getD "" ++ s

def push (key : String) (s : String) : ContextStep :=
  .compute .list key fun (v : Option (List String)) => v.getD [] ++ [s]

end ContextStep

inductive ContextAnswer (κ : Type := MessageKind) [MessageKinds κ] where
  | nothing
  | value (message : Option (Message κ))
  | flag (b : Bool)
  | swallowed
  | returned (error : RecipeError)
  | texts (texts : List String)
  | errors (errors : List RecipeError)

structure TokenTrial (ω : Type) (κ : Type := MessageKind) [MessageKinds κ] where
  context : Context ω κ
  shared : Bool
  outside : Bool

namespace TokenTrial
variable {ω κ : Type} [MessageKinds κ]

def start (shared cancelled : Bool) (client : ω) : TokenTrial ω κ :=
  ⟨{ cancelled := shared && cancelled, client := client }, shared, cancelled⟩

def tokenCancelled (t : TokenTrial ω κ) : Bool :=
  if t.shared then t.context.cancelled else t.outside

def onContext (t : TokenTrial ω κ) (f : Context ω κ → Context ω κ) : TokenTrial ω κ :=
  { t with context := f t.context }

def cancelToken (t : TokenTrial ω κ) : TokenTrial ω κ :=
  if t.shared then t.onContext Context.cancel else { t with outside := true }

def step [DecidableEq κ] (hook : ErrorHook ω κ) (t : TokenTrial ω κ) :
    ContextStep κ → ContextAnswer κ × TokenTrial ω κ
  | .put key message => (.nothing, t.onContext (·.put key message))
  | .get kind key => (.value ((t.context.get? kind key).map (Message.mk kind)), t)
  | .remove key => (.flag (t.context.holds key), t.onContext (·.remove key))
  | .compute kind key f =>
    (.value (some ⟨kind, t.context.computed kind key f⟩), t.onContext (·.compute kind key f))
  | .resetNewMessages => (.nothing, t.onContext Context.resetNewMessages)
  | .cancel => (.nothing, t.onContext Context.cancel)
  | .cancelToken => (.nothing, t.cancelToken)
  | .report error =>
    let (verdict, context) := hook.handle error t.context
    match verdict with
    | .ok () => (.swallowed, { t with context := context })
    | .error e => (.returned e, { t with context := context })
  | .errorMessages => (.texts t.context.errorMessages, t)
  | .takeErrors => (.errors t.context.errors, t.onContext Context.clearErrors)

end TokenTrial

end Codemod
