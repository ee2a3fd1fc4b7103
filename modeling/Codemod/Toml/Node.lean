namespace Codemod.Toml

/-- How a table came to be: under a header of its own, on the way to another header, or through a
dotted key. -/
inductive Origin where
  | header
  | passage
  | dotted
deriving DecidableEq, Repr

/-- A TOML value. Floats and dates keep their text; `tables` is an array of tables. -/
inductive Node where
  | string (s : String)
  | integer (n : Int)
  | float (text : String)
  | boolean (b : Bool)
  | datetime (text : String)
  | array (items : List Node)
  | inline (fields : List (String × Node))
  | table (origin : Origin) (fields : List (String × Node))
  | tables (items : List (List (String × Node)))
deriving Repr

abbrev Fields := List (String × Node)

namespace Fields

def get? (fields : Fields) (key : String) : Option Node :=
  (fields.find? (·.1 == key)).map (·.2)

def set (fields : Fields) (key : String) (node : Node) : Fields :=
  if fields.any (·.1 == key) then
    fields.map fun f => if f.1 == key then (key, node) else f
  else fields ++ [(key, node)]

def addDotted : List String → String → Node → Fields → Option Fields
  | [], key, node, fields =>
    if (get? fields key).isSome then none else some (set fields key node)
  | step :: path, key, node, fields =>
    match get? fields step with
    | none => (addDotted path key node []).map fun sub => set fields step (.table .dotted sub)
    | some (.table origin sub) =>
      -- What a header opened is closed to dotted keys.
      if origin = .header ∨ (path = [] ∧ origin ≠ .dotted) then none
      else (addDotted path key node sub).map fun sub => set fields step (.table origin sub)
    | some (.tables items) =>
      match items.getLast?, path with
      | some last, _ :: _ => (addDotted path key node last).map fun sub =>
          set fields step (.tables (items.dropLast ++ [sub]))
      | _, _ => none
    | some _ => none

def atPath : List String → (Fields → Option Fields) → Fields → Option Fields
  | [], change, fields => change fields
  | step :: path, change, fields =>
    match get? fields step with
    | none => (atPath path change []).map fun sub => set fields step (.table .passage sub)
    | some (.table origin sub) =>
      (atPath path change sub).map fun sub => set fields step (.table origin sub)
    | some (.tables items) =>
      match items.getLast? with
      | some last => (atPath path change last).map fun sub =>
          set fields step (.tables (items.dropLast ++ [sub]))
      | none => none
    | some _ => none

def openTable (path : List String) (key : String) : Fields → Option Fields :=
  atPath path fun fields =>
    match get? fields key with
    | none => some (set fields key (.table .header []))
    | some (.table .passage sub) => some (set fields key (.table .header sub))
    | some _ => none

def openElement (path : List String) (key : String) : Fields → Option Fields :=
  atPath path fun fields =>
    match get? fields key with
    | none => some (set fields key (.tables [[]]))
    | some (.tables items) => some (set fields key (.tables (items ++ [[]])))
    | some _ => none

end Fields

end Codemod.Toml
