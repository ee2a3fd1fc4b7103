import Codemod.Toml.Scalar

namespace Codemod.Toml

open Text Text.Reader

/-- Deepest nesting of arrays and inline tables, and one more than the longest dotted key. -/
def maxNesting : Nat := 79

def simpleKey : Reader String :=
  basicString <|> literalString <|> do
    let first ← satisfy isBare
    let more ← takeWhile isBare
    pure (String.ofList (first :: more))

def keySteps : Nat → Reader (List String)
  | 0 => failure
  | fuel + 1 => do
    ws
    let step ← simpleKey
    ws
    match ← option (char '.') with
    | some _ => do
      let rest ← keySteps fuel
      pure (step :: rest)
    | none => pure [step]

def key : Reader (List String × String) := do
  let steps ← keySteps maxNesting
  match steps.getLast? with
  | some last => pure (steps.dropLast, last)
  | none => failure

def arrayItems (value : Reader Node) : Nat → Reader (List Node)
  | 0 => failure
  | fuel + 1 => do
    bounded blank
    (do char ']'; pure []) <|> do
      let item ← value
      bounded blank
      (do char ']'; pure [item]) <|> do
        char ','
        let rest ← arrayItems value fuel
        pure (item :: rest)

def keyValue (value : Reader Node) : Reader (List String × String × Node) := do
  let (path, last) ← key
  char '='
  ws
  let node ← value
  pure (path, last, node)

def inlineFields (value : Reader Node) (fields : Fields) : Nat → Reader Fields
  | 0 => failure
  | fuel + 1 => do
    let (path, last, node) ← keyValue value
    ws
    let fields ← fromOption (Fields.addDotted path last node fields)
    (do char '\x7d'; pure fields) <|> do
      char ','
      inlineFields value fields fuel

def inlineTable (value : Reader Node) : Reader Fields := do
  ws
  (do char '\x7d'; pure []) <|> bounded (inlineFields value [])

def value : Nat → Reader Node
  | 0 => scalar
  | room + 1 => do
    match ← peek? with
    | some '[' =>
      char '['
      Node.array <$> bounded (arrayItems (value room))
    | some '\x7b' =>
      char '\x7b'
      Node.inline <$> inlineTable (value room)
    | _ => scalar

structure Draft where
  root : Fields := []
  header : List String := []

namespace Draft

def openHeader (d : Draft) : Reader Draft := do
  char '['
  match ← option (char '[') with
  | some _ => do
    let (path, last) ← key
    literal "]]"
    let root ← fromOption (Fields.openElement path last d.root)
    pure ⟨root, path ++ [last]⟩
  | none => do
    let (path, last) ← key
    char ']'
    let root ← fromOption (Fields.openTable path last d.root)
    pure ⟨root, path ++ [last]⟩

def assign (d : Draft) : Reader Draft := do
  let (path, last, node) ← keyValue (value maxNesting)
  let root ← fromOption (Fields.atPath d.header (Fields.addDotted path last node) d.root)
  pure { d with root := root }

def line (d : Draft) : Reader Draft := do
  match ← peek? with
  | some '[' => d.openHeader
  | some '#' => pure d
  | some '\n' => pure d
  | some '\r' => pure d
  | _ => d.assign

def lines (d : Draft) : Nat → Reader Fields
  | 0 => failure
  | fuel + 1 => do
    ws
    match ← peek? with
    | none => pure d.root
    | some _ =>
      let next ← d.line
      lineEnd
      next.lines fuel

end Draft

def document : Reader Fields := do
  let _ ← option (char '\ufeff')
  bounded ({} : Draft).lines

def parse? (s : String) : Option Fields :=
  (document s.toList).map (·.1)

end Codemod.Toml
