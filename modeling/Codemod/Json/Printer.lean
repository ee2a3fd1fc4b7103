import Codemod.Json

namespace Codemod.Json

def hex4 (n : Nat) : List Char :=
  (List.range 4).map fun i => Nat.digitChar (n / Nat.pow 16 (3 - i) % 16)

def escapeChar (c : Char) : List Char :=
  if c = '"' then ['\\', '"']
  else if c = '\\' then ['\\', '\\']
  else if c.toNat < 0x20 then '\\' :: 'u' :: hex4 c.toNat
  else [c]

def quote (s : String) : String :=
  String.ofList ('"' :: s.toList.flatMap escapeChar ++ ['"'])

def renderReal (x : Binary64) : String :=
  let sign := if x.rank < 0 then "-" else ""
  let (n, places) := x.digits
  s!"{sign}{n}e-{places}"

def renderScalar : Scalar → String
  | .null => "null"
  | .bool b => toString b
  | .int n => toString n
  | .real x => renderReal x
  | .string s => quote s

mutual
def render : Json → String
  | .scalar s => renderScalar s
  | .array items => "[" ++ ",".intercalate (renderItems items) ++ "]"
  | .object fields => "\x7b" ++ ",".intercalate (renderFields fields) ++ "\x7d"

def renderItems : List Json → List String
  | [] => []
  | j :: js => render j :: renderItems js

def renderFields : List (String × Json) → List String
  | [] => []
  | (key, j) :: fields => (quote key ++ ":" ++ render j) :: renderFields fields
end

end Codemod.Json
