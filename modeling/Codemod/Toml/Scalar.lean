import Codemod.Binary64
import Codemod.Text.Digit
import Codemod.Text.Reader
import Codemod.Toml.Node

namespace Codemod.Toml

open Text Text.Reader

def isWs (c : Char) : Bool := c == ' ' || c == '\t'

def isVisible (c : Char) : Bool :=
  c == '\t' || (0x20 ≤ c.toNat && c.toNat ≠ 0x7f)

def isBasic (c : Char) : Bool := isVisible c && c != '"' && c != '\\'

def isLiteral (c : Char) : Bool := isVisible c && c != '\''

def isBare (c : Char) : Bool :=
  isDigit c || ('a' ≤ c && c ≤ 'z') || ('A' ≤ c && c ≤ 'Z') || c == '_' || c == '-'

def ws : Reader Unit := do
  let _ ← takeWhile isWs

def newline : Reader Unit := char '\n' <|> literal "\r\n"

def comment : Reader Unit := do
  char '#'
  let _ ← takeWhile isVisible

def blank : Nat → Reader Unit
  | 0 => pure ()
  | fuel + 1 => do
    ws
    match ← option (newline <|> (do comment; newline)) with
    | some _ => blank fuel
    | none => pure ()

def lineEnd : Reader Unit := do
  ws
  let _ ← option comment
  match ← peek? with
  | none => pure ()
  | some _ => newline

def digitsAfter (p : Char → Bool) : List Char → List Char × List Char
  | [] => ([], [])
  | [c] => if p c then ([c], []) else ([], [c])
  | c :: d :: cs =>
    if p c then
      let (ds, rest) := digitsAfter p (d :: cs)
      (c :: ds, rest)
    else if c == '_' && p d then
      let (ds, rest) := digitsAfter p cs
      (d :: ds, rest)
    else ([], c :: d :: cs)

def digits (p : Char → Bool) : Reader (List Char) := do
  let first ← satisfy p
  let more ← fun cs => some (digitsAfter p cs)
  pure (first :: more)

def hexChar (length : Nat) : Reader Char := do
  let ds ← exactly length isHexDigit
  fromOption (scalarChar? (numeral 16 ds))

def escape : Reader Char := do
  char '\\'
  match ← satisfy fun _ => true with
  | 'b' => pure '\x08'
  | 't' => pure '\t'
  | 'n' => pure '\n'
  | 'f' => pure '\x0c'
  | 'r' => pure '\r'
  | '"' => pure '"'
  | '\\' => pure '\\'
  | 'u' => hexChar 4
  | 'U' => hexChar 8
  | _ => failure

def pieces (close : Reader (List Char)) (piece : Reader (List Char)) : Nat → Reader (List Char)
  | 0 => failure
  | fuel + 1 => close <|> (do
    let head ← piece
    let rest ← pieces close piece fuel
    pure (head ++ rest))

def single (c : Char) : List Char := [c]

def closing (quote : Char) : Reader (List Char) := do
  char quote
  pure []

/-- Three quotes close a text of several lines; up to two more before them belong to it. -/
def closingLines (quote : Char) : Reader (List Char) := fun cs =>
  let run := cs.takeWhile (· == quote)
  if run.length < 3 then none
  else some (run.take (min (run.length - 3) 2), cs.drop (min run.length 5))

def lineBreak : Reader (List Char) := do
  newline
  pure ['\n']

def blankLines : Nat → Reader Unit
  | 0 => pure ()
  | fuel + 1 => do
    ws
    match ← option newline with
    | some _ => blankLines fuel
    | none => pure ()

def continuation : Reader (List Char) := do
  char '\\'
  ws
  newline
  bounded blankLines
  pure []

def basicString : Reader String := do
  char '"'
  let piece := single <$> (escape <|> satisfy isBasic)
  String.ofList <$> bounded (pieces (closing '"') piece)

def literalString : Reader String := do
  char '\''
  String.ofList <$> bounded (pieces (closing '\'') (single <$> satisfy isLiteral))

def basicLines : Reader String := do
  literal "\"\"\""
  let _ ← option newline
  let piece := continuation <|> lineBreak <|>
    single <$> (escape <|> satisfy isBasic <|> satisfy (· == '"'))
  String.ofList <$> bounded (pieces (closingLines '"') piece)

def literalLines : Reader String := do
  literal "'''"
  let _ ← option newline
  let piece := lineBreak <|> single <$> (satisfy isLiteral <|> satisfy (· == '\''))
  String.ofList <$> bounded (pieces (closingLines '\'') piece)

def string : Reader String :=
  basicLines <|> basicString <|> literalLines <|> literalString

def sign : Reader Bool := do
  match ← option (satisfy fun c => c == '+' || c == '-') with
  | some c => pure (c == '-')
  | none => pure false

def decimalDigits : Reader (List Char) := do
  match ← peek? with
  | some '0' => single <$> satisfy isDigit
  | _ => digits isDigit

def inRange (n : Int) : Bool := -(Nat.pow 2 63 : Int) ≤ n && n < (Nat.pow 2 63 : Int)

def bounded64 (n : Int) : Reader Node :=
  if inRange n then pure (.integer n) else failure

def basedInteger (start : String) (base : Nat) (p : Char → Bool) : Reader Node := do
  literal start
  let ds ← digits p
  bounded64 (numeral base ds)

def integer : Reader Node :=
  basedInteger "0x" 16 isHexDigit <|>
  basedInteger "0o" 8 (fun c => '0' ≤ c && c ≤ '7') <|>
  basedInteger "0b" 2 (fun c => c == '0' || c == '1') <|> do
    let negative ← sign
    let ds ← decimalDigits
    let n : Int := numeral 10 ds
    bounded64 (if negative then -n else n)

def overflows (n : Nat) (e : Int) : Bool :=
  let size : Int := (Nat.toDigits 10 n).length + e
  if n = 0 ∨ size < 300 then false
  else if 310 < size then true
  else (Binary64.nearest? (n * Nat.pow 10 e.toNat) (Nat.pow 10 (-e).toNat)).isNone

def exponent : Reader Int := do
  let _ ← satisfy fun c => c == 'e' || c == 'E'
  let negative ← sign
  let ds ← digits isDigit
  let n : Int := numeral 10 ds
  pure (if negative then -n else n)

def fraction : Reader (List Char) := do
  char '.'
  digits isDigit

def finiteFloat : Reader Unit := do
  let negative ← sign
  let whole ← decimalDigits
  let places ← option fraction
  let power ← option exponent
  if places.isNone && power.isNone then failure
  let ds := whole ++ places.getD []
  let e := power.getD 0 - (places.getD []).length
  if !negative && overflows (numeral 10 ds) e then failure

def specialFloat : Reader Unit := do
  let _ ← sign
  literal "inf" <|> literal "nan"

def float : Reader Node :=
  Node.float <$> passed (finiteFloat <|> specialFloat)

def digitGroup (length : Nat) (low high : Nat) : Reader Nat := do
  let ds ← exactly length isDigit
  let n := numeral 10 ds
  if low ≤ n ∧ n ≤ high then pure n else failure

def isLeapYear (year : Nat) : Bool :=
  year % 4 == 0 && (year % 100 != 0 || year % 400 == 0)

def daysIn (year month : Nat) : Nat :=
  if month = 2 then (if isLeapYear year then 29 else 28)
  else if [4, 6, 9, 11].contains month then 30
  else 31

def date : Reader Unit := do
  let year ← digitGroup 4 0 9999
  char '-'
  let month ← digitGroup 2 1 12
  char '-'
  let _ ← digitGroup 2 1 (daysIn year month)

def time : Reader Unit := do
  let _ ← digitGroup 2 0 23
  char ':'
  let _ ← digitGroup 2 0 59
  char ':'
  let _ ← digitGroup 2 0 60
  let _ ← option (do char '.'; let _ ← satisfy isDigit; takeWhile isDigit)

def offset : Reader Unit :=
  (do let _ ← satisfy fun c => c == 'Z' || c == 'z') <|> do
    let _ ← satisfy fun c => c == '+' || c == '-'
    let _ ← digitGroup 2 0 23
    char ':'
    let _ ← digitGroup 2 0 59

def timeOfDate : Reader Unit := do
  let _ ← satisfy fun c => c == 'T' || c == 't' || c == ' '
  time
  let _ ← option offset

def datetime : Reader Node :=
  Node.datetime <$> passed ((do date; let _ ← option timeOfDate) <|> time)

def boolean : Reader Node :=
  (do literal "true"; pure (.boolean true)) <|> (do literal "false"; pure (.boolean false))

def scalar : Reader Node :=
  (Node.string <$> string) <|> boolean <|> datetime <|> float <|> integer

end Codemod.Toml
