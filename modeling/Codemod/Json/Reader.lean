import Codemod.Json
import Codemod.Json.Numeral
import Codemod.Text.Reader

namespace Codemod.Json

open Text Text.Reader

def isSpace (c : Char) : Bool := c == ' ' || c == '\t' || c == '\n' || c == '\r'

def space : Reader Unit := do
  let _ ← takeWhile isSpace

def digits : Reader (List Char) := do
  let first ← satisfy isDigit
  let more ← takeWhile isDigit
  pure (first :: more)

def wholeDigits : Reader (List Char) := do
  match ← peek? with
  | some '0' => do
    char '0'
    pure ['0']
  | _ => digits

def fraction : Reader (List Char) := do
  char '.'
  digits

def power : Reader Int := do
  let _ ← satisfy fun c => c == 'e' || c == 'E'
  let sign ← option (satisfy fun c => c == '+' || c == '-')
  let ds ← digits
  let n : Int := numeral 10 ds
  pure (if sign = some '-' then -n else n)

def number : Reader Json := do
  let minus ← option (char '-')
  let whole ← wholeDigits
  let places ← option fraction
  let exponent ← option power
  let negative := minus.isSome
  let n := numeral 10 whole
  if places.isNone && exponent.isNone && isInteger negative n then
    pure (int (if negative then -n else n))
  else real <$> fromOption (real? negative whole (places.getD []) (exponent.getD 0))

def unit16 : Reader Nat :=
  numeral 16 <$> exactly 4 isHexDigit

def unicode : Reader Char := do
  let high ← unit16
  if 0xd800 ≤ high ∧ high < 0xdc00 then
    literal "\\u"
    let low ← unit16
    if 0xdc00 ≤ low ∧ low < 0xe000 then
      fromOption (scalarChar? (0x10000 + (high - 0xd800) * 0x400 + (low - 0xdc00)))
    else failure
  else fromOption (scalarChar? high)

def escape : Reader Char := do
  char '\\'
  match ← satisfy fun _ => true with
  | '"' => pure '"'
  | '\\' => pure '\\'
  | '/' => pure '/'
  | 'b' => pure '\x08'
  | 'f' => pure '\x0c'
  | 'n' => pure '\n'
  | 'r' => pure '\r'
  | 't' => pure '\t'
  | 'u' => unicode
  | _ => failure

def characters : Nat → Reader (List Char)
  | 0 => failure
  | fuel + 1 => do
    let plain ← takeWhile fun c => c != '"' && c != '\\' && 0x20 ≤ c.toNat
    (do char '"'; pure plain) <|> do
      let c ← escape
      let rest ← characters fuel
      pure (plain ++ c :: rest)

def quoted : Reader String := do
  char '"'
  String.ofList <$> bounded characters

def itemsAfter (value : Reader Json) : Nat → Reader (List Json)
  | 0 => failure
  | fuel + 1 => do
    let item ← value
    (do char ']'; pure [item]) <|> do
      char ','
      let rest ← itemsAfter value fuel
      pure (item :: rest)

def fieldsAfter (value : Reader Json) : Nat → Reader (List (String × Json))
  | 0 => failure
  | fuel + 1 => do
    space
    let key ← quoted
    space
    char ':'
    let item ← value
    (do char '\x7d'; pure [(key, item)]) <|> do
      char ','
      let rest ← fieldsAfter value fuel
      pure ((key, item) :: rest)

def value : Nat → Reader Json
  | 0 => failure
  | room + 1 => do
    space
    let j ← match ← peek? with
      | some 'n' => do literal "null"; pure null
      | some 't' => do literal "true"; pure (bool true)
      | some 'f' => do literal "false"; pure (bool false)
      | some '"' => string <$> quoted
      | some '[' => do
        char '['
        space
        array <$> ((do char ']'; pure []) <|> bounded (itemsAfter (value room)))
      | some '\x7b' => do
        char '\x7b'
        space
        (do char '\x7d'; pure (object [])) <|> ofFields <$> bounded (fieldsAfter (value room))
      | _ => number
    space
    pure j

def parse? (s : String) : Option Json :=
  match value (s.length + 1) s.toList with
  | some (j, []) => some j
  | _ => none

end Codemod.Json
