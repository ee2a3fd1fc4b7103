namespace Codemod.Text

abbrev Reader := StateT (List Char) Option

namespace Reader
variable {α : Type}

def peek? : Reader (Option Char) := fun cs => some (cs.head?, cs)

def satisfy (p : Char → Bool) : Reader Char
  | c :: cs => if p c then some (c, cs) else none
  | [] => none

def char (c : Char) : Reader Unit := do
  let _ ← satisfy (· == c)

def literal (s : String) : Reader Unit := fun cs =>
  if s.toList.isPrefixOf cs then some ((), cs.drop s.length) else none

def takeWhile (p : Char → Bool) : Reader (List Char) := fun cs =>
  some (cs.takeWhile p, cs.dropWhile p)

def exactly (n : Nat) (p : Char → Bool) : Reader (List Char) := fun cs =>
  let head := cs.take n
  if head.length = n ∧ head.all p then some (head, cs.drop n) else none

def option (r : Reader α) : Reader (Option α) := (some <$> r) <|> pure none

def bounded (r : Nat → Reader α) : Reader α := fun cs => r (cs.length + 1) cs

def passed (r : Reader Unit) : Reader String := fun cs =>
  (r cs).map fun (_, rest) => (String.ofList (cs.take (cs.length - rest.length)), rest)

def fromOption (o : Option α) : Reader α := fun cs => o.map (·, cs)

end Reader

end Codemod.Text
