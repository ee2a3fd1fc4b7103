import Codemod.Text.Digit

namespace Codemod

structure TreeId where
  bits : BitVec 128
deriving DecidableEq, Repr

namespace TreeId

def compare (a b : TreeId) : Ordering :=
  Ord.compare a.bits.toNat b.bits.toNat

def groups : List Nat := [8, 4, 4, 4, 12]

def digits (id : TreeId) : List Char :=
  (List.range 32).map fun i => Nat.digitChar (id.bits.toNat / Nat.pow 16 (31 - i) % 16)

def hyphenate : List Nat → List Char → List Char
  | [], cs => cs
  | [_], cs => cs
  | n :: ns, cs => cs.take n ++ '-' :: hyphenate ns (cs.drop n)

def dropHyphens : List Nat → List Char → Option (List Char)
  | [], cs => if cs.isEmpty then some [] else none
  | [n], cs => if cs.length = n then some cs else none
  | n :: ns, cs =>
    match cs.drop n with
    | '-' :: rest => (dropHyphens ns rest).map (cs.take n ++ ·)
    | _ => none

def display (id : TreeId) : String :=
  String.ofList (hyphenate groups id.digits)

def ofDigits? (cs : List Char) : Option TreeId :=
  if cs.length = 32 ∧ cs.all Text.isHexDigit then
    some ⟨BitVec.ofNat 128 (Text.numeral 16 cs)⟩
  else none

def ofHyphenated? (cs : List Char) : Option TreeId :=
  (dropHyphens groups cs).bind ofDigits?

def urnHead : List Char := "urn:uuid:".toList

/-- A UUID bare, with hyphens, in braces, or as a URN; letters count in either case. -/
def parse? (s : String) : Option TreeId :=
  let cs := s.toList
  if (cs.take urnHead.length).map Char.toLower = urnHead then
    ofHyphenated? (cs.drop urnHead.length)
  else if cs.head? = some '\x7b' ∧ cs.getLast? = some '\x7d' then
    ofHyphenated? (cs.drop 1).dropLast
  else if cs.length = 32 then ofDigits? cs
  else ofHyphenated? cs

def version (id : TreeId) : Nat :=
  id.bits.toNat / Nat.pow 2 76 % 16

def fresh (n : Nat) : TreeId :=
  ⟨BitVec.ofNat 128
    (n / Nat.pow 2 74 % Nat.pow 2 48 * Nat.pow 2 80 + 4 * Nat.pow 2 76
      + n / Nat.pow 2 62 % Nat.pow 2 12 * Nat.pow 2 64 + 2 * Nat.pow 2 62
      + n % Nat.pow 2 62)⟩

theorem version_fresh (n : Nat) : (fresh n).version = 4 := by
  have a := Nat.mod_lt (n / 2 ^ 74) (by decide : 2 ^ 48 > 0)
  have b := Nat.mod_lt (n / 2 ^ 62) (by decide : 2 ^ 12 > 0)
  have c := Nat.mod_lt n (by decide : 2 ^ 62 > 0)
  simp only [version, fresh, BitVec.toNat_ofNat, Nat.pow_eq]
  generalize n / 2 ^ 74 % 2 ^ 48 = x at *
  generalize n / 2 ^ 62 % 2 ^ 12 = y at *
  generalize n % 2 ^ 62 = z at *
  have h : x * 2 ^ 80 + 4 * 2 ^ 76 + y * 2 ^ 64 + 2 * 2 ^ 62 + z < 2 ^ 128 := by omega
  rw [Nat.mod_eq_of_lt h]
  omega

end TreeId

end Codemod
