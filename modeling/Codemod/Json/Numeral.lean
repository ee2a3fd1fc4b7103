import Codemod.Binary64
import Codemod.Text.Digit

namespace Codemod.Json

open Text

def absorb (significand : Nat) : List Char → Nat × Nat
  | [] => (significand, 0)
  | c :: cs =>
    let next := 10 * significand + numeral 10 [c]
    -- The digits that no longer fit are counted, to be made up for by the power of ten.
    if next < Nat.pow 2 64 then absorb next cs else (significand, cs.length + 1)

def real? (negative : Bool) (whole places : List Char) (power : Int) : Option Binary64 :=
  let (n, dropped) := absorb 0 whole
  let (n, unread) := absorb n places
  let shift : Int := dropped - (places.length - unread : Nat)
  (Binary64.scaled? n (shift + power)).map (Binary64.signed negative)

def isInteger (negative : Bool) (n : Nat) : Bool :=
  if negative then 0 < n && n ≤ Nat.pow 2 63 else n < Nat.pow 2 64

end Codemod.Json
