namespace Codemod

def infiniteRank : Nat := 2047 * Nat.pow 2 52

/-- A finite floating-point number of 64 bits, by its rank: how many steps it takes from zero up to
it, or down to it if it is negative. The two zeros have one rank. -/
structure Binary64 where
  rank : Int
  finite : rank.natAbs < infiniteRank
deriving DecidableEq, Repr

namespace Binary64

abbrev Magnitude := Fin infiniteRank

def Magnitude.zero : Magnitude := ⟨0, by decide⟩

def roundDiv (num den : Nat) : Nat :=
  if 2 * (num % den) < den ∨ (2 * (num % den) = den ∧ num / den % 2 = 0) then num / den
  else num / den + 1

def floorLog (num den : Nat) : Int :=
  let e : Int := (num.log2 : Int) - den.log2
  if den * Nat.pow 2 e.toNat ≤ num * Nat.pow 2 (-e).toNat then e else e - 1

def nearest? (num den : Nat) : Option Magnitude :=
  if num = 0 then some .zero
  else
    -- The least number above zero is two to the power of -1074.
    let e := max (-1074) (floorLog num den - 52)
    let rank :=
      roundDiv (num * Nat.pow 2 (-e).toNat) (den * Nat.pow 2 e.toNat)
        + (e + 1074).toNat * Nat.pow 2 52
    if h : rank < infiniteRank then some ⟨rank, h⟩ else none

namespace Magnitude

def significand (a : Magnitude) : Nat :=
  if a.val < Nat.pow 2 52 then a.val else Nat.pow 2 52 + a.val % Nat.pow 2 52

def exponent (a : Magnitude) : Int :=
  if a.val < Nat.pow 2 52 then -1074 else (a.val / Nat.pow 2 52 : Nat) - 1075

def numerator (a : Magnitude) : Nat :=
  a.significand * Nat.pow 2 a.exponent.toNat

def denominator (a : Magnitude) : Nat :=
  Nat.pow 2 (-a.exponent).toNat

def times? (a b : Magnitude) : Option Magnitude :=
  nearest? (a.numerator * b.numerator) (a.denominator * b.denominator)

def over? (a b : Magnitude) : Option Magnitude :=
  nearest? (a.numerator * b.denominator) (a.denominator * b.numerator)

def timesTen? (a : Magnitude) (places : Nat) : Option Magnitude :=
  if places ≤ 308 then (nearest? (Nat.pow 10 places) 1).bind a.times?
  else if a = zero then some zero
  else none

-- No greater power of ten is finite.
def overTen? (a : Magnitude) (places : Nat) : Option Magnitude :=
  if h : places ≤ 308 then (nearest? (Nat.pow 10 places) 1).bind a.over?
  else if a = zero then some zero
  else ((nearest? (Nat.pow 10 308) 1).bind a.over?).bind fun b => overTen? b (places - 308)
termination_by places
decreasing_by omega

end Magnitude

/-- The number `n` times ten to the `power`, reached from the number nearest to `n` by products or
quotients that are rounded in turn, so that it may lie a step beside the nearest. -/
def scaled? (n : Nat) (power : Int) : Option Magnitude :=
  (nearest? n 1).bind fun a =>
    if 0 ≤ power then a.timesTen? power.toNat else a.overTen? (-power).toNat

def signed (negative : Bool) (a : Magnitude) : Binary64 where
  rank := if negative then -a.val else a.val
  finite := by cases negative <;> simp

def magnitude (x : Binary64) : Magnitude := ⟨x.rank.natAbs, x.finite⟩

def digits (x : Binary64) : Nat × Nat :=
  let num := x.magnitude.numerator
  let den := x.magnitude.denominator
  let g := num.gcd den
  let places := (den / g).log2
  (num / g * Nat.pow 5 places, places)

end Binary64

end Codemod
