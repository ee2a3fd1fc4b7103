import Codemod.Binary64

namespace Codemod

/-- A number that is no integer of 64 bits, or is not written as one, is `real`. -/
inductive Scalar where
  | null
  | bool (b : Bool)
  | int (n : Int)
  | real (x : Binary64)
  | string (s : String)
deriving DecidableEq, Repr

inductive Json where
  | scalar (s : Scalar)
  | array (items : List Json)
  | object (fields : List (String × Json))
deriving Repr

namespace Json

@[match_pattern] abbrev null : Json := .scalar .null
@[match_pattern] abbrev bool (b : Bool) : Json := .scalar (.bool b)
@[match_pattern] abbrev int (n : Int) : Json := .scalar (.int n)
@[match_pattern] abbrev real (x : Binary64) : Json := .scalar (.real x)
@[match_pattern] abbrev string (s : String) : Json := .scalar (.string s)

instance : Inhabited Json := ⟨null⟩

mutual
def decEq : (a b : Json) → Decidable (a = b)
  | .scalar x, .scalar y =>
    if h : x = y then .isTrue (by rw [h]) else .isFalse (by simpa using h)
  | .array xs, .array ys =>
    match decEqItems xs ys with
    | .isTrue h => .isTrue (by rw [h])
    | .isFalse h => .isFalse (by simpa using h)
  | .object xs, .object ys =>
    match decEqFields xs ys with
    | .isTrue h => .isTrue (by rw [h])
    | .isFalse h => .isFalse (by simpa using h)
  | .scalar _, .array _ => .isFalse (by simp)
  | .scalar _, .object _ => .isFalse (by simp)
  | .array _, .scalar _ => .isFalse (by simp)
  | .array _, .object _ => .isFalse (by simp)
  | .object _, .scalar _ => .isFalse (by simp)
  | .object _, .array _ => .isFalse (by simp)

def decEqItems : (as bs : List Json) → Decidable (as = bs)
  | [], [] => .isTrue rfl
  | [], _ :: _ => .isFalse (by simp)
  | _ :: _, [] => .isFalse (by simp)
  | a :: as, b :: bs =>
    match decEq a b, decEqItems as bs with
    | .isTrue h, .isTrue hs => .isTrue (by rw [h, hs])
    | .isFalse h, _ => .isFalse (by simp [h])
    | _, .isFalse hs => .isFalse (by simp [hs])

def decEqFields : (as bs : List (String × Json)) → Decidable (as = bs)
  | [], [] => .isTrue rfl
  | [], _ :: _ => .isFalse (by simp)
  | _ :: _, [] => .isFalse (by simp)
  | (k, a) :: as, (l, b) :: bs =>
    if hk : k = l then
      match decEq a b, decEqFields as bs with
      | .isTrue h, .isTrue hs => .isTrue (by rw [hk, h, hs])
      | .isFalse h, _ => .isFalse (by simp [h])
      | _, .isFalse hs => .isFalse (by simp [hs])
    else .isFalse (by simp [hk])
end

instance : DecidableEq Json := decEq

def insertField (key : String) (value : Json) : List (String × Json) → List (String × Json)
  | [] => [(key, value)]
  | (k, v) :: fields =>
    if key < k then (key, value) :: (k, v) :: fields
    else if key = k then (key, value) :: fields
    else (k, v) :: insertField key value fields

def ofFields (fields : List (String × Json)) : Json :=
  .object (fields.foldl (fun sorted f => insertField f.1 f.2 sorted) [])

def field? (fields : List (String × Json)) (key : String) : Option Json :=
  (fields.find? (·.1 == key)).map (·.2)

theorem field?_cons (k : String) (v : Json) (fields : List (String × Json)) (key : String) :
    field? ((k, v) :: fields) key = if k = key then some v else field? fields key := by
  by_cases h : k = key <;> simp [field?, h]

end Json

end Codemod
