import Codemod.Tree

namespace Codemod

structure Section where
  id : TreeId
  title : String
  children : List Section
deriving Repr

namespace Section

mutual
def decEq : (a b : Section) → Decidable (a = b)
  | ⟨i, t, cs⟩, ⟨i', t', cs'⟩ =>
    if hi : i = i' then
      if ht : t = t' then
        match decEqList cs cs' with
        | .isTrue h => .isTrue (by rw [hi, ht, h])
        | .isFalse h => .isFalse (by intro e; injection e; contradiction)
      else .isFalse (by intro e; injection e; contradiction)
    else .isFalse (by intro e; injection e; contradiction)

def decEqList : (as bs : List Section) → Decidable (as = bs)
  | [], [] => .isTrue rfl
  | [], _ :: _ => .isFalse (by simp)
  | _ :: _, [] => .isFalse (by simp)
  | a :: as, b :: bs =>
    match decEq a b, decEqList as bs with
    | .isTrue h, .isTrue hs => .isTrue (by rw [h, hs])
    | .isFalse h, _ => .isFalse (by simp [h])
    | _, .isFalse hs => .isFalse (by simp [hs])
end

instance : DecidableEq Section := decEq

mutual
def height : Section → Nat
  | ⟨_, _, children⟩ => heightOf children

def heightOf : List Section → Nat
  | [] => 0
  | s :: ss => max (height s + 1) (heightOf ss)
end

theorem height_lt_heightOf {s : Section} {ss : List Section} (h : s ∈ ss) :
    height s < heightOf ss := by
  induction ss with
  | nil => simp at h
  | cons t ts ih =>
    rw [heightOf]
    rcases List.mem_cons.mp h with rfl | h
    · omega
    · have := ih h
      omega

theorem height_lt_of_mem_children {s c : Section} (h : c ∈ s.children) : height c < height s := by
  cases s
  rw [height]
  exact height_lt_heightOf h

instance : Tree Section where
  id := Section.id
  children := Section.children
  withChildren s cs := { s with children := cs }
  height := height
  height_child _ _ h := height_lt_of_mem_children h
  withChildren_children s := by cases s; rfl

mutual
def titles : Section → List String
  | ⟨_, title, children⟩ => title :: titlesOf children

def titlesOf : List Section → List String
  | [] => []
  | s :: ss => titles s ++ titlesOf ss
end

end Section

end Codemod
