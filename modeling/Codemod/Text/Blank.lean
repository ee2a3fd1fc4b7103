namespace Codemod.Text

/-- The characters with the Unicode property White_Space. -/
def isBlankChar (c : Char) : Bool :=
  (0x9 ≤ c.toNat && c.toNat ≤ 0xd) || (0x2000 ≤ c.toNat && c.toNat ≤ 0x200a) ||
    [0x20, 0x85, 0xa0, 0x1680, 0x2028, 0x2029, 0x202f, 0x205f, 0x3000].contains c.toNat

def isBlank (s : String) : Bool :=
  s.toList.all isBlankChar

theorem isBlankChar_of_isWhitespace {c : Char} (h : c.isWhitespace = true) :
    isBlankChar c = true := by
  simp only [Char.isWhitespace, Bool.or_eq_true, decide_eq_true_eq] at h
  rcases h with ((rfl | rfl) | rfl) | rfl <;> decide

theorem isBlank_iff {s : String} : isBlank s = true ↔ ∀ c ∈ s.toList, isBlankChar c = true := by
  simp [isBlank]

end Codemod.Text
