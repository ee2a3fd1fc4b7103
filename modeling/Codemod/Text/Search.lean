namespace Codemod.Text

def occursIn (needle : List Char) : List Char → Bool
  | [] => needle.isEmpty
  | c :: cs => needle.isPrefixOf (c :: cs) || occursIn needle cs

theorem occursIn_iff {needle text : List Char} :
    occursIn needle text = true ↔ needle <:+: text := by
  induction text with
  | nil => simp [occursIn]
  | cons c cs ih => simp [occursIn, ih, List.infix_cons_iff]

/-- Replaces the occurrences found from left to right that do not overlap; `skip` characters of the
last one found are still to be dropped. -/
def substitute (needle replacement : List Char) : List Char → Nat → List Char
  | [], _ => []
  | _ :: cs, skip + 1 => substitute needle replacement cs skip
  | c :: cs, 0 =>
    if needle.isPrefixOf (c :: cs) then
      replacement ++ substitute needle replacement cs (needle.length - 1)
    else c :: substitute needle replacement cs 0

theorem substitute_of_not_occursIn {needle replacement text : List Char}
    (h : occursIn needle text = false) : substitute needle replacement text 0 = text := by
  induction text with
  | nil => rfl
  | cons c cs ih =>
    simp only [occursIn, Bool.or_eq_false_iff] at h
    simp [substitute, h.1, ih h.2]

def interleave (separator : List Char) : List Char → List Char
  | [] => separator
  | c :: cs => separator ++ c :: interleave separator cs

def replaceAll (needle replacement text : String) : String :=
  if needle.isEmpty then String.ofList (interleave replacement.toList text.toList)
  else String.ofList (substitute needle.toList replacement.toList text.toList 0)

def contains (text needle : String) : Bool :=
  occursIn needle.toList text.toList

def startsWith (text head : String) : Bool :=
  head.toList.isPrefixOf text.toList

def endsWith (text tail : String) : Bool :=
  tail.toList.isSuffixOf text.toList

theorem contains_iff {text needle : String} :
    contains text needle = true ↔ needle.toList <:+: text.toList :=
  occursIn_iff

theorem startsWith_iff {text head : String} :
    startsWith text head = true ↔ head.toList <+: text.toList := by
  simp [startsWith]

theorem endsWith_iff {text tail : String} :
    endsWith text tail = true ↔ tail.toList <:+ text.toList := by
  simp [endsWith]

end Codemod.Text
