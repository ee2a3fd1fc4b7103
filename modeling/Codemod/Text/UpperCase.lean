import Codemod.Text.CaseTable

namespace Codemod.Text

def upperChar (c : Char) : List Char :=
  if c.toNat < 0x80 then [c.toUpper]
  else match wideCapitals.lookup c.toNat with
    | some codes => codes.map Char.ofNat
    | none =>
      match caseRuns.findSome? (·.capitalOf c.toNat) with
      | some code => [Char.ofNat code]
      | none => [c]

def upperCase (s : String) : String :=
  String.ofList (s.toList.flatMap upperChar)

end Codemod.Text
