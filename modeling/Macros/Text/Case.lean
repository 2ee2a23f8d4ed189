import Macros.Text.CaseTable

/-!
Small and capital letters by the full mappings of Unicode: one character may become several,
and a capital sigma at the end of a word takes its final small form.
-/

namespace Macros.Text

/-- The shift that the runs give for `n`; zero outside of them. -/
def shiftOf (runs : List CaseRun) (n : Nat) : Int :=
  match runs.find? (·.contains n) with
  | some r => r.shift
  | none => 0

def mapCase (runs : List CaseRun) (expansions : List (Nat × List Nat)) (c : Char) : List Char :=
  match expansions.lookup c.toNat with
  | some ns => ns.map Char.ofNat
  | none => [Char.ofNat (c.toNat + shiftOf runs c.toNat).toNat]

/-- One character in small form, away from its context. -/
def lowerChar (c : Char) : List Char :=
  if c.toNat < 128 then
    [if decide (65 ≤ c.toNat) && decide (c.toNat ≤ 90) then Char.ofNat (c.toNat + 32) else c]
  else mapCase lowerRuns lowerExpansions c

def upperChar (c : Char) : List Char :=
  if c.toNat < 128 then
    [if decide (97 ≤ c.toNat) && decide (c.toNat ≤ 122) then Char.ofNat (c.toNat - 32) else c]
  else mapCase upperRuns upperExpansions c

def isCased (c : Char) : Bool := inRanges casedRanges c.toNat

def isCaseIgnorable (c : Char) : Bool := inRanges caseIgnorableRanges c.toNat

/-- Is the first character that case does not ignore a cased one? -/
def casedNext (s : List Char) : Bool :=
  match s.dropWhile isCaseIgnorable with
  | c :: _ => isCased c
  | [] => false

/-- The small form of what follows `before`, which is kept in reverse. -/
def lowerAfter (before : List Char) : List Char → List Char
  | [] => []
  | c :: s =>
    (if c.toNat = 0x3A3 then
      [if casedNext before && !casedNext s then Char.ofNat 0x3C2 else Char.ofNat 0x3C3]
     else lowerChar c) ++ lowerAfter (c :: before) s

def lowerChars (s : List Char) : List Char := lowerAfter [] s

def upperChars (s : List Char) : List Char := s.flatMap upperChar

def lower (s : String) : String := String.ofList (lowerChars s.toList)

def upper (s : String) : String := String.ofList (upperChars s.toList)

end Macros.Text
