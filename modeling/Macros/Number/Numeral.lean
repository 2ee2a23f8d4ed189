import Macros.Number.Binary64
import Macros.Text.Blank
import Macros.Text.Digit
import Macros.Text.Quoted

/-!
Reading numbers. Digits may be of any script and may be grouped by single underscores; around a
numeral blanks are skipped, of the ASCII ones only the space and the five controls from tab on.
The numeral of a whole number has a bounded number of digits, in reading and in writing.
-/

namespace Macros.Numeral

open Text

/-- Blanks that a numeral may stand between. -/
def isPadding (c : Char) : Bool :=
  if c.toNat < 128 then c = ' ' || decide (9 ≤ c.toNat) && decide (c.toNat ≤ 13) else isBlank c

def unpad (s : List Char) : List Char :=
  ((s.dropWhile isPadding).reverse.dropWhile isPadding).reverse

/-- An optional sign: is it a minus, and what follows. -/
def readSign : List Char → Bool × List Char
  | '-' :: s => (true, s)
  | '+' :: s => (false, s)
  | s => (false, s)

def startsWithDigit : List Char → Bool
  | c :: _ => isDecimal c
  | [] => false

/-- Digits in a row, an underscore only between two of them; what follows is left. -/
def readDigits : List Char → List Nat × List Char
  | [] => ([], [])
  | c :: '_' :: s =>
    match digitValue? c with
    | none => ([], c :: '_' :: s)
    | some d =>
      if startsWithDigit s then (d :: (readDigits s).1, (readDigits s).2) else ([d], '_' :: s)
  | c :: s =>
    match digitValue? c with
    | none => ([], c :: s)
    | some d => (d :: (readDigits s).1, (readDigits s).2)

def ofDigits (ds : List Nat) : Nat := ds.foldl (fun n d => 10 * n + d) 0

/-- The most digits that the numeral of a whole number has. -/
def maxDigits : Nat := 4300

/-- Why a text is no whole number, or a whole number cannot be written. -/
inductive IntegerError
  | malformed (text : String)
  | tooManyDigits (count : Nat)
  | tooLarge
deriving DecidableEq

def IntegerError.message : IntegerError → String
  | malformed s => "invalid literal for int() with base 10: " ++ quotedUpTo 200 s
  | tooManyDigits n => limit ++ ": value has " ++ toString n ++ " digits; " ++ advice
  | tooLarge => limit ++ "; " ++ advice
where
  limit : String :=
    "Exceeds the limit (" ++ toString maxDigits ++ " digits) for integer string conversion"
  advice : String := "use sys.set_int_max_str_digits() to increase the limit"

/-- Reads a whole number, as in `12`, `-1_000` or `+٣`. The digits are counted before what follows
them is looked at. -/
def readInteger (s : String) : Except IntegerError Int :=
  let (negative, body) := readSign (unpad s.toList)
  match readDigits body with
  | ([], _) | (_, '_' :: _) => .error (.malformed s)
  | (ds, rest) =>
    if maxDigits < ds.length then .error (.tooManyDigits ds.length)
    else if !rest.isEmpty then .error (.malformed s)
    else .ok (if negative then -(ofDigits ds : Int) else ofDigits ds)

def integer? (s : String) : Option Int := (readInteger s).toOption

def writeNat (n : Nat) : Except IntegerError String :=
  if tenTo maxDigits ≤ n then .error .tooLarge else .ok (toString n)

/-- An optional exponent that must reach the end of the text. -/
def exponent? : List Char → Option Int
  | [] => some 0
  | e :: s =>
    if e = 'e' || e = 'E' then
      let (negative, body) := readSign s
      match readDigits body with
      | (d :: ds, []) =>
        let n := ofDigits (d :: ds)
        some (if negative then -(n : Int) else n)
      | _ => none
    else none

/-- Digits with an optional point among or around them, and an optional exponent. -/
def unsigned? (negative : Bool) (s : List Char) : Option Binary64 :=
  let (whole, r) := readDigits s
  let (fraction, r) := match r with
    | '.' :: r => readDigits r
    | r => ([], r)
  if whole.isEmpty && fraction.isEmpty then none
  else (exponent? r).map fun e =>
    .ofDecimal negative (ofDigits (whole ++ fraction)) (e - fraction.length)

def asciiLower (c : Char) : Char := if c.isUpper then Char.ofNat (c.toNat + 32) else c

/-- A decimal number, an infinity or `nan`. -/
def number? (s : String) : Option Binary64 :=
  let (negative, body) := readSign (unpad s.toList)
  let name := String.ofList (body.map asciiLower)
  if name = "inf" || name = "infinity" then some (.infinite negative)
  else if name = "nan" then some .nan
  else unsigned? negative body

end Macros.Numeral
