import Macros.Number.Binary64

/-!
Writing numbers. A positive number becomes `digits * 10 ^ scale`: with the fewest digits that
read back, with a fixed number of significant digits, or with a fixed number of places; a layout
then says where the point stands and when an exponent is written.
-/

namespace Macros.Decimal

open Binary64

/-- A positive decimal number, `digits * 10 ^ scale`. -/
structure Scaled where
  digits : Nat
  scale : Int
deriving DecidableEq

/-- Is `10 ^ e` at most `u` units? -/
def powerLe (e : Int) (u : Nat) : Bool :=
  if 0 ≤ e then decide (tenTo e.toNat * twoTo unitBits ≤ u)
  else decide (twoTo unitBits ≤ u * tenTo (-e).toNat)

/-- The exponent of the leading digit: the `e` with `10 ^ e ≤ u < 10 ^ (e + 1)`. -/
def leading (u : Nat) : Int :=
  let e := ((u.log2 : Int) - unitBits) * 30103 / 100000
  if powerLe (e + 1) u then e + 1 else if powerLe e u then e else e - 1

/-- The two sides of `u` units against the grid of `10 ^ scale`, in quarters of a unit: the value
is `fst / snd` grid steps. -/
def onGrid (quarters : Nat) (scale : Int) : Nat × Nat :=
  if 0 ≤ scale then (quarters, tenTo scale.toNat * twoTo (unitBits + 2))
  else (quarters * tenTo (-scale).toNat, twoTo (unitBits + 2))

/-- Below and above `u`, in quarters of a unit, the ends of what rounds to `u`. -/
def readsBack (u : Nat) : Nat × Nat :=
  let s := spacing u
  (4 * u - (if twoTo 53 ≤ u && u == twoTo u.log2 then s else 2 * s), 4 * u + 2 * s)

/-- Does `c * 10 ^ scale` read back as `u`? The ends do exactly when the significand is even. -/
def hits (u : Nat) (scale : Int) (c : Nat) : Bool :=
  let (lo, step) := onGrid (readsBack u).1 scale
  let (hi, _) := onGrid (readsBack u).2 scale
  if u / spacing u % 2 = 0 then decide (lo ≤ c * step) && decide (c * step ≤ hi)
  else decide (lo < c * step) && decide (c * step < hi)

/-- The nearest point of a grid that reads back, if one does; the even one of two. -/
def nearest? (u : Nat) (scale : Int) : Option Nat :=
  let (n, step) := onGrid (4 * u) scale
  let c := n / step
  match hits u scale c, hits u scale (c + 1) with
  | true, true => some (roundDiv n step)
  | true, false => some c
  | false, true => some (c + 1)
  | false, false => none

/-- The fewest digits that read back as `u` units; 17 always do. -/
def shortest (u : Nat) : Scaled :=
  let e := leading u
  let found := (List.range 17).findSome? fun (n : Nat) =>
    (nearest? u (e - (n : Int))).map fun c => Scaled.mk c (e - (n : Int))
  found.getD ⟨0, 0⟩

/-- Rounded to `n + 1` significant digits. -/
def significant (n : Nat) (u : Nat) : Scaled :=
  let scale := leading u - n
  let (a, step) := onGrid (4 * u) scale
  ⟨roundDiv a step, scale⟩

/-- Drops zeros at the end. -/
def dropZeros (ds : List Char) : List Char := (ds.reverse.dropWhile (· = '0')).reverse

/-- Where positional notation ends (exponents below it are written out, from `-4` on), and
whether a whole number keeps a zero after the point. -/
structure Layout where
  positionalBelow : Int
  keepPoint : Bool

def digitsOf (n : Nat) : List Char := (toString n).toList

/-- An exponent has a sign and at least two digits. -/
def exponentText (e : Int) : List Char :=
  let ds := digitsOf e.natAbs
  'e' :: (if e < 0 then '-' else '+') :: (if ds.length < 2 then '0' :: ds else ds)

def Layout.write (l : Layout) (x : Scaled) : List Char :=
  let all := digitsOf x.digits
  let e := x.scale + all.length - 1
  let ds := dropZeros all
  if e < -4 || l.positionalBelow ≤ e then
    let mantissa := match ds with
      | d :: [] => [d]
      | d :: rest => d :: '.' :: rest
      | [] => []
    mantissa ++ exponentText e
  else if e < 0 then '0' :: '.' :: List.replicate (-e - 1).toNat '0' ++ ds
  else
    let whole := (e + 1).toNat
    let front := ds.take whole ++ List.replicate (whole - ds.length) '0'
    match ds.drop whole with
    | [] => front ++ (if l.keepPoint then ['.', '0'] else [])
    | rest => front ++ '.' :: rest

/-- Infinities and `nan` have names; a finite number has its sign and its text without it. -/
def written (zeroText : String) (f : Nat → List Char) : Binary64 → String
  | .nan => "nan"
  | .infinite s => if s then "-inf" else "inf"
  | .finite s u =>
    (if s then "-" else "") ++ (if u = 0 then zeroText else String.ofList (f u))

/-- Numbers as they are reported: the fewest digits that read back, positional below `10 ^ 16`,
and always with a point or an exponent. -/
def exactLayout : Layout := ⟨16, true⟩

def exact (x : Binary64) : String := written "0.0" (fun u => exactLayout.write (shortest u)) x

/-- Numbers as tags show them: six significant digits, positional below `10 ^ 6`. -/
def briefLayout : Layout := ⟨6, false⟩

def brief (x : Binary64) : String := written "0" (fun u => briefLayout.write (significant 5 u)) x

/-- Two places after the point. -/
def hundredths (x : Binary64) : String :=
  written "0.00" (fun u =>
    let n := roundDiv (u * 100) (twoTo unitBits)
    digitsOf (n / 100) ++ '.' :: digitsOf (n / 10 % 10) ++ digitsOf (n % 10)) x

end Macros.Decimal
