import Macros.Number.Power

/-!
Binary floating point numbers of 64 bits, held exactly. A finite number is a sign and a count of
`2 ^ -1074`, the least positive number, so that comparing is comparing integers and an operation
is one exact result, rounded once to the nearest number and to the even one on a tie.
-/

namespace Macros

inductive Binary64
  | finite (negative : Bool) (units : Nat)
  | infinite (negative : Bool)
  | nan
deriving DecidableEq, Inhabited

namespace Binary64

/-- One is `2 ^ unitBits` units. -/
def unitBits : Nat := 1074

/-- The number of units from which on a number is infinite. -/
def overflow : Nat := twoTo 2098

/-- The integer nearest to `n / d`, the even one of two. -/
def roundDiv (n d : Nat) : Nat :=
  let r := n % d
  if 2 * r < d then n / d else if d < 2 * r then n / d + 1 else n / d + n / d % 2

/-- The distance of neighbours around `u` units: significands have 53 bits. -/
def spacing (u : Nat) : Nat := if u < twoTo 53 then 1 else twoTo (u.log2 - 52)

/-- The count of units with a significand of 53 bits that is nearest to `n / d`. -/
def roundUnits (n d : Nat) : Nat :=
  let s := spacing (n / d)
  roundDiv n (d * s) * s

def ofRatio (negative : Bool) (n d : Nat) : Binary64 :=
  let u := roundUnits n d
  if overflow ≤ u then .infinite negative else .finite negative u

def zero : Binary64 := .finite false 0

def ofInt (n : Int) : Binary64 := ofRatio (n < 0) (n.natAbs * twoTo unitBits) 1

/-- The number nearest to `digits * 10 ^ exponent`. Far out of range the power is not computed. -/
def ofDecimal (negative : Bool) (digits : Nat) (exponent : Int) : Binary64 :=
  if digits = 0 then .finite negative 0
  else if 400 < exponent then .infinite negative
  else if exponent < -(400 + digits.log2 : Int) then .finite negative 0
  else if 0 ≤ exponent then
    ofRatio negative (digits * tenTo exponent.toNat * twoTo unitBits) 1
  else ofRatio negative (digits * twoTo unitBits) (tenTo (-exponent).toNat)

def signed (negative : Bool) (u : Nat) : Int := if negative then -(u : Int) else u

def isFinite : Binary64 → Bool
  | finite _ _ => true
  | _ => false

def lt : Binary64 → Binary64 → Bool
  | nan, _ => false
  | _, nan => false
  | infinite s, infinite t => s && !t
  | infinite s, finite _ _ => s
  | finite _ _, infinite t => !t
  | finite s a, finite t b => decide (signed s a < signed t b)

/-- Equality of numbers: the two zeros are equal and `nan` equals nothing. -/
def eq : Binary64 → Binary64 → Bool
  | infinite s, infinite t => s == t
  | finite s a, finite t b => decide (signed s a = signed t b)
  | _, _ => false

def le (x y : Binary64) : Bool := x.lt y || x.eq y

/-- The first unless the second is smaller. -/
def min (x y : Binary64) : Binary64 := if y.lt x then y else x

/-- The first unless the second is larger. -/
def max (x y : Binary64) : Binary64 := if x.lt y then y else x

def neg : Binary64 → Binary64
  | finite s a => finite (!s) a
  | infinite s => infinite (!s)
  | nan => nan

def add : Binary64 → Binary64 → Binary64
  | nan, _ => nan
  | _, nan => nan
  | infinite s, infinite t => if s = t then infinite s else nan
  | infinite s, finite _ _ => infinite s
  | finite _ _, infinite t => infinite t
  | finite s a, finite t b =>
    let z := signed s a + signed t b
    if z = 0 then finite (s && t) 0 else ofRatio (z < 0) z.natAbs 1

def sub (x y : Binary64) : Binary64 := x.add y.neg

def mul : Binary64 → Binary64 → Binary64
  | nan, _ => nan
  | _, nan => nan
  | infinite s, infinite t => infinite (s != t)
  | infinite s, finite t b => if b = 0 then nan else infinite (s != t)
  | finite s a, infinite t => if a = 0 then nan else infinite (s != t)
  | finite s a, finite t b => ofRatio (s != t) (a * b) (twoTo unitBits)

/-- The integer part, toward zero; none for infinities and `nan`. -/
def truncate? : Binary64 → Option Int
  | finite s a => some (signed s (a / twoTo unitBits))
  | _ => none

end Binary64

end Macros
