import Macros.Misfit
import Macros.Number.Decimal
import Macros.Table
import Macros.Text.Quoted

/-!
The values that instructions, records, scripts and host functions pass around. A value has two
texts: the quoted text names it unmistakably, the plain text shows a top-level text as it is.
-/

namespace Macros

inductive Value
  | null
  | flag (b : Bool)
  | int (n : Int)
  | number (x : Binary64)
  | text (s : String)
  | tuple (items : List Value)
  | list (items : List Value)
  | record (fields : List (String × Value))

namespace Value

instance : Inhabited Value := ⟨null⟩

mutual

def quoted : Value → String
  | null => "None"
  | flag true => "True"
  | flag false => "False"
  | int n => toString n
  | number x => Decimal.exact x
  | text s => Text.quoted s
  | tuple [x] => "(" ++ quoted x ++ ",)"
  | tuple xs => "(" ++ ", ".intercalate (quotedAll xs) ++ ")"
  | list xs => "[" ++ ", ".intercalate (quotedAll xs) ++ "]"
  | record fs => "\x7b" ++ ", ".intercalate (quotedFields fs) ++ "\x7d"

def quotedAll : List Value → List String
  | [] => []
  | x :: xs => quoted x :: quotedAll xs

def quotedFields : List (String × Value) → List String
  | [] => []
  | (k, v) :: fs => (Text.quoted k ++ ": " ++ quoted v) :: quotedFields fs

end

def plain : Value → String
  | text s => s
  | v => v.quoted

/-- Does the value count as true in a condition? -/
def truthy : Value → Bool
  | null => false
  | flag b => b
  | int n => n != 0
  | number x => !x.eq .zero
  | text s => !s.isEmpty
  | tuple xs => !xs.isEmpty
  | list xs => !xs.isEmpty
  | record fs => !fs.isEmpty

/-- The word for the kind of a value. -/
def kindName : Value → String
  | null => "NoneType"
  | flag _ => "bool"
  | int _ => "int"
  | number _ => "float"
  | text _ => "str"
  | tuple _ => "tuple"
  | list _ => "list"
  | record _ => "dict"

/-- The value lacks a part. -/
def lacks (v : Value) (part : String) : Misfit := .lacking v.kindName part

/-! Numbers. A flag counts as zero or one. -/

/-- The number that a value stands for, rounded. -/
def number? : Value → Option Binary64
  | flag b => some (.ofInt (if b then 1 else 0))
  | int n => some (.ofInt n)
  | number x => some x
  | _ => none

def toInt? : Value → Option Int
  | flag b => some (if b then 1 else 0)
  | int n => some n
  | _ => none

/-- The number that a value stands for; a whole number must be in range. -/
def toBinary (v : Value) : Except Misfit Binary64 :=
  match v.number?, v.toInt? with
  | some (.infinite _), some _ => .error .tooLarge
  | some x, _ => .ok x
  | none, _ => .error .wrongKind

/-- The difference of two values; that of whole numbers is exact. -/
def minus (v w : Value) : Except Misfit Value :=
  match v.toInt?, w.toInt? with
  | some m, some n => .ok (int (m - n))
  | _, _ =>
    match v.toBinary, w.toBinary with
    | .ok x, .ok y => .ok (number (x.sub y))
    | .error e, _ => .error e
    | _, .error e => .error e

/-- How many of the least positive number a whole number is. -/
def units (n : Int) : Int := n * (twoTo Binary64.unitBits : Int)

/-- Equality with a whole number, without rounding. -/
def intEq (n : Int) : Binary64 → Bool
  | .finite s u => Binary64.signed s u == units n
  | _ => false

/-- Is a whole number at most a binary one, without rounding? -/
def intLe (n : Int) : Binary64 → Bool
  | .finite s u => decide (units n ≤ Binary64.signed s u)
  | .infinite s => !s
  | .nan => false

/-- Is a binary number at most a whole one, without rounding? -/
def leInt (n : Int) : Binary64 → Bool
  | .finite s u => decide (Binary64.signed s u ≤ units n)
  | .infinite s => s
  | .nan => false

mutual

/-- Equality of values: numbers of every kind are equal as numbers. -/
def same : Value → Value → Bool
  | null, null => true
  | text s, text t => s == t
  | tuple xs, tuple ys => sameAll xs ys
  | list xs, list ys => sameAll xs ys
  | record fs, record gs => fs.length == gs.length && sameFields fs gs
  | number x, number y => x.eq y
  | number x, v => match v.toInt? with
    | some n => intEq n x
    | none => false
  | v, number y => match v.toInt? with
    | some n => intEq n y
    | none => false
  | v, w => match v.toInt?, w.toInt? with
    | some m, some n => m == n
    | _, _ => false

def sameAll : List Value → List Value → Bool
  | [], [] => true
  | x :: xs, y :: ys => same x y && sameAll xs ys
  | _, _ => false

/-- Are all fields of the first record in the second? -/
def sameFields : List (String × Value) → List (String × Value) → Bool
  | [], _ => true
  | (k, v) :: fs, gs => (match Table.get? gs k with
    | some w => same v w
    | none => false) && sameFields fs gs

end

mutual

/-- Is the first value at most the second? Values of different kinds, and those that have no
order, cannot be compared. -/
def atMost? : Value → Value → Option Bool
  | text s, text t => some (!decide (t < s))
  | tuple xs, tuple ys => atMostAll? xs ys
  | list xs, list ys => atMostAll? xs ys
  | number x, number y => some (x.le y)
  | number x, v => v.toInt?.map fun n => leInt n x
  | v, number y => v.toInt?.map fun n => intLe n y
  | v, w => match v.toInt?, w.toInt? with
    | some m, some n => some (decide (m ≤ n))
    | _, _ => none

/-- Lists are compared at the first place where they differ. -/
def atMostAll? : List Value → List Value → Option Bool
  | [], _ => some true
  | _ :: _, [] => some false
  | x :: xs, y :: ys => if same x y then atMostAll? xs ys else atMost? x y

end

/-! Values with parts. -/

/-- The parts of a value that has parts: the items of a list, the characters of a text, the keys
of a record. -/
def parts? : Value → Option (List Value)
  | tuple xs => some xs
  | list xs => some xs
  | text s => some (s.toList.map fun c => text (String.ofList [c]))
  | record fs => some (fs.map fun f => text f.1)
  | _ => none

/-- The two parts of a value. -/
def pair (v : Value) : Except Misfit (Value × Value) :=
  match v.parts? with
  | none => .error .wrongKind
  | some [a, b] => .ok (a, b)
  | some [] => .error (.tooFew 0)
  | some [_] => .error (.tooFew 1)
  | some _ => .error .tooMany

mutual

/-- Can the value be a member of a set? Lists and records cannot. -/
def isMember : Value → Bool
  | list _ => false
  | record _ => false
  | tuple xs => areMembers xs
  | _ => true

def areMembers : List Value → Bool
  | [] => true
  | x :: xs => isMember x && areMembers xs

end

/-- Is the value in a list? -/
def isIn (v : Value) (items : List Value) : Bool := items.any v.same

/-- What a table has under a value; its keys are texts. -/
def find {α : Type} (v : Value) (t : Table α) : Except Misfit (Option α) :=
  match v with
  | text s => .ok (t.get? s)
  | v => if v.isMember then .ok none else .error .wrongKind

/-! Numbers in writing. -/

/-- A number in brief form. -/
def brief : Value → Except Misfit String
  | text _ => .error (.textAsNumber 'g')
  | v => v.toBinary.map Decimal.brief

/-- A number with two places. -/
def hundredths : Value → Except Misfit String
  | text _ => .error (.textAsNumber 'f')
  | v => v.toBinary.map Decimal.hundredths

end Value

end Macros
