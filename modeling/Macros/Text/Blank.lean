/-!
Blank characters and line breaks, and the cuts they give: trimming, words, words up to a limit,
and lines. Each cut is a function on lists of characters; the `String` forms only wrap them.
-/

namespace Macros.Text

/-- The separators of Unicode: tab to carriage return, the four information separators, and
every space that separates words. -/
def isBlank (c : Char) : Bool :=
  let n := c.toNat
  decide (9 ≤ n) && decide (n ≤ 13) || decide (28 ≤ n) && decide (n ≤ 32)
    || n == 0x85 || n == 0xA0 || n == 0x1680
    || decide (0x2000 ≤ n) && decide (n ≤ 0x200A)
    || n == 0x2028 || n == 0x2029 || n == 0x202F || n == 0x205F || n == 0x3000

/-- The characters that end a line; a carriage return takes a line feed after it along. -/
def isLineBreak (c : Char) : Bool :=
  let n := c.toNat
  decide (10 ≤ n) && decide (n ≤ 13) || decide (28 ≤ n) && decide (n ≤ 30)
    || n == 0x85 || n == 0x2028 || n == 0x2029

def trimStartChars (s : List Char) : List Char := s.dropWhile isBlank

def trimEndChars (s : List Char) : List Char := (s.reverse.dropWhile isBlank).reverse

def trimChars (s : List Char) : List Char := trimEndChars (trimStartChars s)

/-- The word that a text begins with, and the text after it with its leading blanks dropped. -/
def nextWord (s : List Char) : List Char × List Char :=
  (s.takeWhile (!isBlank ·), trimStartChars (s.dropWhile (!isBlank ·)))

/-- Adds `c` in front of the first word, or starts a word when a blank (or nothing) follows. -/
def pushWord (c : Char) (rest : List Char) (ws : List (List Char)) : List (List Char) :=
  match rest, ws with
  | d :: _, w :: ws => if isBlank d then [c] :: w :: ws else (c :: w) :: ws
  | _, ws => [c] :: ws

/-- The maximal runs of characters that are not blank. -/
def wordsChars : List Char → List (List Char)
  | [] => []
  | c :: s => if isBlank c then wordsChars s else pushWord c s (wordsChars s)

/-- At most `n` words, then what is left without its leading blanks, if anything is left. -/
def wordsUpTo : Nat → List Char → List (List Char)
  | 0, s => match trimStartChars s with
    | [] => []
    | r => [r]
  | n + 1, s => match trimStartChars s with
    | [] => []
    | r => (nextWord r).1 :: wordsUpTo n (nextWord r).2

/-- Adds `c` in front of the first line. -/
def pushLine (c : Char) : List (List Char) → List (List Char)
  | [] => [[c]]
  | l :: ls => (c :: l) :: ls

/-- The lines of a text without their breaks; a break at the end opens no further line. -/
def linesChars : List Char → List (List Char)
  | [] => []
  | '\r' :: '\n' :: s => [] :: linesChars s
  | c :: s => if isLineBreak c then [] :: linesChars s else pushLine c (linesChars s)

def trim (s : String) : String := String.ofList (trimChars s.toList)

def words (s : String) : List String := (wordsChars s.toList).map String.ofList

def lines (s : String) : List String := (linesChars s.toList).map String.ofList

/-- Cuts at every `sep`, which is dropped: one piece more than there are separators. -/
def splitChars (sep : Char) : List Char → List (List Char)
  | [] => [[]]
  | c :: s => if c = sep then [] :: splitChars sep s else pushLine c (splitChars sep s)

def split (sep : Char) (s : String) : List String :=
  (splitChars sep s.toList).map String.ofList

/-- Every line end (`\r\n`, `\r`) becomes a line feed. -/
def unifyBreaksChars : List Char → List Char
  | [] => []
  | '\r' :: '\n' :: s => '\n' :: unifyBreaksChars s
  | c :: s => (if c = '\r' then '\n' else c) :: unifyBreaksChars s

def unifyBreaks (s : String) : String := String.ofList (unifyBreaksChars s.toList)

end Macros.Text
