import DeclArchive.Json
import DeclArchive.Text.Decimal.Range

/-!
# JSON tokens

A text is cut into brackets, marks, quoted texts and other scalars. Blanks are space, tab, line feed
and carriage return. A quoted text may not hold raw control characters; it stands for nothing if
escapes for the two halves of a surrogate pair do not follow each other. A number has no leading zero
and no bare point; it stands for nothing if it is out of range.
-/

namespace DeclArchive

inductive Token where
  | openList
  | closeList
  | openObject
  | closeObject
  | comma
  | colon
  /-- A text in quotes, or none if half of a surrogate pair stands alone in it. -/
  | quoted (text? : Option String)
  /-- A number or one of the three constants. -/
  | scalar (value : Json)

namespace Token

/-- Whether a character may stand between tokens. -/
def isBlank (c : Char) : Bool := c == ' ' || c == '\t' || c == '\n' || c == '\r'

/-! ## Quoted texts -/

/-- A piece of a quoted text: a character or half of a surrogate pair. -/
inductive Piece where
  | char (c : Char)
  | half (value : Nat)

/-- The piece with this number of 16 bits. -/
def Piece.ofUnit (value : Nat) : Piece :=
  if 0xD800 ≤ value ∧ value < 0xE000 then .half value else .char (Char.ofNat value)

/-- The characters of pieces in reverse order before those in `rest`, or none if a half stands
alone. -/
def join? (rest : List Char) : List Piece → Option (List Char)
  | [] => some rest
  | .char c :: before => join? (c :: rest) before
  | .half low :: .half high :: before =>
    if high < 0xDC00 ∧ 0xDC00 ≤ low then
      join? (Char.ofNat (0x10000 + (high - 0xD800) * 0x400 + (low - 0xDC00)) :: rest) before
    else none
  | .half _ :: _ => none

/-- Where the reader of a quoted text is. -/
inductive QuoteState where
  | plain
  | escape
  /-- `left` hexadecimal digits are due after the one that is read next. -/
  | hex (left value : Nat)

/-- The value of a hexadecimal digit. -/
def hexDigit? (c : Char) : Option Nat :=
  if '0' ≤ c ∧ c ≤ '9' then some (c.toNat - '0'.toNat)
  else if 'a' ≤ c ∧ c ≤ 'f' then some (c.toNat - 'a'.toNat + 10)
  else if 'A' ≤ c ∧ c ≤ 'F' then some (c.toNat - 'A'.toNat + 10)
  else none

/-- The character that a short escape stands for. -/
def shortEscape? (c : Char) : Option Char :=
  match c with
  | '"' => some '"'
  | '\\' => some '\\'
  | '/' => some '/'
  | 'b' => some '\x08'
  | 'f' => some '\x0c'
  | 'n' => some '\n'
  | 'r' => some '\r'
  | 't' => some '\t'
  | _ => none

/-- Reads up to the closing quote; `read` holds the pieces so far in reverse. Returns the pieces in
reverse and what follows them. -/
def quoted? : QuoteState → (read : List Piece) → List Char → Option (List Piece × List Char)
  | _, _, [] => none
  | .plain, read, c :: cs =>
    if c = '"' then some (read, cs)
    else if c = '\\' then quoted? .escape read cs
    else if c.toNat < 0x20 then none
    else quoted? .plain (.char c :: read) cs
  | .escape, read, c :: cs =>
    if c = 'u' then quoted? (.hex 3 0) read cs
    else match shortEscape? c with
      | some c => quoted? .plain (.char c :: read) cs
      | none => none
  | .hex left value, read, c :: cs =>
    match hexDigit? c, left with
    | none, _ => none
    | some d, left + 1 => quoted? (.hex left (16 * value + d)) read cs
    | some d, 0 => quoted? .plain (.ofUnit (16 * value + d) :: read) cs

/-! ## Numbers -/

/-- Whether a character may stand in a number. -/
def isNumeric (c : Char) : Bool :=
  c.isDigit || c == '-' || c == '+' || c == '.' || c == 'e' || c == 'E'

/-- The power of ten with this text, which follows the digits of a number. -/
def power? : List Char → Option Int
  | [] => some 0
  | e :: cs =>
    let (negative, digits) := match cs with
      | '-' :: cs => (true, cs)
      | '+' :: cs => (false, cs)
      | cs => (false, cs)
    if (e == 'e' || e == 'E') && Decimal.isDigits digits then
      some (if negative then -(Decimal.value digits : Int) else Decimal.value digits)
    else none

/-- The digits of a fraction and the power of ten after it; either may be missing. -/
def fraction? : List Char → Option (List Char × Int)
  | '.' :: cs =>
    let digits := cs.takeWhile Char.isDigit
    if digits.isEmpty then none else return (digits, ← power? (cs.dropWhile Char.isDigit))
  | cs => return ([], ← power? cs)

/-- The number with this text. Minus zero is not a whole number. -/
def number? (cs : List Char) : Option Json :=
  let negative := cs.head? == some '-'
  let rest := if negative then cs.tail else cs
  let whole := rest.takeWhile Char.isDigit
  let tail := rest.dropWhile Char.isDigit
  if whole.isEmpty || (whole.head? == some '0' && whole.length != 1) then none
  else do
    let (fraction, power) ← fraction? tail
    if !Decimal.inRange (whole ++ fraction) (power - fraction.length) then return .unreadable
    else if tail.isEmpty && !(negative && whole == ['0']) then
      return .integer (if negative then -(Decimal.value whole : Int) else Decimal.value whole)
    else return .decimal (String.ofList cs)

/-! ## Tokens -/

/-- The names of the three constants. -/
def constant? (cs : List Char) : Option Json :=
  if cs = "null".toList then some .null
  else if cs = "true".toList then some (.bool true)
  else if cs = "false".toList then some (.bool false)
  else none

/-- The first token and what follows it; `c` is no blank. -/
def next? (c : Char) (cs : List Char) : Option (Token × List Char) :=
  match c with
  | '[' => some (.openList, cs)
  | ']' => some (.closeList, cs)
  | '\x7b' => some (.openObject, cs)
  | '\x7d' => some (.closeObject, cs)
  | ',' => some (.comma, cs)
  | ':' => some (.colon, cs)
  | '"' => (quoted? .plain [] cs).map fun (pieces, rest) =>
    (.quoted ((join? [] pieces).map String.ofList), rest)
  | _ =>
    let (run, rest) :=
      if c.isAlpha then (c :: cs.takeWhile Char.isAlpha, cs.dropWhile Char.isAlpha)
      else (c :: cs.takeWhile isNumeric, cs.dropWhile isNumeric)
    ((if c.isAlpha then constant? run else if isNumeric c then number? run else none).map
      fun v => (.scalar v, rest))

/-- The tokens of a text of at most `fuel` characters; `read` holds those before it in reverse. -/
def scan? : (fuel : Nat) → (read : List Token) → List Char → Option (List Token)
  | _, read, [] => some read.reverse
  | 0, _, _ => none
  | fuel + 1, read, c :: cs =>
    if isBlank c then scan? fuel read cs
    else match next? c cs with
      | none => none
      | some (t, rest) => scan? fuel (t :: read) rest

/-- The tokens of a text. -/
def ofText? (s : String) : Option (List Token) :=
  let cs := s.toList
  scan? cs.length [] cs

end Token

end DeclArchive
