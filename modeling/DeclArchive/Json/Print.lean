import DeclArchive.Json

/-!
# Printing JSON

Values are printed over several lines, two blanks deeper at each level; an empty list or object
stays on its line. Only what has to be escaped in a text is. What is unreadable is printed as null.
-/

namespace DeclArchive

namespace Json

/-! ## Texts -/

/-- The two lowest hexadecimal digits of a number. -/
def twoHexDigits (n : Nat) : List Char :=
  [Nat.digitChar (n / 16 % 16), Nat.digitChar (n % 16)]

/-- A character as it stands between quotes. -/
def escapeChar (c : Char) : List Char :=
  match c with
  | '"' => ['\\', '"']
  | '\\' => ['\\', '\\']
  | '\n' => ['\\', 'n']
  | '\t' => ['\\', 't']
  | '\r' => ['\\', 'r']
  | '\x08' => ['\\', 'b']
  | '\x0c' => ['\\', 'f']
  | c => if c.toNat < 0x20 then ['\\', 'u', '0', '0'] ++ twoHexDigits c.toNat else [c]

/-- A text between quotes. -/
def quote (s : String) : String :=
  String.ofList ('"' :: s.toList.flatMap escapeChar ++ ['"'])

/-! ## Values -/

/-- A line break and the blanks before a line at the given level. -/
def lineBreak (level : Nat) : String :=
  String.ofList ('\n' :: List.replicate (2 * level) ' ')

/-- Items on lines of their own, one level deeper than the brackets around them. -/
def enclose (first last : String) (level : Nat) (items : List String) : String :=
  if items.isEmpty then first ++ last
  else first ++ String.intercalate "," (items.map (lineBreak (level + 1) ++ ·)) ++
    lineBreak level ++ last

mutual

/-- A value whose first line is at the given level. -/
def printAt (level : Nat) : Json → String
  | .null | .unreadable => "null"
  | .bool b => if b then "true" else "false"
  | .integer n => toString n
  | .decimal literal => literal
  | .text s => quote s
  | .list values => enclose "[" "]" level (printValues (level + 1) values)
  | .object fields => enclose "\x7b" "\x7d" level (printMembers (level + 1) fields)

/-- Values at the given level. -/
def printValues (level : Nat) : List Json → List String
  | [] => []
  | v :: vs => v.printAt level :: printValues level vs

/-- Keys and values at the given level. -/
def printMembers (level : Nat) : List (String × Json) → List String
  | [] => []
  | (key, v) :: rest => (quote key ++ ": " ++ v.printAt level) :: printMembers level rest

end

/-- A value over several lines. -/
def print (v : Json) : String := v.printAt 0

end Json

end DeclArchive
