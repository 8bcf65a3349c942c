import DeclArchive.Json.Token

/-!
# Reading JSON

Tokens are taken one at a time by a machine that keeps the open lists and objects on a stack, so the
nesting of a text is the height of the stack. A text that goes on after its value is refused. What is
well written but stands for nothing does not spoil the text around it: a list or object more than
`deepestNesting` levels deep is `unreadable`, and so is an object with a key of that kind.
-/

namespace DeclArchive

namespace Json

/-- The most lists and objects around a readable value. -/
def deepestNesting : Nat := 127

/-- A list or object that is still open; `read` holds what it has so far in reverse. -/
inductive Frame where
  | list (read : List Json)
  /-- None is kept once a key was unreadable. -/
  | object (read? : Option Fields)
  /-- An object whose last key waits for its value. -/
  | member (read? : Option Fields) (name? : Option String)

/-- What is due next. -/
inductive ReadState where
  | value (stack : List Frame)
  /-- A value, or the end of the list on top. -/
  | listStart (stack : List Frame)
  /-- A key, or the end of the object on top. -/
  | objectStart (stack : List Frame)
  | key (stack : List Frame)
  | colon (name? : Option String) (stack : List Frame)
  /-- A comma or the end of what is on top. -/
  | after (stack : List Frame)
  | done (value : Json)

namespace ReadState

/-- A value is complete. -/
def deliver (v : Json) : List Frame → ReadState
  | [] => .done v
  | .list read :: stack => .after (.list (v :: read) :: stack)
  | .member read? name? :: stack => .after (.object (return (← name?, v) :: (← read?)) :: stack)
  | .object read? :: stack => .after (.object read? :: stack)

/-- A list or object is complete; `stack` holds those around it. -/
def close (v : Json) (stack : List Frame) : ReadState :=
  deliver (if (stack.drop (deepestNesting - 1)).isEmpty then v else .unreadable) stack

/-- A value begins with this token. -/
def begin? (stack : List Frame) : Token → Option ReadState
  | .scalar v => some (deliver v stack)
  | .quoted text? => some (deliver (text?.elim .unreadable .text) stack)
  | .openList => some (.listStart (.list [] :: stack))
  | .openObject => some (.objectStart (.object (some []) :: stack))
  | _ => none

/-- One token. -/
def step? : ReadState → Token → Option ReadState
  | .value stack, t => begin? stack t
  | .listStart (.list _ :: stack), .closeList => some (close (.list []) stack)
  | .listStart stack, t => begin? stack t
  | .objectStart (.object _ :: stack), .closeObject => some (close (.object []) stack)
  | .objectStart stack, .quoted name? => some (.colon name? stack)
  | .key stack, .quoted name? => some (.colon name? stack)
  | .colon name? (.object read? :: stack), .colon => some (.value (.member read? name? :: stack))
  | .after (.list read :: stack), .comma => some (.value (.list read :: stack))
  | .after (.list read :: stack), .closeList => some (close (.list read.reverse) stack)
  | .after (.object read? :: stack), .comma => some (.key (.object read? :: stack))
  | .after (.object read? :: stack), .closeObject =>
    some (close (read?.elim .unreadable fun read => .object read.reverse) stack)
  | _, _ => none

end ReadState

/-- The value with these tokens. -/
def ofTokens? (tokens : List Token) : Option Json :=
  match tokens.foldlM ReadState.step? (.value []) with
  | some (.done v) => some v
  | _ => none

/-- The value with this text. -/
def ofText? (s : String) : Option Json := do
  ofTokens? (← Token.ofText? s)

end Json

end DeclArchive
