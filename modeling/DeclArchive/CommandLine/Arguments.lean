import DeclArchive.Text.Decimal
import DeclArchive.Widths

/-!
# Arguments

The command line has options before and after the name of a command. Arguments are taken from left
to right, and the first one that is wrong, or that asks for help, ends it. An option has a long name
after `--` or a letter after `-`; letters may share a dash, and a value may stand in the same
argument or in the next one, where it must not look like an option. After `--` nothing is an option.
-/

namespace DeclArchive.CommandLine

/-! ## Commands -/

/-- What is asked for. -/
inductive Command where
  /-- Saves the forest in `input` as a container in `output`. -/
  | write (input output : String) (widths : Widths)
  /-- Prints a container, or one declaration of it; checks its references first if `verify`. -/
  | dump (file : String) (lookup? : Option String) (verify : Bool)
  deriving DecidableEq, Repr

/-- Why there is no command to carry out. -/
inductive Stop where
  | usage
  | help
  | version
  deriving DecidableEq, Repr

/-! ## Options -/

/-- Where an argument stands: before the name of a command, or after it. -/
inductive Place where
  | top
  | write
  | dump
  deriving DecidableEq, Repr

inductive Opt where
  | verbose
  | quiet
  | help
  | version
  | input
  | output
  | pointerSize
  | countSize
  | lookup
  | verify
  deriving DecidableEq, Repr

namespace Opt

def long : Opt → String
  | .verbose => "verbose"
  | .quiet => "quiet"
  | .help => "help"
  | .version => "version"
  | .input => "input"
  | .output => "output"
  | .pointerSize => "pointer-size"
  | .countSize => "array-count-size"
  | .lookup => "lookup"
  | .verify => "verify"

def short? : Opt → Option Char
  | .verbose => some 'v'
  | .quiet => some 'q'
  | .help => some 'h'
  | .version => some 'V'
  | .input => some 'i'
  | .output => some 'o'
  | _ => none

/-- Whether a value belongs to the option. -/
def hasValue : Opt → Bool
  | .input | .output | .pointerSize | .countSize | .lookup => true
  | _ => false

end Opt

/-- The options that may stand at a place. -/
def Place.options : Place → List Opt
  | .top => [.verbose, .quiet, .help, .version]
  | .write => [.input, .output, .pointerSize, .countSize, .verbose, .quiet, .help]
  | .dump => [.lookup, .verify, .verbose, .quiet, .help]

/-- The number from `0` to `255` with this text, which may have a sign. -/
def byteOfText? (s : String) : Option UInt8 :=
  let (negative, digits) := match s.toList with
    | '-' :: cs => (true, cs)
    | '+' :: cs => (false, cs)
    | cs => (false, cs)
  let n := Decimal.value digits
  if Decimal.isDigits digits ∧ n ≤ 255 ∧ (negative → n = 0) then some (UInt8.ofNat n) else none

/-- Whether a value suits an option: a path is not empty, and a size is a byte. -/
def Opt.accepts : Opt → String → Bool
  | .input, value | .output, value => !value.isEmpty
  | .pointerSize, value | .countSize, value => (byteOfText? value).isSome
  | _, _ => true

/-! ## Words -/

/-- What an argument looks like. -/
inductive Word where
  /-- Two dashes and nothing else. -/
  | endOfOptions
  | long (name : String) (value? : Option String)
  | short (letters : List Char)
  | plain (text : String)

def Word.ofText (s : String) : Word :=
  match s.toList with
  | ['-', '-'] => .endOfOptions
  | '-' :: '-' :: cs =>
    let name := String.ofList (cs.takeWhile (· ≠ '='))
    match cs.dropWhile (· ≠ '=') with
    | [] => .long name none
    | _ :: value => .long name (some (String.ofList value))
  | '-' :: c :: cs => .short (c :: cs)
  | _ => .plain s

/-! ## One place -/

/-- What was given at one place. -/
structure Given where
  verbose : Nat := 0
  quiet : Nat := 0
  /-- Each option at most once; a switch has an empty value. -/
  values : List (Opt × String) := []
  file? : Option String := none

namespace Given

/-- The value of an option. -/
def value? (g : Given) (o : Opt) : Option String := g.values.lookup o

/-- One more; a count stops at 255. -/
def counted (n : Nat) : Nat := min (n + 1) 255

/-- Takes an option with its value. -/
def take (g : Given) (value : String) : Opt → Except Stop Given
  | .help => .error .help
  | .version => .error .version
  | .verbose => .ok { g with verbose := counted g.verbose }
  | .quiet => .ok { g with quiet := counted g.quiet }
  | o =>
    if (g.value? o).isSome || !o.accepts value then .error .usage
    else .ok { g with values := (o, value) :: g.values }

/-- Takes an argument that is no option: the file of a dump, once. -/
def takePlain (g : Given) (place : Place) (text : String) : Except Stop Given :=
  if place = .dump ∧ g.file? = none ∧ text ≠ "" then .ok { g with file? := some text }
  else .error .usage

/-- Takes letters that share a dash. Returns an option whose value is due. -/
def takeLetters (place : Place) (g : Given) : List Char → Except Stop (Given × Option Opt)
  | [] => .ok (g, none)
  | c :: cs =>
    match place.options.find? (·.short? == some c) with
    | none => .error .usage
    | some o =>
      if o.hasValue then
        match cs with
        | [] => .ok (g, some o)
        | '=' :: value => return (← g.take (String.ofList value) o, none)
        | value => return (← g.take (String.ofList value) o, none)
      else do takeLetters place (← g.take "" o) cs

/-- Takes an option with a long name. Returns it if its value is due. -/
def takeLong (g : Given) (place : Place) (name : String) (value? : Option String) :
    Except Stop (Given × Option Opt) := do
  let some o := place.options.find? (·.long == name) | throw .usage
  match o.hasValue, value? with
  | true, some value => return (← g.take value o, none)
  | true, none => return (g, some o)
  | false, none => return (← g.take "" o, none)
  | false, some _ => throw .usage

/-- Takes a word. Returns an option whose value is due. -/
def takeWord (g : Given) (place : Place) : Word → Except Stop (Given × Option Opt)
  | .long name value? => g.takeLong place name value?
  | .short letters => takeLetters place g letters
  | .plain text => return (← g.takePlain place text, none)
  | .endOfOptions => return (g, none)

/-- Takes all arguments after the name of a command; the value of `due?` comes first. -/
def takeAll (place : Place) : Given → (due? : Option Opt) → List String → Except Stop Given
  | g, none, [] => .ok g
  | _, some _, [] => .error .usage
  | g, due?, arg :: rest =>
    match due?, Word.ofText arg with
    | some o, .plain value => do takeAll place (← g.take value o) none rest
    | some _, _ => .error .usage
    | none, .endOfOptions => rest.foldlM (fun g text => g.takePlain place text) g
    | none, word => do
      let (g, due?) ← g.takeWord place word
      takeAll place g due? rest

/-- Takes the arguments up to the name of a command; returns the name and what follows it. -/
def takeTop : Given → List String → Except Stop (Given × String × List String)
  | _, [] => .error .usage
  | g, arg :: rest =>
    match Word.ofText arg with
    | .plain name => .ok (g, name, rest)
    | .endOfOptions => .error .usage
    | word => do takeTop (← g.takeWord .top word).1 rest

/-- Whether both more and less was asked to be reported. -/
def isTorn (g : Given) : Bool := 0 < g.verbose && 0 < g.quiet

end Given

/-! ## All arguments -/

/-- The width given by an option; four if it is not given. -/
def widthOf (g : Given) (o : Opt) : UInt8 :=
  ((g.value? o).bind byteOfText?).getD 4

/-- The command that was given. -/
def commandOf (g : Given) : Place → Except Stop Command
  | .top => .error .usage
  | .write =>
    match g.value? .input, g.value? .output with
    | some input, some output =>
      .ok (.write input output ⟨widthOf g .pointerSize, widthOf g .countSize⟩)
    | _, _ => .error .usage
  | .dump =>
    match g.file? with
    | some file => .ok (.dump file (g.value? .lookup) (g.value? .verify).isSome)
    | none => .error .usage

/-- What asking for help by name amounts to; at most one command may follow. -/
def helpStop : List String → Stop
  | [] | ["write"] | ["dump"] | ["help"] => .help
  | _ => .usage

/-- A command and the rank of the least severe events to report. -/
structure Request where
  command : Command
  rank : Int
  deriving DecidableEq, Repr

/-- The rank of the least severe events to report. A count after the name of the command counts
instead of the one before it. -/
def rankOf (top inner : Given) : Int :=
  let last (outer inner : Nat) : Nat := if inner = 0 then outer else inner
  2 - last top.quiet inner.quiet + last top.verbose inner.verbose

/-- What the arguments ask for. -/
def parse (args : List String) : Except Stop Request := do
  let (top, name, rest) ← Given.takeTop {} args
  let place ← match name with
    | "write" => pure Place.write
    | "dump" => pure Place.dump
    | "help" => throw (helpStop rest)
    | _ => throw .usage
  let inner ← Given.takeAll place {} none rest
  if top.isTorn || inner.isTorn then throw .usage
  return ⟨← commandOf inner place, rankOf top inner⟩

end DeclArchive.CommandLine
