import DeclArchive.Files

/-!
# A directory

A directory as a value: entries with names and contents, and what it refuses. Paths lead to its own
entries only; `./` may stand before a name. A temporary file has a longer name than any entry, so
its name is new.
-/

namespace DeclArchive

/-! ## Names -/

/-- The path without any `./` at its front. -/
def withoutHere : List Char → List Char
  | '.' :: '/' :: rest =>
    have : (rest.dropWhile (· == '/')).length ≤ rest.length :=
      (List.dropWhile_sublist _).length_le
    withoutHere (rest.dropWhile (· == '/'))
  | path => path
termination_by path => path.length

/-- The most bytes of a name. -/
def longestName : Nat := 255

/-- The entry that a path leads to. -/
def entryName? (path : String) : Option String :=
  let name := withoutHere path.toList
  if name = [] ∨ name = ['.'] ∨ name = ['.', '.'] ∨ '/' ∈ name ∨ '\x00' ∈ name then none
  else if longestName < (Utf8.encode (String.ofList name)).length then none
  else some (String.ofList name)

/-! ## Requests -/

/-- A request that a directory may refuse. -/
inductive FileRequest where
  | read (path : String)
  | create (path : String)
  | fill (temporary : String)
  | persist (temporary path : String)
  deriving DecidableEq, Repr

/-- Entries, and what is refused. -/
structure Directory where
  /-- Names with contents. -/
  entries : List (String × Array UInt8) := []
  /-- The reason for which a request is refused. -/
  refuses : FileRequest → Option String := fun _ => none
  /-- How many bytes a refused `fill` leaves. -/
  leftover : Nat := 0

namespace Directory

/-- The content of an entry. -/
def content? (d : Directory) (name : String) : Option (Array UInt8) :=
  (d.entries.find? (·.1 == name)).map Prod.snd

/-- The directory without an entry. -/
def remove (d : Directory) (name : String) : Directory :=
  { d with entries := d.entries.filter (·.1 != name) }

/-- The directory with an entry, which replaces the one of that name. -/
def put (d : Directory) (name : String) (content : Array UInt8) : Directory :=
  if (d.content? name).isSome then
    { d with entries := d.entries.map fun e => if e.1 == name then (name, content) else e }
  else { d with entries := d.entries ++ [(name, content)] }

/-- A name that is longer than all entries and the path. -/
def freshName (d : Directory) (path : String) : String :=
  let longest := (d.entries.map (·.1.length)).foldl max path.length
  String.ofList (['.', 't', 'm', 'p'] ++ List.replicate longest '0')

/-! ## Answers -/

def noSuchFile : String := "No such file or directory (os error 2)"

/-- The content of the file at a path. -/
def read (d : Directory) (path : String) : Except String (Array UInt8) :=
  match d.refuses (.read path), (entryName? path).bind d.content? with
  | some reason, _ => .error reason
  | none, some content => .ok content
  | none, none => .error noSuchFile

/-- An empty file beside `path` and its name. -/
def createBeside (d : Directory) (path : String) : Except String String × Directory :=
  match d.refuses (.create path), entryName? path with
  | some reason, _ => (.error reason, d)
  | none, none => (.error noSuchFile, d)
  | none, some _ => (.ok (d.freshName path), d.put (d.freshName path) #[])

/-- A temporary file with this content. -/
def fill (d : Directory) (temporary : String) (content : Array UInt8) :
    Except String Unit × Directory :=
  match d.refuses (.fill temporary) with
  | some reason => (.error reason, d.put temporary (content.extract 0 d.leftover))
  | none => (.ok (), d.put temporary content)

/-- The content of a temporary file under the name at the end of `path`. -/
def persist (d : Directory) (temporary path : String) : Except String Unit × Directory :=
  match d.refuses (.persist temporary path), entryName? path, d.content? temporary with
  | some reason, _, _ => (.error reason, d)
  | none, some name, some content => (.ok (), (d.remove temporary).put name content)
  | none, _, _ => (.error noSuchFile, d)

end Directory

instance : Files (StateM Directory) where
  read path := return (← get).read path
  createBeside path := modifyGet fun d => d.createBeside path
  fill temporary content := modifyGet fun d => d.fill temporary content
  persist temporary path := modifyGet fun d => d.persist temporary path
  discard temporary := modify fun d => d.remove temporary

end DeclArchive
