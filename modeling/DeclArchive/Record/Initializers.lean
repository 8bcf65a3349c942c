import DeclArchive.Log

/-!
# Initializers of a class

A class record says where, in its sorted methods, the `init` family begins. Readers expect the
family in one block; where it is not, the record is still written, and the log says so.
-/

namespace DeclArchive

/-- The place of the first initializer. -/
def firstInitializer? (methods : List Method) : Option Nat :=
  methods.findIdx? Method.isInitializer

/-- How many initializers follow one another from the first one on. -/
def firstInitializerRun (methods : List Method) : Nat :=
  ((methods.dropWhile fun m => !m.isInitializer).takeWhile Method.isInitializer).length

/-- A warning, if the initializers are not one block. -/
def initializerWarning? (methods : List Method) : Option Event :=
  let run := firstInitializerRun methods
  let total := methods.countP Method.isInitializer
  if run = total then none else some (.scatteredInitializers run total)

/-- The place of the first initializer in two bytes, `-1` if there is none. -/
def initializerIndex (methods : List Method) : Except Error Int16 :=
  match firstInitializer? methods with
  | none => .ok (-1)
  | some i => if i ≤ 32767 then .ok (Int16.ofNat i) else .error (.countOverflow i 2)

end DeclArchive
