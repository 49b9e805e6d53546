import Companion.Generation.Pass

/-!
# What a run reports

* `LogEntry`: one thing that is reported, with its level, its message and its fields.
* `Compilation.searchLog`, `Compilation.discoveryLog`, `Compilation.passLog`: what is reported
  while a marker is looked for, while classes are discovered, and during a whole pass.
* `Compilation.readLog`, `writtenLog`: what is reported when a manifest has been read and when units
  have been written.
-/

namespace Companion

/-! ### Entries -/

/-- How much an entry matters. -/
inductive LogLevel
  | debug
  | info
  | warning
  deriving DecidableEq, Repr

/-- One thing that is reported. -/
inductive LogEntry
  /-- A manifest has been read. -/
  | manifestRead (namespaces types declarations : Nat)
  /-- A search along base types ended where a type would be met again. -/
  | chainReturns (typeName : String)
  /-- A declaration makes its class no candidate. -/
  | declarationSkipped (declaration : DeclarationId) (typeName : String) (reason : Eligibility)
  /-- Two classes have units with the same key. -/
  | keyCollision (key first second : String)
  | unitGenerated (key typeName : String)
  | passComplete (declarations units : Nat)
  | unitWritten (path : String)
  deriving DecidableEq, Repr

namespace LogEntry

/-- A collision of keys is worth a warning, units and passes are worth a note. -/
def level : LogEntry → LogLevel
  | .keyCollision .. => .warning
  | .unitGenerated .. | .passComplete .. => .info
  | _ => .debug

/-- The text that is the same for all entries of a kind. -/
def message : LogEntry → String
  | .manifestRead .. => "parsed declaration manifest"
  | .chainReturns .. => "base-type chain revisits a type, stopping walk"
  | .declarationSkipped .. => "skipping declaration"
  | .keyCollision .. => "output key collision"
  | .unitGenerated .. => "generated unit"
  | .passComplete .. => "generation pass complete"
  | .unitWritten .. => "wrote generated unit"

/-- What tells entries of a kind apart, under field names. -/
def fields : LogEntry → List (String × String)
  | .manifestRead namespaces types declarations =>
    [("namespaces", toString namespaces), ("types", toString types),
      ("declarations", toString declarations)]
  | .chainReturns typeName => [("type_name", typeName)]
  | .declarationSkipped declaration typeName reason =>
    [("declaration", toString declaration.index), ("type_name", typeName),
      ("reason", reason.reason)]
  | .keyCollision key first second => [("key", key), ("first", first), ("second", second)]
  | .unitGenerated key typeName => [("key", key), ("type_name", typeName)]
  | .passComplete declarations units =>
    [("declarations", toString declarations), ("units", toString units)]
  | .unitWritten path => [("path", path)]

end LogEntry

namespace Compilation

/-! ### Discovery -/

/-- Reported while a type named `marker` is looked for from `start` upwards. -/
def searchLog (c : Compilation) (start : Option TypeId) (marker : String) : List LogEntry :=
  ((c.searchReturns? start marker).map fun again => .chainReturns (c.fullName again)).toList

/-- Reported while one declaration is tested.  The ancestry is looked at only if nothing else
stands against the declaration. -/
def eligibilityLog (c : Compilation) (marker : String) (declaration : ClassDeclaration) :
    List LogEntry :=
  match declaration.isPartial, c.type? declaration.type with
  | true, some symbol => if symbol.isAbstract then [] else c.searchLog symbol.base marker
  | _, _ => []

/-- Reported when a declaration is passed over. -/
def skipLog (c : Compilation) (marker : String) (id : DeclarationId)
    (declaration : ClassDeclaration) : List LogEntry :=
  match c.eligibility marker declaration with
  | .eligible => []
  | reason => [.declarationSkipped id (c.fullName declaration.type) reason]

/-- Reported while the classes that get a unit are discovered. -/
def discoveryLog (c : Compilation) (marker : String) : List LogEntry :=
  c.declarations.zipIdx.flatMap fun (declaration, index) =>
    c.eligibilityLog marker declaration ++ c.skipLog marker ⟨index⟩ declaration

/-! ### Passes -/

/-- Reported for units in order, where `owners` holds the keys so far with the class that had each
last, latest first. -/
def unitsLog (settings : Settings) (owners : List (String × String)) :
    List Descriptor → List LogEntry
  | [] => []
  | descriptor :: rest =>
    let key := settings.keyFor descriptor.name
    let name := descriptor.qualifiedName
    ((owners.lookup key).map fun previous => .keyCollision key previous name).toList ++
      .unitGenerated key name :: unitsLog settings ((key, name) :: owners) rest

/-- Reported during a pass. -/
def passLog (c : Compilation) (settings : Settings) : List LogEntry :=
  c.discoveryLog settings.marker ++ unitsLog settings [] (c.descriptors settings.marker) ++
    [.passComplete c.declarations.length (c.generate settings).length]

/-! ### Reading and writing -/

/-- Reported when a manifest has been read into the compilation. -/
def readLog (c : Compilation) : List LogEntry :=
  [.manifestRead c.namespaces.length c.types.length c.declarations.length]

end Compilation

/-- Reported when units have been written to the given paths. -/
def writtenLog (paths : List String) : List LogEntry :=
  paths.map .unitWritten

end Companion
