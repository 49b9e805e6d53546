import Companion.Model.Ancestry

/-!
# Consistency of a compilation

All queries answer on inconsistent compilations too.  This check reports up front what no compiler
would accept.

* `Inconsistency`: what can be wrong, and `Inconsistency.message`: its wording.
* `PartTally`: what is counted of the parts of a class.
* `Compilation.check`: the first thing that is wrong: names before base types before parts, and
  within each the lowest position.
-/

namespace Companion

/-- What can be wrong with a compilation. -/
inductive Inconsistency
  /-- A scope without a name lies under the scope with the given path. -/
  | emptyNamespaceName (parentPath : String)
  | emptyTypeName (id : TypeId)
  /-- The full names along a circle of base types. -/
  | circularInheritance (loop : List String)
  /-- Not every part of the type is marked `partial`. -/
  | missingPartial (typeName : String)
  deriving DecidableEq, Repr

/-- The wording of an inconsistency. -/
def Inconsistency.message : Inconsistency → String
  | .emptyNamespaceName parentPath =>
    "validation error: empty namespace name under '" ++ parentPath ++ "'"
  | .emptyTypeName id =>
    "validation error: empty type name (type #" ++ toString id.index ++ ")"
  | .circularInheritance loop =>
    "circular inheritance detected: " ++ " -> ".intercalate loop
  | .missingPartial typeName =>
    "missing partial modifier on a declaration of '" ++ typeName ++ "'"

/-- What is counted of the declarations of one type. -/
structure PartTally where
  parts : Nat := 0
  /-- Whether all of them are marked `partial`. -/
  allPartial : Bool := true
  deriving DecidableEq, Repr

namespace PartTally

/-- One more declaration counts. -/
def add (tally : PartTally) (isPartial : Bool) : PartTally :=
  ⟨tally.parts + 1, tally.allPartial && isPartial⟩

/-- Whether a type is split into parts of which one is not marked `partial`. -/
def lacksPartial (tally : PartTally) : Bool :=
  1 < tally.parts && !tally.allPartial

/-- Tallies by types with one more declaration, which counts for its type. -/
def count : List (TypeId × PartTally) → ClassDeclaration → List (TypeId × PartTally)
  | [], d => [(d.type, ({} : PartTally).add d.isPartial)]
  | (id, tally) :: rest, d =>
    if id = d.type then (id, tally.add d.isPartial) :: rest else (id, tally) :: count rest d

end PartTally

namespace Compilation

/-! ### Names -/

/-- The first scope without a name. -/
def emptyNamespaceName? (c : Compilation) : Option Inconsistency :=
  (c.namespaces.find? (·.name.isEmpty)).map fun symbol =>
    .emptyNamespaceName (c.pathOf? symbol.parent)

/-- The first type without a name. -/
def emptyTypeName? (c : Compilation) : Option Inconsistency :=
  (c.types.findIdx? (·.symbol.name.isEmpty)).map fun index => .emptyTypeName ⟨index⟩

/-! ### Base types -/

/-- The first circle above one of the given types.  Types that are known to run into none are
passed over. -/
def firstLoop? (c : Compilation) (cleared : List TypeId) : List TypeId → Option (List TypeId)
  | [] => none
  | id :: rest =>
    if id ∈ cleared then c.firstLoop? cleared rest
    else
      match c.loopAbove? id with
      | some loop => some loop
      | none => c.firstLoop? (id :: c.baseChain id ++ cleared) rest

/-- The circle above the first type that has one. -/
def circularInheritance? (c : Compilation) : Option Inconsistency :=
  (c.firstLoop? [] c.typeIds).map fun loop => .circularInheritance (loop.map c.fullName)

/-! ### Parts -/

/-- The tallies of the types that are declared, from one pass over all declarations. -/
def partTallies (c : Compilation) : List (TypeId × PartTally) :=
  c.declarations.foldl PartTally.count []

/-- The first type that lacks a `partial`. -/
def missingPartial? (c : Compilation) : Option Inconsistency :=
  let tallies := c.partTallies
  (c.typeIds.find? fun id => (tallies.lookup id).any (·.lacksPartial)).map fun id =>
    .missingPartial (c.fullName id)

/-! ### The check -/

/-- The first inconsistency. -/
def inconsistency? (c : Compilation) : Option Inconsistency :=
  c.emptyNamespaceName? <|> c.emptyTypeName? <|> c.circularInheritance? <|> c.missingPartial?

/-- Accepts a consistent compilation. -/
def check (c : Compilation) : Except Inconsistency Unit :=
  match c.inconsistency? with
  | none => .ok ()
  | some found => .error found

theorem check_eq_ok_iff (c : Compilation) : c.check = .ok () ↔ c.inconsistency? = none := by
  unfold check
  cases c.inconsistency? <;> simp

end Compilation

end Companion
