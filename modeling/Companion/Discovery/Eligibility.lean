import Companion.Model.Ancestry

/-!
# Eligibility

A declaration makes its class a candidate for a unit if it is marked `partial`, the class is not
abstract, and the marker type is met on the way up from its base.  The way starts at the base, so
to be the marker type is not enough.

* `Eligibility`: the outcome of the test, with `Eligibility.reason` in words.
* `Compilation.eligibility`: the test of one declaration.
* `Compilation.eligibleTypes`: the classes that get a unit, in the order of their first eligible
  declaration.
-/

namespace Companion

/-- The outcome of the test of one declaration.  Of several obstacles the first one counts. -/
inductive Eligibility
  | eligible
  | notPartial
  | abstractType
  /-- The type is unknown or the marker type is not above it. -/
  | wrongAncestry
  deriving DecidableEq, Repr

/-- The outcome in words. -/
def Eligibility.reason : Eligibility → String
  | .eligible => "eligible"
  | .notPartial => "not declared partial"
  | .abstractType => "abstract"
  | .wrongAncestry => "marker type not in inheritance chain"

namespace Compilation

/-- Tests one declaration. -/
def eligibility (c : Compilation) (marker : String) (declaration : ClassDeclaration) :
    Eligibility :=
  if declaration.isPartial then
    match c.type? declaration.type with
    | none => .wrongAncestry
    | some symbol =>
      if symbol.isAbstract then .abstractType
      else if c.derives symbol.base marker then .eligible
      else .wrongAncestry
  else .notPartial

/-- A declaration is eligible exactly if nothing stands against it. -/
theorem eligibility_eq_eligible_iff (c : Compilation) (marker : String)
    (declaration : ClassDeclaration) :
    c.eligibility marker declaration = .eligible ↔
      declaration.isPartial = true ∧ ∃ symbol, c.type? declaration.type = some symbol ∧
        symbol.isAbstract = false ∧ c.derives symbol.base marker = true := by
  unfold eligibility
  cases declaration.isPartial with
  | false => simp
  | true =>
    cases c.type? declaration.type with
    | none => simp
    | some symbol =>
      cases ha : symbol.isAbstract <;> cases hd : c.derives symbol.base marker <;> simp [ha, hd]

/-- The classes that get a unit.  One that is declared in parts counts where its first eligible
part stands. -/
def eligibleTypes (c : Compilation) (marker : String) : List TypeId :=
  ((c.declarations.filter fun declaration => c.eligibility marker declaration = .eligible).map
    (·.type)).eraseDups

/-- A class gets a unit exactly if one of its declarations is eligible. -/
theorem mem_eligibleTypes {c : Compilation} {marker : String} {id : TypeId} :
    id ∈ c.eligibleTypes marker ↔
      ∃ declaration ∈ c.declarations,
        c.eligibility marker declaration = .eligible ∧ declaration.type = id := by
  simp [eligibleTypes, List.mem_eraseDups, and_assoc]

end Compilation

end Companion
