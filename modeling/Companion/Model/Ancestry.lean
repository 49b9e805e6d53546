import Companion.Model.Scope

/-!
# Base types

Base links may dangle and may lead in a circle, so the walk along them keeps account of the types
that it has not met yet.

* `Compilation.ascend`: the types met on the way up, and the one that is met again, if any.
* `Compilation.derives`: whether a type of a given simple name is on the way.
* `Compilation.baseChain`: the bases of a type, nearest first.
* `Compilation.loopAbove?`: the circle that the bases of a type run into.
-/

namespace Companion

/-- What following base links from a type comes to. -/
structure Ascent where
  /-- The types met, each once.  Only the last one may be unknown. -/
  met : List TypeId
  /-- The type whose second visit would come next. -/
  meetsAgain : Option TypeId
  deriving DecidableEq, Repr

namespace Compilation

/-- Follows base links from a type.  Known types that are not in `unmet` have been met before. -/
def ascendAmong (c : Compilation) (unmet : List TypeId) (id : TypeId) : Ascent :=
  match c.type? id with
  | none => ⟨[id], none⟩
  | some symbol =>
    if id ∈ unmet then
      match symbol.base with
      | none => ⟨[id], none⟩
      | some base =>
        let above := c.ascendAmong (unmet.erase id) base
        ⟨id :: above.met, above.meetsAgain⟩
    else ⟨[], some id⟩
termination_by unmet.length
decreasing_by
  next h =>
    have := List.length_pos_of_mem h
    rw [List.length_erase_of_mem h]
    omega

/-- Follows base links from a type until they end or a type would be met again. -/
def ascend (c : Compilation) (id : TypeId) : Ascent :=
  c.ascendAmong c.typeIds id

/-- Whether the type at a position exists and has the given simple name. -/
def isNamed (c : Compilation) (name : String) (id : TypeId) : Bool :=
  (c.type? id).any (·.name = name)

/-- Whether a type named `marker` is met on the way up from `start`, which counts itself.  To ask
whether a type derives from another, start at its base. -/
def derives (c : Compilation) (start : Option TypeId) (marker : String) : Bool :=
  start.any fun id => (c.ascend id).met.any (c.isNamed marker)

/-- The type whose second visit ends the search for a type named `marker`. -/
def searchReturns? (c : Compilation) (start : Option TypeId) (marker : String) :
    Option TypeId :=
  if c.derives start marker then none else start.bind fun id => (c.ascend id).meetsAgain

/-- The bases of a type, nearest first, up to where a type would be met again. -/
def baseChain (c : Compilation) (id : TypeId) : List TypeId :=
  (c.ascend id).met.tail

/-- The circle that the base links above a type run into.  It begins and ends with the type where
it closes. -/
def loopAbove? (c : Compilation) (id : TypeId) : Option (List TypeId) :=
  (c.ascend id).meetsAgain.map fun again =>
    (c.ascend id).met.dropWhile (· ≠ again) ++ [again]

/-! ### The walk -/

theorem ascendAmong_unknown {c : Compilation} {id : TypeId} (h : c.type? id = none)
    (unmet : List TypeId) : c.ascendAmong unmet id = ⟨[id], none⟩ := by
  rw [ascendAmong, h]

/-- From a type without a base the walk ends at once. -/
theorem ascendAmong_rootless {c : Compilation} {id : TypeId} {symbol : TypeSymbol}
    {unmet : List TypeId} (h : c.type? id = some symbol) (hb : symbol.base = none)
    (hm : id ∈ unmet) : c.ascendAmong unmet id = ⟨[id], none⟩ := by
  rw [ascendAmong, h]
  simp [hm, hb]

/-- The walk from a type goes on at its base. -/
theorem ascendAmong_base {c : Compilation} {id base : TypeId} {symbol : TypeSymbol}
    {unmet : List TypeId} (h : c.type? id = some symbol) (hb : symbol.base = some base)
    (hm : id ∈ unmet) :
    c.ascendAmong unmet id =
      ⟨id :: (c.ascendAmong (unmet.erase id) base).met,
        (c.ascendAmong (unmet.erase id) base).meetsAgain⟩ := by
  rw [ascendAmong, h]
  simp [hm, hb]

/-- A known type that has been met ends the walk. -/
theorem ascendAmong_again {c : Compilation} {id : TypeId} {symbol : TypeSymbol}
    {unmet : List TypeId} (h : c.type? id = some symbol) (hm : id ∉ unmet) :
    c.ascendAmong unmet id = ⟨[], some id⟩ := by
  rw [ascendAmong, h]
  simp [hm]

end Compilation

end Companion
