import Companion.Model.Compilation
import Companion.Text.Dotted

/-!
# Scopes and full names

* `Compilation.enclosing`: a scope and those around it, innermost first.
* `Compilation.pathOf`: the dotted path of a scope.
* `Compilation.qualify`: a simple name behind the path of its scope.
* `Compilation.fullName`: the full name of a type.
-/

namespace Companion.Compilation

/-- At most `limit` existing scopes, from the given one outwards.  The walk stops in front of a
scope that does not exist. -/
def enclosingWithin (c : Compilation) : Nat → NamespaceId → List (NamespaceId × NamespaceSymbol)
  | 0, _ => []
  | limit + 1, id =>
    match c.namespace? id with
    | none => []
    | some symbol =>
      (id, symbol) ::
        match symbol.parent with
        | none => []
        | some parent => c.enclosingWithin limit parent

/-- A scope and those around it, innermost first.  As many steps are taken as there are scopes,
which is enough unless the scopes lie in a circle. -/
def enclosing (c : Compilation) (id : NamespaceId) : List (NamespaceId × NamespaceSymbol) :=
  c.enclosingWithin c.namespaces.length id

theorem length_enclosingWithin_le (c : Compilation) (limit : Nat) (id : NamespaceId) :
    (c.enclosingWithin limit id).length ≤ limit := by
  induction limit generalizing id with
  | zero => simp [enclosingWithin]
  | succ limit ih =>
    unfold enclosingWithin
    split
    · simp
    · next symbol _ =>
      cases hp : symbol.parent with
      | none => simp
      | some parent => simpa using ih parent

/-- The dotted path of a scope, outermost name first. -/
def pathOf (c : Compilation) (id : NamespaceId) : String :=
  Text.Dotted.joined ((c.enclosing id).reverse.map (·.2.name))

/-- The path of a scope that may be absent, which is the empty path. -/
def pathOf? (c : Compilation) (scope : Option NamespaceId) : String :=
  (scope.map c.pathOf).getD ""

/-- A simple name behind the path of its scope.  Behind an empty path there is no dot. -/
def qualify (c : Compilation) (scope : Option NamespaceId) (name : String) : String :=
  if (c.pathOf? scope).isEmpty then name else c.pathOf? scope ++ "." ++ name

/-- The full name of a type, empty if there is no such type. -/
def fullName (c : Compilation) (id : TypeId) : String :=
  match c.type? id with
  | none => ""
  | some symbol => c.qualify symbol.scope symbol.name

/-- The path of the scope that a type lives in, empty for the global namespace. -/
def scopePathOf (c : Compilation) (id : TypeId) : String :=
  c.pathOf? ((c.type? id).bind (·.scope))

end Companion.Compilation
