import Companion.Manifest.Draft

/-!
# Linking base types

When all of a manifest has been gathered, the names of base types are looked up.

* `Compilation.candidateNames`: the full names that a base may be registered under, seen from a
  type.
* `Compilation.resolveBase`: the type that a base name stands for.
* `Draft.link`: the compilation with levels and base types filled in.
-/

namespace Companion

namespace Compilation

/-- The full names that the base of a type may be registered under: in each scope around the type,
innermost first, and then as it is written. -/
def candidateNames (c : Compilation) (id : TypeId) (baseName : String) : List String :=
  let scopes := (((c.type? id).bind (·.scope)).map c.enclosing).getD []
  scopes.map (fun (scope, _) => c.pathOf scope ++ "." ++ baseName) ++ [baseName]

/-- The type that a base name stands for: the first candidate that is registered, or else the
first declared type with that simple name, or else an external type. -/
def resolveBase (c : Compilation) (id : TypeId) (baseName : String) : Compilation × TypeId :=
  match (c.candidateNames id baseName).findSome? c.lookup? with
  | some base => (c, base)
  | none =>
    match c.declaredNamed? baseName with
    | some base => (c, base)
    | none => c.internExternal baseName

/-- Gives a type the base that it names. -/
def linkBase (c : Compilation) (id : TypeId) (baseName : String) : Compilation :=
  let (c, base) := c.resolveBase id baseName
  c.setBase id (some base)

/-- Gives a type its level. -/
def setAccessibility (c : Compilation) (id : TypeId) (level : Accessibility) : Compilation :=
  c.updateType id fun symbol => { symbol with accessibility := level }

end Compilation

/-- Fills in levels, and then base types in the order in which they were noted. -/
def Draft.link (draft : Draft) : Compilation :=
  let levelled := draft.accessibilities.foldl
    (fun c (id, level) => c.setAccessibility id level) draft.compilation
  draft.bases.foldl (fun c (id, baseName) => c.linkBase id baseName) levelled

end Companion
