import Companion.Model.Scope

/-!
# Adding to a compilation

Scopes and types are interned: a second request for the same one gives the first one back.

* `Compilation.internScope`: the scope of a dotted name, one nested scope for each segment.
* `Compilation.internType`: the type of a simple name in a scope.
* `Compilation.internExternal`: the type of a qualified name that is only referred to.
* `Compilation.declare`: one more declaration of a type.

Every operation gives the new compilation and the position asked for.
-/

namespace Companion.Compilation

/-! ### Scopes -/

/-- The scope with the given name directly under `parent`. -/
def scopeIn? (c : Compilation) (parent : Option NamespaceId) (name : String) :
    Option NamespaceId :=
  (c.namespaces.findIdx? fun n => n.parent = parent && n.name = name).map NamespaceId.mk

/-- Interns one scope.  The parent is not checked. -/
def internSegment (c : Compilation) (parent : Option NamespaceId) (name : String) :
    Compilation × NamespaceId :=
  match c.scopeIn? parent name with
  | some id => (c, id)
  | none => ({ c with namespaces := c.namespaces ++ [⟨name, parent⟩] }, ⟨c.namespaces.length⟩)

/-- Interns a first segment under `parent` and each further one under the one before. -/
def internSegments (c : Compilation) (parent : Option NamespaceId) (first : String) :
    List String → Compilation × NamespaceId
  | [] => c.internSegment parent first
  | next :: rest =>
    let (c, id) := c.internSegment parent first
    c.internSegments (some id) next rest

/-- Interns the scope of a dotted name under `parent`.  Every dot opens a scope, also where two
dots meet or a dot stands at an end. -/
def internScope (c : Compilation) (parent : Option NamespaceId) (name : String) :
    Compilation × NamespaceId :=
  let (first, rest) := Text.Dotted.segments name
  c.internSegments parent first rest

/-! ### Types -/

/-- Interns the type of a simple name in a scope.  Types are told apart by their full name.  A new
type is internal, not abstract, and has no base. -/
def internType (c : Compilation) (scope : Option NamespaceId) (name : String) :
    Compilation × TypeId :=
  match c.lookup? (c.qualify scope name) with
  | some id => (c, id)
  | none =>
    ({ c with types := c.types ++ [⟨c.qualify scope name, { name, scope }⟩] },
      ⟨c.types.length⟩)

/-- Interns the scope that a qualified name has before its last dot, and gives that scope and the
simple name behind it. -/
def internQualifier (c : Compilation) (qualifiedName : String) :
    Compilation × Option NamespaceId × String :=
  match Text.Dotted.splitLast? qualifiedName with
  | none => (c, none, qualifiedName)
  | some (path, name) =>
    let (c, scope) := c.internScope none path
    (c, some scope, name)

/-- Interns a type that is referred to by its qualified name, and its scope.  A new type is marked
external, one that was there stays as it is. -/
def internExternal (c : Compilation) (qualifiedName : String) : Compilation × TypeId :=
  let (withScope, scope, name) := c.internQualifier qualifiedName
  let (withType, id) := withScope.internType scope name
  (withType.updateType ⟨c.types.length⟩ fun symbol => { symbol with isExternal := true }, id)

/-! ### Declarations -/

/-- Records a declaration of a type, which is no longer external then.  For an unknown type nothing
is recorded. -/
def declare (c : Compilation) (id : TypeId) (isPartial : Bool) :
    Compilation × Option DeclarationId :=
  match c.type? id with
  | none => (c, none)
  | some _ =>
    let known := c.updateType id fun symbol => { symbol with isExternal := false }
    ({ known with declarations := c.declarations ++ [⟨id, isPartial⟩] },
      some ⟨c.declarations.length⟩)

/-! ### What interning leaves alone -/

@[simp] theorem types_internSegment (c : Compilation) (parent : Option NamespaceId)
    (name : String) : (c.internSegment parent name).1.types = c.types := by
  unfold internSegment
  split <;> rfl

@[simp] theorem types_internSegments (c : Compilation) (parent : Option NamespaceId)
    (first : String) (rest : List String) :
    (c.internSegments parent first rest).1.types = c.types := by
  induction rest generalizing c parent first with
  | nil => simp [internSegments]
  | cons next rest ih => simp [internSegments, ih]

/-- Interning a scope leaves the types alone. -/
@[simp] theorem types_internScope (c : Compilation) (parent : Option NamespaceId)
    (name : String) : (c.internScope parent name).1.types = c.types := by
  simp [internScope]

@[simp] theorem declarations_internSegment (c : Compilation) (parent : Option NamespaceId)
    (name : String) : (c.internSegment parent name).1.declarations = c.declarations := by
  unfold internSegment
  split <;> rfl

@[simp] theorem declarations_internSegments (c : Compilation) (parent : Option NamespaceId)
    (first : String) (rest : List String) :
    (c.internSegments parent first rest).1.declarations = c.declarations := by
  induction rest generalizing c parent first with
  | nil => simp [internSegments]
  | cons next rest ih => simp [internSegments, ih]

/-- Interning a scope leaves the declarations alone. -/
@[simp] theorem declarations_internScope (c : Compilation) (parent : Option NamespaceId)
    (name : String) : (c.internScope parent name).1.declarations = c.declarations := by
  simp [internScope]

/-- Interning a type leaves the scopes alone. -/
@[simp] theorem namespaces_internType (c : Compilation) (scope : Option NamespaceId)
    (name : String) : (c.internType scope name).1.namespaces = c.namespaces := by
  unfold internType
  split <;> rfl

end Companion.Compilation
