import Companion.Model.Accessibility

/-!
# Compilations

A compilation holds namespace scopes, types and class declarations in three lists.  All else refers
to an entry by its position.  Positions are not checked: a link may dangle or lead in a circle.
A position is kept in 32 bits, so that no list is meant to have as many as 2 ^ 32 entries.

* `NamespaceId`, `TypeId`, `DeclarationId`: positions in the three lists.
* `NamespaceSymbol`, `TypeSymbol`, `ClassDeclaration`: what stands there.
* `Compilation`: the lists, together with the name under which each type was registered.
* `Compilation.updateType`: the only way to change a type that is there.
-/

namespace Companion

/-! ### Entries -/

/-- Position of a namespace scope.  There are to be fewer than 2 ^ 32 of them. -/
structure NamespaceId where
  index : Nat
  deriving DecidableEq, Repr

/-- Position of a type.  There are to be fewer than 2 ^ 32 of them. -/
structure TypeId where
  index : Nat
  deriving DecidableEq, Repr

/-- Position of a class declaration.  There are to be fewer than 2 ^ 32 of them. -/
structure DeclarationId where
  index : Nat
  deriving DecidableEq, Repr

/-- A namespace scope.  The global namespace has none. -/
structure NamespaceSymbol where
  /-- Simple name. -/
  name : String
  /-- The enclosing scope, `none` directly under the global namespace. -/
  parent : Option NamespaceId
  deriving DecidableEq, Repr

/-- What is known of a type. -/
structure TypeSymbol where
  /-- Simple name. -/
  name : String
  /-- The enclosing scope, `none` for the global namespace. -/
  scope : Option NamespaceId
  /-- Immediate base type. -/
  base : Option TypeId := none
  /-- Whether the type is abstract. -/
  isAbstract : Bool := false
  /-- Declared accessibility. -/
  accessibility : Accessibility := default
  /-- Whether the type is referred to and nowhere declared. -/
  isExternal : Bool := false
  deriving DecidableEq, Repr

/-- A type together with the full name that it was registered under. -/
structure RegisteredType where
  registeredName : String
  symbol : TypeSymbol
  deriving DecidableEq, Repr

/-- One class declaration, which is the whole of a class or a part of it. -/
structure ClassDeclaration where
  /-- The type that it contributes to. -/
  type : TypeId
  /-- Whether it carries the modifier `partial`. -/
  isPartial : Bool
  deriving DecidableEq, Repr

/-! ### The three lists -/

/-- All that is visible in one pass. -/
structure Compilation where
  namespaces : List NamespaceSymbol := []
  types : List RegisteredType := []
  declarations : List ClassDeclaration := []
  deriving DecidableEq, Repr

namespace Compilation

/-- The compilation that holds nothing. -/
instance : Inhabited Compilation := ⟨{}⟩

/-- The scope at a position. -/
def namespace? (c : Compilation) (id : NamespaceId) : Option NamespaceSymbol :=
  c.namespaces[id.index]?

/-- The type at a position. -/
def type? (c : Compilation) (id : TypeId) : Option TypeSymbol :=
  c.types[id.index]?.map (·.symbol)

/-- The immediate base type, if the type exists and has one. -/
def base? (c : Compilation) (id : TypeId) : Option TypeId :=
  (c.type? id).bind (·.base)

/-- The positions of all types in order. -/
def typeIds (c : Compilation) : List TypeId :=
  (List.range c.types.length).map TypeId.mk

/-- The declarations of one type in order. -/
def declarationsOf (c : Compilation) (id : TypeId) : List ClassDeclaration :=
  c.declarations.filter (·.type = id)

/-- The type registered under a full name. -/
def lookup? (c : Compilation) (fullName : String) : Option TypeId :=
  (c.types.findIdx? (·.registeredName = fullName)).map TypeId.mk

/-- Whether a type is registered under a full name. -/
def isRegistered (c : Compilation) (fullName : String) : Bool :=
  (c.lookup? fullName).isSome

/-- The first type with the given simple name that is not external. -/
def declaredNamed? (c : Compilation) (name : String) : Option TypeId :=
  (c.types.findIdx? fun t => !t.symbol.isExternal && t.symbol.name = name).map TypeId.mk

/-- Changes the type at a position.  The name it is registered under stays.  Where there is no
type nothing happens. -/
def updateType (c : Compilation) (id : TypeId) (change : TypeSymbol → TypeSymbol) : Compilation :=
  { c with types := c.types.modify id.index fun t => { t with symbol := change t.symbol } }

/-- Gives a type its base.  Where there is no type nothing happens. -/
def setBase (c : Compilation) (id : TypeId) (base : Option TypeId) : Compilation :=
  c.updateType id fun symbol => { symbol with base }

/-! ### What an update leaves alone -/

@[simp] theorem namespaces_updateType (c : Compilation) (id : TypeId)
    (change : TypeSymbol → TypeSymbol) : (c.updateType id change).namespaces = c.namespaces := rfl

@[simp] theorem declarations_updateType (c : Compilation) (id : TypeId)
    (change : TypeSymbol → TypeSymbol) :
    (c.updateType id change).declarations = c.declarations := rfl

@[simp] theorem length_types_updateType (c : Compilation) (id : TypeId)
    (change : TypeSymbol → TypeSymbol) :
    (c.updateType id change).types.length = c.types.length := by
  simp [updateType]

/-- The changed type is the old one with the change, every other type stays. -/
theorem type?_updateType (c : Compilation) (id other : TypeId)
    (change : TypeSymbol → TypeSymbol) :
    (c.updateType id change).type? other =
      if id = other then (c.type? other).map change else c.type? other := by
  obtain ⟨i⟩ := id
  obtain ⟨j⟩ := other
  by_cases h : i = j
  · subst h
    simp [type?, updateType, Function.comp_def]
  · simp [type?, updateType, h]

/-- A type exists exactly at the positions before the end of the list. -/
theorem isSome_type? (c : Compilation) (id : TypeId) :
    (c.type? id).isSome = true ↔ id.index < c.types.length := by
  simp [type?]

theorem mem_typeIds (c : Compilation) (id : TypeId) :
    id ∈ c.typeIds ↔ id.index < c.types.length := by
  obtain ⟨i⟩ := id
  simp [typeIds]

end Compilation

end Companion
