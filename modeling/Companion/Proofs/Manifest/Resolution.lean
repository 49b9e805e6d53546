import Companion.Proofs.Manifest.Linked
import Companion.Proofs.Model.Verdict

/-!
# What a base text stands for

A base text is looked up outwards from the scope that it is used in, then among the simple names of
the declared types, and what is not found is taken for a type from elsewhere.

* `namesWithin`: the full names that a text is short for within some scopes.
* `AddsExternal`: one more type, of which nothing but its full name is known.
* `Resolves`: the three things that a text may come to, and when it comes to which.
* `Interned.addsExternal`: a new name adds one type and leaves all that was there alone.
* `Interned.resolves`: what a text is resolved to where external types are those without a declaration.
-/

namespace Companion

namespace Compilation

variable {c : Compilation} {id : TypeId} {scopes : List NamespaceId} {text : String}

/-! ### What a text may come to -/

/-- The full names that a text is short for within some scopes: in each of them in turn, and then as it
is written. -/
def namesWithin (c : Compilation) (scopes : List NamespaceId) (text : String) : List String :=
  scopes.map (fun scope => c.pathOf scope ++ "." ++ text) ++ [text]

/-- No type has one of these full names. -/
def Lacks (c : Compilation) (names : List String) : Prop :=
  ∀ name ∈ names, ∀ id ∈ c.typeIds, c.fullName id ≠ name

/-- There is a declaration of the type, and the type has this simple name. -/
def DeclaredAs (c : Compilation) (name : String) (id : TypeId) : Prop :=
  c.declarationsOf id ≠ [] ∧ c.isNamed name id = true

/-- One more type, which is external and has the text for its full name.  All types, scopes and
declarations that were there are kept, at their places and under their full names. -/
structure AddsExternal (c : Compilation) (text : String) (result : Compilation × TypeId) : Prop where
  types : ∃ name scope,
    result.1.types = c.types ++ [⟨text, { name, scope, isExternal := true }⟩]
  id : result.2 = ⟨c.types.length⟩
  fullName : result.1.fullName result.2 = text
  fullNames : ∀ other ∈ c.typeIds, result.1.fullName other = c.fullName other
  scopes : c.KeepsScopes result.1
  declarations : result.1.declarations = c.declarations

/-- What a text comes to within some scopes. -/
inductive Resolves (c : Compilation) (scopes : List NamespaceId) (text : String) :
    Compilation × TypeId → Prop
  /-- The type with the first of the full names that a type has. -/
  | byFullName {front back : List String} {name : String} {base : TypeId}
      (split : c.namesWithin scopes text = front ++ name :: back) (before : c.Lacks front)
      (named : ∀ id, id ∈ c.typeIds ∧ c.fullName id = name ↔ id = base) :
      Resolves c scopes text (c, base)
  /-- If no type has one of them, the first declared type with that simple name. -/
  | bySimpleName {base : TypeId} (absent : c.Lacks (c.namesWithin scopes text))
      (first : c.IsFirst (c.DeclaredAs text) base) :
      Resolves c scopes text (c, base)
  /-- If there is no such type either, a new one. -/
  | asExternal {result : Compilation × TypeId} (absent : c.Lacks (c.namesWithin scopes text))
      (undeclared : ∀ id ∈ c.typeIds, ¬ c.DeclaredAs text id) (adds : c.AddsExternal text result) :
      Resolves c scopes text result

/-! ### Full names -/

/-- The candidates for the base of a type are the names that the text is short for in the scopes
around the type. -/
theorem candidateNames_eq_namesWithin (h : c.ParentsFirst) {symbol : TypeSymbol}
    (hs : c.type? id = some symbol) (known : c.KnowsScope symbol.scope)
    (around : c.Surround symbol.scope scopes) :
    c.candidateNames id text = c.namesWithin scopes text := by
  rw [(surround_iff h known).mp around, candidateNames, namesWithin, hs, Option.bind_some,
    List.map_map]
  rfl

theorem Interned.lookup?_eq_none_iff (h : c.Interned) {name : String} :
    c.lookup? name = none ↔ ∀ id ∈ c.typeIds, c.fullName id ≠ name := by
  rw [Option.eq_none_iff_forall_ne_some]
  simp only [ne_eq, h.lookup?_eq_some_iff, not_and]

theorem Interned.findSome?_lookup?_eq_none_iff (h : c.Interned) {names : List String} :
    names.findSome? c.lookup? = none ↔ c.Lacks names := by
  simp only [List.findSome?_eq_none_iff, h.lookup?_eq_none_iff, Lacks]

/-- A full name is that of one type only. -/
theorem Interned.named_iff (h : c.Interned) {name : String} {base : TypeId}
    (hl : c.lookup? name = some base) (id : TypeId) :
    id ∈ c.typeIds ∧ c.fullName id = name ↔ id = base := by
  rw [← h.lookup?_eq_some_iff, hl, Option.some.injEq, eq_comm]

/-! ### Simple names -/

/-- The external types are those without a declaration. -/
def TellsExternals (c : Compilation) : Prop :=
  ∀ id symbol, c.type? id = some symbol → (symbol.isExternal = true ↔ c.declarationsOf id = [])

theorem any_not_external_iff (htells : c.TellsExternals) (hid : id ∈ c.typeIds) :
    (c.type? id).any (fun symbol => !symbol.isExternal && symbol.name = text) = true ↔
      c.DeclaredAs text id := by
  obtain ⟨symbol, hs⟩ := exists_type?_of_mem hid
  rw [DeclaredAs, isNamed, hs, Option.any_some, Option.any_some, Bool.and_eq_true,
    Bool.not_eq_true', ← Bool.not_eq_true, htells id symbol hs]

theorem declaredNamed?_eq_some_iff (htells : c.TellsExternals) :
    c.declaredNamed? text = some id ↔ c.IsFirst (c.DeclaredAs text) id := by
  rw [declaredNamed?_eq_find?, find?_typeIds_eq_some_iff]
  exact isFirst_congr fun other hmem => any_not_external_iff htells hmem

theorem declaredNamed?_eq_none_iff (htells : c.TellsExternals) :
    c.declaredNamed? text = none ↔ ∀ id ∈ c.typeIds, ¬ c.DeclaredAs text id := by
  rw [declaredNamed?_eq_find?, List.find?_eq_none]
  exact forall₂_congr fun other hmem => not_congr (any_not_external_iff htells hmem)

/-! ### Types from elsewhere -/

/-- A new name adds one type and leaves all that was there alone. -/
theorem Interned.addsExternal (h : c.Interned) (plain : text.toList.head? ≠ some '.')
    (hnew : c.lookup? text = none) : c.AddsExternal text (c.internExternal text) := by
  have hspec := internExternal_spec h text
  have hcases := internExternal_cases h text
  rw [externalName_eq_self plain] at hspec hcases
  rcases hcases with ⟨id, hl, -⟩ | ⟨-, hadded, hid⟩
  · rw [hnew] at hl
    exact absurd hl (by simp)
  · refine ⟨hadded, hid, hspec.fullName, ?_, hspec.extends_.scopes,
      declarations_internExternal c text⟩
    intro other hmem
    exact hspec.extends_.fullName_eq h hmem

/-! ### All three -/

/-- Where external types are those without a declaration, a text comes to the type that it stands for
in the scopes around. -/
theorem Interned.resolves (h : c.Interned) (htells : c.TellsExternals) {symbol : TypeSymbol}
    (hs : c.type? id = some symbol) (around : c.Surround symbol.scope scopes)
    (plain : text.toList.head? ≠ some '.') : c.Resolves scopes text (c.resolveBase id text) := by
  have hknown := h.knowsScope_of_type? hs
  rw [resolveBase, candidateNames_eq_namesWithin h.parentsFirst hs hknown around]
  cases hl : (c.namesWithin scopes text).findSome? c.lookup? with
  | some base =>
    obtain ⟨front, name, back, hsplit, hname, hfront⟩ := List.findSome?_eq_some_iff.mp hl
    rw [← List.findSome?_eq_none_iff, h.findSome?_lookup?_eq_none_iff] at hfront
    exact .byFullName hsplit hfront (h.named_iff hname)
  | none =>
    have habsent := h.findSome?_lookup?_eq_none_iff.mp hl
    cases hd : c.declaredNamed? text with
    | some base => exact .bySimpleName habsent ((declaredNamed?_eq_some_iff htells).mp hd)
    | none =>
      have hnew : c.lookup? text = none :=
        h.lookup?_eq_none_iff.mpr (habsent text (List.mem_append_right _ List.mem_cons_self))
      exact .asExternal habsent ((declaredNamed?_eq_none_iff htells).mp hd)
        (h.addsExternal plain hnew)

end Compilation

end Companion
