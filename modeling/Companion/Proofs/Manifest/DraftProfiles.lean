import Companion.Proofs.Manifest.NestedScopes
import Companion.Proofs.Model.Profiles

/-!
# Drafts told by their types and declarations

A class with one part is made by that part, and a base that has no namesake in any namespace is looked
up in the global one alone.  So the types and declarations of a draft can be told part by part, and its
links base by base.

* `Profiled.joinPart`, `Draft.addPart_new`, `Draft.advance_new`: what a part of a new class adds.
* `OnlyGlobal`: no full name has the given name behind a dot.
* `linkBase_global`, `linkBase_external`: the base is the type of that name, or a new external one.
* `Profiled.foldl_linkBase`: the classes behind some others get the same base one after the other.
-/

namespace Companion

namespace Compilation

variable {c : Compilation} {types front back : List TypeProfile}
  {declarations : List ClassDeclaration} {scope : Option NamespaceId} {path name : String}
  {id base : TypeId}

/-! ### New classes -/

/-- A part of a new class adds the class, with what the part says of it, and a declaration. -/
theorem Profiled.joinPart (h : c.Profiled types declarations) (hs : c.HasScope scope path)
    {part : ClassPart}
    (fresh : ∀ p ∈ types, p.fullName ≠ TypeProfile.fullName ⟨path, { name := part.name, scope := none }⟩) :
    (c.joinPart scope part).Profiled
        (types ++ [⟨path, { name := part.name, scope := none, isAbstract := part.isAbstract }⟩])
        (declarations ++ [⟨⟨types.length⟩, part.isPartial⟩]) ∧
      (c.internType scope part.name).2 = ⟨types.length⟩ := by
  obtain ⟨hmade, hid⟩ := h.internType hs fresh
  have hmerged := hmade.updateType (keepsPlace_isAbstract part.isAbstract) ⟨types.length⟩
  rw [modify_append] at hmerged
  have hdeclared :=
    hmerged.declare (show (⟨types.length⟩ : TypeId).index < (types ++ [_]).length by simp) part.isPartial
  rw [modify_append, ← hid] at hdeclared
  exact ⟨hid ▸ hdeclared, hid⟩

/-! ### Bases -/

/-- No full name has the given name behind a dot. -/
def OnlyGlobal (c : Compilation) (name : String) : Prop :=
  ∀ path, c.lookup? (path ++ "." ++ name) = none

/-- What no scope has is looked up in the global namespace alone. -/
theorem OnlyGlobal.findSome?_candidateNames (h : c.OnlyGlobal name) (id : TypeId) :
    (c.candidateNames id name).findSome? c.lookup? = c.lookup? name := by
  have hinner : ∀ candidates : List String, (∀ x ∈ candidates, ∃ path, x = path ++ "." ++ name) →
      candidates.findSome? c.lookup? = none := by
    intro candidates hdotted
    rw [List.findSome?_eq_none_iff]
    intro candidate hcandidate
    obtain ⟨path, rfl⟩ := hdotted candidate hcandidate
    exact h path
  rw [candidateNames, List.findSome?_append, hinner, Option.none_or, List.findSome?_singleton]
  intro candidate hcandidate
  obtain ⟨scope, -, rfl⟩ := List.mem_map.mp hcandidate
  exact ⟨_, rfl⟩

theorem linkBase_global (h : c.OnlyGlobal name) (hbase : c.lookup? name = some base) (id : TypeId) :
    c.linkBase id name = c.setBase id (some base) := by
  rw [linkBase, resolveBase, h.findSome?_candidateNames, hbase]

theorem linkBase_external (h : c.OnlyGlobal name) (hnew : c.lookup? name = none)
    (undeclared : c.declaredNamed? name = none) (id : TypeId) :
    c.linkBase id name = (c.internExternal name).1.setBase id (some (c.internExternal name).2) := by
  rw [linkBase, resolveBase, h.findSome?_candidateNames, hnew]
  dsimp only
  rw [undeclared]

theorem lookup?_setBase (c : Compilation) (id : TypeId) (base : Option TypeId) (name : String) :
    (c.setBase id base).lookup? name = c.lookup? name := by
  have hplaces : (c.setBase id base).places = c.places :=
    places_updateType c id _ (fun _ => rfl) fun _ => rfl
  rw [lookup?_eq, lookup?_eq, hplaces]

theorem OnlyGlobal.setBase (h : c.OnlyGlobal name) (id : TypeId) (base : Option TypeId) :
    (c.setBase id base).OnlyGlobal name :=
  fun path => (c.lookup?_setBase id base _).trans (h path)

/-! ### The same in a compilation that lists tell -/

namespace Profiled

variable (h : c.Profiled types declarations)
include h

/-- A name is looked up in the global namespace alone if the types that have it lie there. -/
theorem onlyGlobal (dotless : ∀ p ∈ types, '.' ∉ p.symbol.name.toList) (hdot : '.' ∉ name.toList)
    (hglobal : ∀ p ∈ types, p.symbol.name = name → p.path = "") : c.OnlyGlobal name := by
  intro path
  refine h.lookup?_eq_none fun p hp hsame => ?_
  by_cases hpath : p.path = ""
  · have hname : p.symbol.name = path ++ "." ++ name := by
      rwa [TypeProfile.fullName, if_pos (String.isEmpty_iff.mpr hpath)] at hsame
    exact dotless p hp (hname ▸ Text.Dotted.mem_append_dot path name)
  · rw [TypeProfile.fullName, if_neg (mt String.isEmpty_iff.mp hpath)] at hsame
    exact hpath (hglobal p hp (Text.Dotted.append_dot_inj (dotless p hp) hdot hsame).2)

theorem declaredNamed?_eq_none (fresh : ∀ p ∈ types, p.symbol.name ≠ name) :
    c.declaredNamed? name = none := by
  rw [declaredNamed?, Option.map_eq_none_iff, List.findIdx?_eq_none_iff]
  intro t ht
  have hp : c.profileOf t.symbol ∈ types := h.types_eq ▸ List.mem_map_of_mem ht
  have hname : t.symbol.name ≠ name := fresh _ hp
  simp [hname]

/-- A type in the middle gets a base. -/
theorem setBase {profile : TypeProfile} {front back : List TypeProfile}
    (htypes : types = front ++ profile :: back) (base : Option TypeId) :
    (c.setBase ⟨front.length⟩ base).Profiled
      (front ++ profile.changed (fun symbol => { symbol with base }) :: back) declarations := by
  have hset := h.updateType (keepsPlace_base base) ⟨front.length⟩
  rw [htypes, modify_append] at hset
  exact hset

end Profiled

/-- The classes behind some others get the same global base, one after the other. -/
theorem Profiled.foldl_linkBase {rest : List TypeProfile}
    (h : c.Profiled (front ++ rest ++ back) declarations) (honly : c.OnlyGlobal name)
    (hbase : c.lookup? name = some base) :
    ((List.range' front.length rest.length).foldl (fun c i => c.linkBase ⟨i⟩ name) c).Profiled
      (front ++ rest.map (·.changed fun symbol => { symbol with base := some base }) ++ back)
      declarations := by
  induction rest generalizing c front with
  | nil => exact h
  | cons profile rest ih =>
    have hset := h.setBase (show front ++ profile :: rest ++ back = front ++ profile :: (rest ++ back)
      by simp) (some base)
    have hstep : (c.setBase ⟨front.length⟩ (some base)).Profiled
        (front ++ [profile.changed fun symbol => { symbol with base := some base }] ++ rest ++ back)
        declarations := by
      simpa using hset
    have hrest := ih hstep (honly.setBase _ _) ((lookup?_setBase _ _ _ _).trans hbase)
    rw [List.length_cons, List.range'_succ, List.foldl_cons, linkBase_global honly hbase]
    simpa using hrest

end Compilation

namespace Draft

open Compilation

variable {draft : Draft} {types : List TypeProfile} {declarations : List ClassDeclaration}
  {scope : Option NamespaceId} {path base : String}

/-- A part of a new class that gives a base and no level is taken in as it is. -/
theorem addPart_new (h : draft.compilation.Profiled types declarations)
    (hs : draft.compilation.HasScope scope path) {part : ClassPart}
    (fresh : ∀ p ∈ types, p.fullName ≠ TypeProfile.fullName ⟨path, { name := part.name, scope := none }⟩)
    (hnoted : ∀ noted ∈ draft.bases, noted.1.index < types.length)
    (hbase : part.base = some base) (hlevel : part.accessibility = none) :
    draft.addPart scope part =
      .ok { draft with
        compilation := draft.compilation.joinPart scope part
        bases := draft.bases ++ [(⟨types.length⟩, base)] } := by
  have hlookup : draft.bases.lookup ⟨types.length⟩ = none := by
    rw [List.lookup_eq_none_iff]
    intro noted hmem
    have hne : (⟨types.length⟩ : TypeId) ≠ noted.1 := by
      intro hsame
      have hlt := hnoted noted hmem
      rw [← hsame] at hlt
      exact absurd hlt (Nat.lt_irrefl _)
    simpa using hne
  have hnote : ∀ conflict, note draft.bases ⟨types.length⟩ conflict (some base) =
      .ok (draft.bases ++ [(⟨types.length⟩, base)]) := by
    intro conflict
    rw [note, hlookup]
  rw [addPart_eq draft scope part (h.joinPart hs fresh).2 rfl, hbase, hlevel, hnote]
  rfl

/-- So is the element of a new class without content, in a namespace or in the outermost element. -/
theorem advance_new {tag : Markup.Tag} {part : ClassPart} {parent : OpenElement}
    {outer : List OpenElement} (h : draft.compilation.Profiled types declarations)
    (hs : draft.compilation.HasScope (innermostScope? draft.opened) path)
    (hopened : draft.opened = parent :: outer) (hparent : parent ≠ .classPart)
    (htag : tag.name = "class") (hpart : ClassPart.ofTag tag = .ok part)
    (fresh : ∀ p ∈ types, p.fullName ≠ TypeProfile.fullName ⟨path, { name := part.name, scope := none }⟩)
    (hnoted : ∀ noted ∈ draft.bases, noted.1.index < types.length)
    (hbase : part.base = some base) (hlevel : part.accessibility = none) :
    draft.advance (.emptyTag tag) =
      .ok { draft with
        compilation := draft.compilation.joinPart (innermostScope? draft.opened) part
        bases := draft.bases ++ [(⟨types.length⟩, base)] } := by
  have hscope : tag.name ≠ Element.namespaceScope.tagName := by
    rw [htag]
    decide
  have hclass : tag.name = Element.classPart.tagName := htag
  rw [advance, beginElement, hopened]
  dsimp only
  rw [if_neg hparent, if_neg hscope, if_pos hclass, beginPart, hpart]
  show Except.map _ (Except.map (·, OpenElement.classPart) (draft.addPart _ part)) = _
  rw [addPart_new h hs fresh hnoted hbase hlevel, hopened]
  rfl

end Draft

end Companion
