import Companion.Proofs.Model.Scopes
import Mathlib.Data.List.Nodup

/-!
# Full names and the names of registration

A type is registered under the full name that it has when it is made.  Where scopes lie under
earlier scopes this stays its full name.

* `places`: where the types stand, in order.
* `Interned`: every type is registered under its full name, and no two under the same one.
* `Extends`: all scopes and types are kept, and further ones may stand behind them.
* `lookup?_eq_some_iff`: looking up a name finds the type that has it.
* `internType_spec`, `internExternal_spec`: what interning a type comes to.
-/

namespace Companion

/-- Where a type stands. -/
structure Place where
  registeredName : String
  scope : Option NamespaceId
  name : String

namespace Compilation

/-- Where the types stand, in order. -/
def places (c : Compilation) : List Place :=
  c.types.map fun t => ⟨t.registeredName, t.symbol.scope, t.symbol.name⟩

/-- Every type is registered under its full name, and no two under the same one. -/
structure Interned (c : Compilation) : Prop where
  parentsFirst : c.ParentsFirst
  knowsScope : ∀ p ∈ c.places, c.KnowsScope p.scope
  registered : ∀ p ∈ c.places, p.registeredName = c.qualify p.scope p.name
  distinct : (c.places.map (·.registeredName)).Nodup

/-- All scopes and types are kept, and further ones may stand behind them. -/
structure Extends (c c' : Compilation) : Prop where
  scopes : c.KeepsScopes c'
  places : c.places <+: c'.places

variable {c c' c'' : Compilation} {id : TypeId} {scope : Option NamespaceId}

theorem Extends.refl (c : Compilation) : c.Extends c :=
  ⟨KeepsScopes.refl c, List.prefix_refl _⟩

theorem Extends.trans (h : c.Extends c') (h' : c'.Extends c'') : c.Extends c'' :=
  ⟨h.scopes.trans h'.scopes, List.IsPrefix.trans h.places h'.places⟩

/-! ### Reading from the places -/

theorem length_places (c : Compilation) : c.places.length = c.types.length := by
  rw [places, List.length_map]

theorem mem_typeIds_iff : id ∈ c.typeIds ↔ ∃ p, c.places[id.index]? = some p := by
  rw [mem_typeIds, ← length_places]
  constructor
  · intro h
    exact ⟨c.places[id.index], List.getElem?_eq_getElem h⟩
  · intro hall
    obtain ⟨p, hp⟩ := hall
    exact (List.getElem?_eq_some_iff.mp hp).1

theorem lookup?_eq (c : Compilation) (name : String) :
    c.lookup? name = (c.places.findIdx? (·.registeredName = name)).map TypeId.mk := by
  rw [lookup?, places, List.findIdx?_map]
  rfl

theorem fullName_eq {p : Place} (hp : c.places[id.index]? = some p) :
    c.fullName id = c.qualify p.scope p.name := by
  rw [places, List.getElem?_map, Option.map_eq_some_iff] at hp
  obtain ⟨t, ht, rfl⟩ := hp
  rw [fullName, type?, ht]
  rfl

theorem Interned.fullName_eq (h : c.Interned) {p : Place} (hp : c.places[id.index]? = some p) :
    c.fullName id = p.registeredName := by
  rw [Compilation.fullName_eq hp, h.registered p (List.mem_of_getElem? hp)]

/-- Looking up a name finds the type that has it. -/
theorem Interned.lookup?_eq_some_iff (h : c.Interned) {name : String} :
    c.lookup? name = some id ↔ id ∈ c.typeIds ∧ c.fullName id = name := by
  rw [lookup?_eq, Option.map_eq_some_iff, mem_typeIds_iff]
  constructor
  · intro hall
    obtain ⟨i, hi, rfl⟩ := hall
    obtain ⟨hlt, hname, -⟩ := List.findIdx?_eq_some_iff_getElem.mp hi
    have hp : c.places[(⟨i⟩ : TypeId).index]? = some c.places[i] := List.getElem?_eq_getElem hlt
    refine ⟨⟨_, hp⟩, ?_⟩
    rw [h.fullName_eq hp]
    simpa using hname
  · intro hall
    obtain ⟨⟨p, hp⟩, rfl⟩ := hall
    obtain ⟨hlt, hget⟩ := List.getElem?_eq_some_iff.mp hp
    rw [h.fullName_eq hp]
    have hfound : (c.places.findIdx? (·.registeredName = p.registeredName)).isSome = true := by
      rw [List.findIdx?_isSome, List.any_eq_true]
      exact ⟨p, List.mem_of_getElem? hp, by simp⟩
    obtain ⟨j, hj⟩ := Option.isSome_iff_exists.mp hfound
    refine ⟨j, hj, ?_⟩
    -- The first type of that name is the only one.
    obtain ⟨hjlt, hname, -⟩ := List.findIdx?_eq_some_iff_getElem.mp hj
    have hsame : (c.places.map (·.registeredName))[j]? =
        (c.places.map (·.registeredName))[id.index]? := by
      rw [List.getElem?_map, List.getElem?_map, hp, List.getElem?_eq_getElem hjlt]
      simpa using hname
    have hji : j = id.index :=
      (List.getElem?_inj (by simpa using hjlt) h.distinct).mp hsame
    rw [hji]

theorem Interned.lookup?_fullName (h : c.Interned) (known : id ∈ c.typeIds) :
    c.lookup? (c.fullName id) = some id :=
  h.lookup?_eq_some_iff.mpr ⟨known, rfl⟩

theorem Interned.fullName_inj (h : c.Interned) {a b : TypeId} (ha : a ∈ c.typeIds)
    (hb : b ∈ c.typeIds) (hab : c.fullName a = c.fullName b) : a = b := by
  have hfound := h.lookup?_fullName ha
  rw [hab, h.lookup?_fullName hb] at hfound
  exact (Option.some.inj hfound).symm

/-! ### Extensions -/

theorem Extends.mem_typeIds (hx : c.Extends c') (known : id ∈ c.typeIds) : id ∈ c'.typeIds := by
  obtain ⟨p, hp⟩ := mem_typeIds_iff.mp known
  obtain ⟨more, hmore⟩ := hx.places
  refine mem_typeIds_iff.mpr ⟨p, ?_⟩
  rw [← hmore, List.getElem?_append_left (List.getElem?_eq_some_iff.mp hp).1, hp]

/-- An extension does not rename the types that were there. -/
theorem Extends.fullName_eq (hx : c.Extends c') (h : c.Interned) (known : id ∈ c.typeIds) :
    c'.fullName id = c.fullName id := by
  obtain ⟨p, hp⟩ := mem_typeIds_iff.mp known
  obtain ⟨more, hmore⟩ := hx.places
  have hp' : c'.places[id.index]? = some p := by
    rw [← hmore, List.getElem?_append_left (List.getElem?_eq_some_iff.mp hp).1, hp]
  rw [Compilation.fullName_eq hp, Compilation.fullName_eq hp']
  exact qualify_of_keepsScopes h.parentsFirst hx.scopes
    (h.knowsScope p (List.mem_of_getElem? hp)) p.name

/-- Where no type is added everything stays interned. -/
theorem Interned.of_places_eq (h : c.Interned) (hk : c.KeepsScopes c') (hf : c'.ParentsFirst)
    (hp : c'.places = c.places) : c'.Interned := by
  refine ⟨hf, ?_, ?_, hp ▸ h.distinct⟩
  · intro p hmem
    exact (h.knowsScope p (hp ▸ hmem)).keep hk
  · intro p hmem
    rw [hp] at hmem
    rw [h.registered p hmem, qualify_of_keepsScopes h.parentsFirst hk (h.knowsScope p hmem)]

/-! ### The operations -/

theorem interned_empty : ({} : Compilation).Interned := by
  refine ⟨?_, by simp [places], by simp [places], by simp [places]⟩
  intro id symbol parent hs
  simp [namespace?] at hs

theorem places_updateType (c : Compilation) (id : TypeId) (change : TypeSymbol → TypeSymbol)
    (hs : ∀ symbol, (change symbol).scope = symbol.scope)
    (hn : ∀ symbol, (change symbol).name = symbol.name) :
    (c.updateType id change).places = c.places := by
  refine List.ext_getElem (by simp [places]) ?_
  intro i hi hi'
  simp only [places, updateType, List.getElem_map, List.getElem_modify]
  split
  · simp only [hs, hn]
  · rfl

theorem places_of_types_eq (h : c'.types = c.types) : c'.places = c.places := by
  rw [places, places, h]

/-- A change that keeps scopes, places and the order of scopes is an extension. -/
theorem Interned.extends_of_places_eq (h : c.Interned) (hk : c.KeepsScopes c')
    (hf : c'.ParentsFirst) (hp : c'.places = c.places) : c'.Interned ∧ c.Extends c' :=
  ⟨h.of_places_eq hk hf hp, hk, hp ▸ List.prefix_refl _⟩

/-- Editing a type in place keeps full names, unless its scope or name is touched. -/
theorem Interned.updateType (h : c.Interned) (id : TypeId) (change : TypeSymbol → TypeSymbol)
    (hs : ∀ symbol, (change symbol).scope = symbol.scope)
    (hn : ∀ symbol, (change symbol).name = symbol.name) :
    (c.updateType id change).Interned ∧ c.Extends (c.updateType id change) :=
  h.extends_of_places_eq (KeepsScopes.refl c) h.parentsFirst (places_updateType c id change hs hn)

theorem Interned.declare (h : c.Interned) (id : TypeId) (isPartial : Bool) :
    (c.declare id isPartial).1.Interned ∧ c.Extends (c.declare id isPartial).1 := by
  unfold Compilation.declare
  cases c.type? id with
  | none => exact ⟨h, Extends.refl c⟩
  | some symbol =>
    refine h.extends_of_places_eq (KeepsScopes.refl c) h.parentsFirst ?_
    exact places_updateType c id (fun symbol => { symbol with isExternal := false })
      (fun _ => rfl) (fun _ => rfl)

theorem Interned.internScope (h : c.Interned) (known : c.KnowsScope scope) (name : String) :
    (c.internScope scope name).1.Interned ∧ c.Extends (c.internScope scope name).1 := by
  have hspec := internScope_spec h.parentsFirst known name
  exact h.extends_of_places_eq hspec.keepsScopes hspec.parentsFirst
    (places_of_types_eq (types_internScope c scope name))

/-- What interning a type under a full name comes to. -/
structure TypeInterned (c : Compilation) (name : String) (result : Compilation × TypeId) :
    Prop where
  interned : result.1.Interned
  extends_ : c.Extends result.1
  known : result.2 ∈ result.1.typeIds
  fullName : result.1.fullName result.2 = name

theorem internType_spec (h : c.Interned) (known : c.KnowsScope scope) (name : String) :
    TypeInterned c (c.qualify scope name) (c.internType scope name) := by
  unfold internType
  cases hf : c.lookup? (c.qualify scope name) with
  | some id =>
    obtain ⟨hid, hname⟩ := h.lookup?_eq_some_iff.mp hf
    exact ⟨h, Extends.refl c, hid, hname⟩
  | none =>
    dsimp only
    generalize hc : ({ c with types := c.types ++ [⟨c.qualify scope name, { name, scope }⟩] } :
      Compilation) = c'
    have hk : c.KeepsScopes c' := KeepsScopes.of_eq (by rw [← hc])
    have hplaces : c'.places = c.places ++ [⟨c.qualify scope name, scope, name⟩] := by
      rw [← hc, places, List.map_append]
      rfl
    have hfresh : ∀ p ∈ c.places, p.registeredName ≠ c.qualify scope name := by
      intro p hp hname
      rw [lookup?_eq, Option.map_eq_none_iff, List.findIdx?_eq_none_iff] at hf
      simpa [hname] using hf p hp
    have hinterned : c'.Interned := by
      refine ⟨by rw [← hc]; exact h.parentsFirst, ?_, ?_, ?_⟩
      · intro p hp
        rw [hplaces, List.mem_append, List.mem_singleton] at hp
        rcases hp with hp | rfl
        · exact (h.knowsScope p hp).keep hk
        · exact known.keep hk
      · intro p hp
        rw [hplaces, List.mem_append, List.mem_singleton] at hp
        rcases hp with hp | rfl
        · rw [h.registered p hp, qualify_of_keepsScopes h.parentsFirst hk (h.knowsScope p hp)]
        · rw [qualify_of_keepsScopes h.parentsFirst hk known]
      · rw [hplaces, List.map_append, List.map_singleton, ← List.concat_eq_append,
          List.nodup_concat]
        refine ⟨?_, h.distinct⟩
        rw [List.mem_map]
        intro hall
        obtain ⟨p, hp, hname⟩ := hall
        exact hfresh p hp hname
    have hnew : c'.places[c.types.length]? = some ⟨c.qualify scope name, scope, name⟩ := by
      rw [hplaces, ← length_places, List.getElem?_concat_length]
    refine ⟨hinterned, ⟨hk, hplaces ▸ List.prefix_append _ _⟩, mem_typeIds_iff.mpr ⟨_, hnew⟩, ?_⟩
    exact hinterned.fullName_eq hnew

/-! ### External types -/

/-- The full name of a type that is referred to by a qualified name.  It is that name, except that
nothing is left of a dot in front of a name without further dots. -/
def externalName (qualifiedName : String) : String :=
  match Text.Dotted.splitLast? qualifiedName with
  | none => qualifiedName
  | some (path, name) => if path.isEmpty then name else path ++ "." ++ name

/-- A name that no dot stands in front of is the full name as it is. -/
theorem externalName_eq_self {text : String} (plain : text.toList.head? ≠ some '.') :
    externalName text = text := by
  unfold externalName
  cases hs : Text.Dotted.splitLast? text with
  | none => rfl
  | some parts =>
    have htext := Text.Dotted.append_of_splitLast? hs
    have hpath : parts.1.isEmpty = false := by
      rw [← Bool.not_eq_true, String.isEmpty_iff]
      intro hempty
      rw [htext, hempty, String.empty_append, String.toList_append] at plain
      exact plain rfl
    dsimp only
    rw [hpath, if_neg Bool.false_ne_true, htext]

/-- The path of the scope of a dotted name that lies in no other scope is that name. -/
theorem qualify_internScope_none (h : c.Interned) (path name : String) :
    (c.internScope none path).1.qualify (some (c.internScope none path).2) name =
      if path.isEmpty then name else path ++ "." ++ name := by
  have hspec := internScope_spec h.parentsFirst (knowsScope_none c) path
  have hpath : (c.internScope none path).1.pathOf? (some (c.internScope none path).2) = path := by
    rw [pathOf?_eq_joined]
    change Text.Dotted.joined ((c.internScope none path).1.segmentsOf _) = path
    rw [hspec.segments]
    exact Text.Dotted.joined_segments path
  rw [qualify, hpath]

theorem internQualifier_spec (h : c.Interned) (qualifiedName : String) :
    (c.internQualifier qualifiedName).1.Interned ∧
      c.Extends (c.internQualifier qualifiedName).1 ∧
        (c.internQualifier qualifiedName).1.KnowsScope (c.internQualifier qualifiedName).2.1 ∧
          (c.internQualifier qualifiedName).1.qualify (c.internQualifier qualifiedName).2.1
            (c.internQualifier qualifiedName).2.2 = externalName qualifiedName := by
  unfold internQualifier externalName
  cases Text.Dotted.splitLast? qualifiedName with
  | none => exact ⟨h, Extends.refl c, knowsScope_none c, rfl⟩
  | some parts =>
    obtain ⟨hinterned, hextends⟩ := h.internScope (knowsScope_none c) parts.1
    have hspec := internScope_spec h.parentsFirst (knowsScope_none c) parts.1
    exact ⟨hinterned, hextends, hspec.knowsScope, qualify_internScope_none h parts.1 parts.2⟩

theorem internExternal_spec (h : c.Interned) (qualifiedName : String) :
    TypeInterned c (externalName qualifiedName) (c.internExternal qualifiedName) := by
  obtain ⟨hinterned, hextends, hknows, hname⟩ := internQualifier_spec h qualifiedName
  have htype := internType_spec hinterned hknows (c.internQualifier qualifiedName).2.2
  rw [hname] at htype
  -- The new type is marked in place, which touches no name.
  obtain ⟨hmarked, hkept⟩ := htype.interned.updateType ⟨c.types.length⟩
    (fun symbol => { symbol with isExternal := true }) (fun _ => rfl) (fun _ => rfl)
  refine ⟨hmarked, (hextends.trans htype.extends_).trans hkept, hkept.mem_typeIds htype.known, ?_⟩
  exact (hkept.fullName_eq htype.interned htype.known).trans htype.fullName

end Compilation

end Companion
