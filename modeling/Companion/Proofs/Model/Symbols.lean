import Companion.Proofs.Model.FullNames
import Mathlib.Data.List.Find

/-!
# Symbols of interned types

* `declaredNamed?_eq_find?`: simple names are looked up from the first type on.
* `type?_internType`: interning a type makes a plain symbol, or leaves all as they are.
* `type?_internExternal`: a reference to a type that is there leaves its symbol alone.
* `internExternal_cases`: a reference finds the type of its full name, or adds it.
* `eq_of_new_internExternal`: the symbol of a new one is plain and marked external.
-/

namespace Companion

namespace Compilation

variable {c : Compilation} {id other : TypeId}

theorem type?_of_types_eq {c' : Compilation} (h : c'.types = c.types) (other : TypeId) :
    c'.type? other = c.type? other := by
  rw [type?, type?, h]

theorem exists_type?_of_mem (hid : id ∈ c.typeIds) : ∃ symbol, c.type? id = some symbol := by
  rw [mem_typeIds, ← isSome_type?] at hid
  exact Option.isSome_iff_exists.mp hid

theorem mem_typeIds_of_type? {symbol : TypeSymbol} (hs : c.type? id = some symbol) :
    id ∈ c.typeIds := by
  rw [mem_typeIds, ← isSome_type?, hs, Option.isSome_some]

theorem Interned.knowsScope_of_type? (h : c.Interned) {symbol : TypeSymbol}
    (hs : c.type? id = some symbol) : c.KnowsScope symbol.scope := by
  rw [type?, Option.map_eq_some_iff] at hs
  obtain ⟨t, ht, rfl⟩ := hs
  have hp : ⟨t.registeredName, t.symbol.scope, t.symbol.name⟩ ∈ c.places :=
    List.mem_map.mpr ⟨t, List.mem_of_getElem? ht, rfl⟩
  exact h.knowsScope _ hp

theorem Extends.exists_type? {c' : Compilation} (hx : c.Extends c') {symbol : TypeSymbol}
    (hs : c.type? id = some symbol) :
    ∃ symbol', c'.type? id = some symbol' ∧ symbol'.scope = symbol.scope ∧
      symbol'.name = symbol.name := by
  rw [type?, Option.map_eq_some_iff] at hs
  obtain ⟨t, ht, rfl⟩ := hs
  obtain ⟨more, hmore⟩ := hx.places
  have hp : c.places[id.index]? = some ⟨t.registeredName, t.symbol.scope, t.symbol.name⟩ := by
    rw [Compilation.places, List.getElem?_map, ht, Option.map_some]
  have hp' : c'.places[id.index]? = some ⟨t.registeredName, t.symbol.scope, t.symbol.name⟩ := by
    rw [← hmore, List.getElem?_append_left (List.getElem?_eq_some_iff.mp hp).1, hp]
  rw [Compilation.places, List.getElem?_map, Option.map_eq_some_iff] at hp'
  obtain ⟨t', ht', hplace⟩ := hp'
  obtain ⟨-, hscope, hname⟩ := Place.mk.inj hplace
  exact ⟨t'.symbol, by rw [type?, ht', Option.map_some], hscope, hname⟩

/-! ### From the first type on -/

theorem findIdx?_eq_find?_range {α : Type} (p : α → Bool) (l : List α) :
    l.findIdx? p = (List.range l.length).find? fun i => l[i]?.any p := by
  induction l with
  | nil => rfl
  | cons a l ih =>
    rw [List.findIdx?_cons, List.length_cons, List.range_succ_eq_map, List.find?_cons]
    cases h : p a with
    | true => simp [h]
    | false =>
      rw [List.find?_map, ih]
      simp [h]

/-- A search through the types is a search through their positions. -/
theorem findIdx?_types_eq_find? (c : Compilation) (p : TypeSymbol → Bool) :
    (c.types.findIdx? fun t => p t.symbol).map TypeId.mk =
      c.typeIds.find? fun id => (c.type? id).any p := by
  rw [findIdx?_eq_find?_range, typeIds, List.find?_map]
  congr 2
  funext i
  simp [type?, Option.any_map]

theorem declaredNamed?_eq_find? (c : Compilation) (name : String) :
    c.declaredNamed? name = c.typeIds.find? fun id =>
      (c.type? id).any fun symbol => !symbol.isExternal && symbol.name = name :=
  c.findIdx?_types_eq_find? fun symbol => !symbol.isExternal && symbol.name = name

theorem Interned.map_fullName_typeIds (h : c.Interned) :
    c.typeIds.map c.fullName = c.places.map (·.registeredName) := by
  refine List.ext_getElem (by simp [typeIds, length_places]) ?_
  intro i hi hi'
  have hlt : i < c.places.length := by simpa using hi'
  have hp : c.places[(⟨i⟩ : TypeId).index]? = some c.places[i] := List.getElem?_eq_getElem hlt
  simp only [typeIds, List.map_map, List.getElem_map, List.getElem_range, Function.comp_apply]
  exact h.fullName_eq hp

/-- New types stand behind the old ones. -/
theorem Extends.typeIds_eq {c' : Compilation} (hx : c.Extends c') :
    ∃ more, c'.typeIds = c.typeIds ++ more ∧ ∀ id ∈ more, id ∈ c'.typeIds ∧ id ∉ c.typeIds := by
  have hle : c.types.length ≤ c'.types.length := by
    rw [← length_places, ← length_places]
    exact hx.places.length_le
  obtain ⟨n, hn⟩ := Nat.exists_eq_add_of_le hle
  refine ⟨(List.range n).map fun i => ⟨c.types.length + i⟩, ?_, ?_⟩
  · rw [typeIds, hn, List.range_add, List.map_append, List.map_map]
    rfl
  · intro id hid
    obtain ⟨i, hi, rfl⟩ := List.mem_map.mp hid
    rw [List.mem_range] at hi
    rw [Compilation.mem_typeIds, Compilation.mem_typeIds]
    dsimp only
    omega

/-! ### Interning a type -/

/-- A type is found under its full name, or it is made. -/
theorem internType_cases (c : Compilation) (scope : Option NamespaceId) (name : String) :
    (∃ id, c.lookup? (c.qualify scope name) = some id ∧ c.internType scope name = (c, id)) ∨
      c.lookup? (c.qualify scope name) = none ∧ c.internType scope name =
        ({ c with types := c.types ++ [⟨c.qualify scope name, { name, scope }⟩] },
          ⟨c.types.length⟩) := by
  unfold internType
  cases c.lookup? (c.qualify scope name) with
  | some id => exact Or.inl ⟨id, rfl, rfl⟩
  | none => exact Or.inr ⟨rfl, rfl⟩

theorem isSome_type?_of_lookup? {name : String} (h : c.lookup? name = some id) :
    (c.type? id).isSome = true := by
  rw [lookup?, Option.map_eq_some_iff] at h
  obtain ⟨i, hi, rfl⟩ := h
  rw [isSome_type?]
  exact (List.findIdx?_eq_some_iff_getElem.mp hi).1

/-- Only the type that is asked for may be new. -/
theorem type?_internType (c : Compilation) (scope : Option NamespaceId) (name : String)
    (other : TypeId) :
    (c.internType scope name).1.type? other =
      if (c.internType scope name).2 = other then some ((c.type? other).getD { name, scope })
      else c.type? other := by
  rcases internType_cases c scope name with ⟨id, hl, hi⟩ | ⟨hl, hi⟩
  · rw [hi]
    split
    · next he =>
      subst he
      obtain ⟨symbol, hs⟩ := Option.isSome_iff_exists.mp (isSome_type?_of_lookup? hl)
      rw [hs, Option.getD_some]
    · rfl
  · rw [hi]
    split
    · next he =>
      subst he
      simp [type?]
    · next he =>
      have hne : other.index ≠ c.types.length := by
        intro heq
        exact he (by rw [← heq])
      rcases Nat.lt_or_gt_of_ne hne with hlt | hgt
      · simp [type?, List.getElem?_append_left hlt]
      · have hold : c.types.length ≤ other.index := Nat.le_of_lt hgt
        have hnew : (c.types ++ [(⟨c.qualify scope name, { name, scope }⟩ : RegisteredType)]).length
            ≤ other.index := by
          rw [List.length_append, List.length_singleton]
          omega
        simp only [type?]
        rw [List.getElem?_eq_none hnew, List.getElem?_eq_none hold]

/-- Interning a type leaves the symbols of the types that were there alone. -/
theorem type?_internType_of_mem (scope : Option NamespaceId) (name : String)
    (hid : id ∈ c.typeIds) : (c.internType scope name).1.type? id = c.type? id := by
  obtain ⟨symbol, hs⟩ := exists_type?_of_mem hid
  rw [type?_internType, hs, Option.getD_some, ite_self]

theorem declarations_internType (c : Compilation) (scope : Option NamespaceId) (name : String) :
    (c.internType scope name).1.declarations = c.declarations := by
  rcases internType_cases c scope name with ⟨id, -, hi⟩ | ⟨-, hi⟩
  · rw [hi]
  · rw [hi]

/-! ### External types -/

theorem types_internQualifier (c : Compilation) (qualifiedName : String) :
    (c.internQualifier qualifiedName).1.types = c.types := by
  unfold internQualifier
  split
  · rfl
  · exact types_internScope _ _ _

theorem declarations_internQualifier (c : Compilation) (qualifiedName : String) :
    (c.internQualifier qualifiedName).1.declarations = c.declarations := by
  unfold internQualifier
  split
  · rfl
  · exact declarations_internScope _ _ _

theorem internExternal_eq (c : Compilation) (qualifiedName : String) :
    c.internExternal qualifiedName =
      let (withScope, scope, name) := c.internQualifier qualifiedName
      ((withScope.internType scope name).1.updateType ⟨c.types.length⟩
        fun symbol => { symbol with isExternal := true }, (withScope.internType scope name).2) := rfl

theorem declarations_internExternal (c : Compilation) (qualifiedName : String) :
    (c.internExternal qualifiedName).1.declarations = c.declarations := by
  rw [internExternal_eq]
  dsimp only
  rw [declarations_updateType, declarations_internType, declarations_internQualifier]

/-- A type behind all others is changed where it stands. -/
theorem types_updateType_last (c : Compilation) (types : List RegisteredType) (t : RegisteredType)
    (change : TypeSymbol → TypeSymbol) :
    (updateType { c with types := types ++ [t] } ⟨types.length⟩ change).types =
      types ++ [{ t with symbol := change t.symbol }] := by
  rw [updateType]
  dsimp only
  rw [List.modify_eq_take_drop, List.take_left, List.drop_left]
  rfl

/-- Behind the last type there is none to change. -/
theorem types_updateType_of_le {c : Compilation} (hid : c.types.length ≤ id.index)
    (change : TypeSymbol → TypeSymbol) : (c.updateType id change).types = c.types := by
  rw [updateType]
  dsimp only
  rw [List.modify_eq_set_getElem?, List.getElem?_eq_none hid]
  rfl

/-- A reference finds the type of that full name, or adds it and marks it external.  The scope of the
name may be new as well, and adding it touches no type. -/
theorem internExternal_cases (h : c.Interned) (qualifiedName : String) :
    (∃ id, c.lookup? (externalName qualifiedName) = some id ∧
      (c.internExternal qualifiedName).1.types = c.types ∧
        (c.internExternal qualifiedName).2 = id) ∨
      c.lookup? (externalName qualifiedName) = none ∧
        (∃ name scope, (c.internExternal qualifiedName).1.types =
          c.types ++ [⟨externalName qualifiedName, { name, scope, isExternal := true }⟩]) ∧
        (c.internExternal qualifiedName).2 = ⟨c.types.length⟩ := by
  obtain ⟨-, -, -, hname⟩ := internQualifier_spec h qualifiedName
  have htypes := types_internQualifier c qualifiedName
  have hlookup : c.lookup? (externalName qualifiedName) =
      (c.internQualifier qualifiedName).1.lookup? (externalName qualifiedName) := by
    rw [lookup?, lookup?, htypes]
  rw [hlookup, internExternal_eq]
  generalize c.internQualifier qualifiedName = q at htypes hname ⊢
  obtain ⟨withScope, scope, name⟩ := q
  dsimp only at htypes hname ⊢
  rcases internType_cases withScope scope name with ⟨id, hl, hi⟩ | ⟨hl, hi⟩
  · left
    rw [hname] at hl
    refine ⟨id, hl, ?_, by rw [hi]⟩
    rw [hi, types_updateType_of_le (by rw [htypes]), htypes]
  · right
    rw [hname] at hl
    rw [hi, hname, htypes]
    exact ⟨hl, ⟨name, scope, types_updateType_last withScope c.types _ _⟩, rfl⟩

/-- A reference makes a plain symbol, if any, and marks it where a new type would stand. -/
theorem type?_internExternal (c : Compilation) (qualifiedName : String) (other : TypeId) :
    ∃ name scope, (c.internExternal qualifiedName).1.type? other =
        if ⟨c.types.length⟩ = other then
          (if (c.internExternal qualifiedName).2 = other then
            some ((c.type? other).getD { name, scope }) else c.type? other).map
              fun symbol => { symbol with isExternal := true }
        else if (c.internExternal qualifiedName).2 = other then
          some ((c.type? other).getD { name, scope })
        else c.type? other := by
  have htypes := types_internQualifier c qualifiedName
  rw [internExternal_eq]
  generalize c.internQualifier qualifiedName = q at htypes ⊢
  refine ⟨q.2.2, q.2.1, ?_⟩
  dsimp only
  rw [type?_updateType, type?_internType, type?_of_types_eq htypes]

/-- A reference leaves the symbols of the types that were there alone. -/
theorem type?_internExternal_of_mem (qualifiedName : String) (hid : id ∈ c.typeIds) :
    (c.internExternal qualifiedName).1.type? id = c.type? id := by
  obtain ⟨name, scope, heq⟩ := type?_internExternal c qualifiedName id
  rw [mem_typeIds] at hid
  have hne : (⟨c.types.length⟩ : TypeId) ≠ id := by
    intro h
    rw [← h] at hid
    exact absurd hid (Nat.lt_irrefl _)
  obtain ⟨symbol, hs⟩ := Option.isSome_iff_exists.mp ((isSome_type? c id).mpr hid)
  rw [heq, if_neg hne, hs, Option.getD_some, ite_self]

theorem internExternal_mem_or_eq (c : Compilation) (qualifiedName : String) :
    (c.internExternal qualifiedName).2 ∈ c.typeIds ∨
      (c.internExternal qualifiedName).2 = ⟨c.types.length⟩ := by
  have htypes := types_internQualifier c qualifiedName
  rw [internExternal_eq]
  generalize c.internQualifier qualifiedName = q at htypes ⊢
  dsimp only
  rcases internType_cases q.1 q.2.1 q.2.2 with ⟨id, hl, hi⟩ | ⟨-, hi⟩
  · left
    rw [hi, mem_typeIds, ← htypes, ← isSome_type?]
    exact isSome_type?_of_lookup? hl
  · right
    rw [hi, htypes]

/-- A type that a reference adds is the one referred to.  Nothing is known of it but its name and its
scope, and it is marked external. -/
theorem eq_of_new_internExternal (qualifiedName : String) {symbol : TypeSymbol}
    (hid : id ∉ c.typeIds) (hs : (c.internExternal qualifiedName).1.type? id = some symbol) :
    id = (c.internExternal qualifiedName).2 ∧
      symbol = { name := symbol.name, scope := symbol.scope, isExternal := true } := by
  obtain ⟨name, scope, heq⟩ := type?_internExternal c qualifiedName id
  have hnone : c.type? id = none := by
    rw [← Option.not_isSome_iff_eq_none, isSome_type?, ← mem_typeIds]
    exact hid
  rw [heq, hnone, Option.getD_none] at hs
  by_cases href : (c.internExternal qualifiedName).2 = id
  · have hlast : (⟨c.types.length⟩ : TypeId) = id := by
      rcases internExternal_mem_or_eq c qualifiedName with hmem | hlast
      · rw [href] at hmem
        exact absurd hmem hid
      · rw [← hlast, href]
    rw [if_pos hlast, if_pos href, Option.map_some, Option.some.injEq] at hs
    subst hs
    exact ⟨href.symm, rfl⟩
  · rw [if_neg href, Option.map_none, ite_self] at hs
    exact absurd hs (by simp)

end Compilation

end Companion
