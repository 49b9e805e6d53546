import Companion.Proofs.Generation.Outcome
import Companion.Proofs.Model.BaseCircles
import Companion.Proofs.Model.SimpleNames
import Companion.Proofs.Model.Verdict

/-!
# A compilation told by its types and declarations

Where a type stands in a compilation matters, and so does the path of its scope, but not where that
scope stands.  So a compilation is told by two lists: its types with the paths of their scopes, and its
declarations.  Here is what each operation does to the lists, and what the queries read from them.

* `TypeProfile`: a type with the path of its scope.
* `Profiled`: the two lists tell a compilation.
* `Profiled.internScope`, `Profiled.internType`, `Profiled.declare`, `Profiled.updateType`,
  `Profiled.internExternal`: what the operations do.
* `Profiled.fullName_eq`, `Profiled.lookup?_eq_some_iff`: names of types and types of names.
* `Profiled.check_eq_ok`: the compilation is accepted if names are there, bases come to an end and no
  class is declared twice.
* `Profiled.eligibleTypes_eq`, `Profiled.generate_eq`: the classes that get a unit, and their units.
-/

namespace Companion

/-- A type with the path of its scope in the place of the scope. -/
structure TypeProfile where
  path : String
  /-- The symbol without its scope. -/
  symbol : TypeSymbol
  deriving DecidableEq, Repr

namespace TypeProfile

/-- The simple name behind the path, if there is one. -/
def fullName (profile : TypeProfile) : String :=
  if profile.path.isEmpty then profile.symbol.name else profile.path ++ "." ++ profile.symbol.name

/-- The profile of the type after a change. -/
def changed (change : TypeSymbol → TypeSymbol) (profile : TypeProfile) : TypeProfile :=
  { profile with symbol := change profile.symbol }

/-- The descriptor of the type. -/
def descriptor (profile : TypeProfile) : Descriptor where
  name := profile.symbol.name
  scopePath := profile.path
  accessibility := profile.symbol.accessibility.keyword

/-- A full name ends with the simple name, which can be read back if no simple name has a dot. -/
theorem name_eq_of_fullName_eq {profile other : TypeProfile}
    (hdot : '.' ∉ profile.symbol.name.toList) (hdot' : '.' ∉ other.symbol.name.toList)
    (h : profile.fullName = other.fullName) : profile.symbol.name = other.symbol.name := by
  rw [fullName, fullName] at h
  split at h
  · split at h
    · exact h
    · exact absurd (h ▸ Text.Dotted.mem_append_dot _ _) hdot
  · split at h
    · exact absurd (h ▸ Text.Dotted.mem_append_dot _ _) hdot'
    · exact (Text.Dotted.append_dot_inj hdot hdot' h).2

end TypeProfile

/-- A change that leaves a type where it is, and does the same in every scope. -/
structure KeepsPlace (change : TypeSymbol → TypeSymbol) : Prop where
  name : ∀ symbol, (change symbol).name = symbol.name
  scope : ∀ symbol, (change symbol).scope = symbol.scope
  anywhere : ∀ symbol scope, change { symbol with scope } = { change symbol with scope }

theorem keepsPlace_isExternal (isExternal : Bool) :
    KeepsPlace fun symbol => { symbol with isExternal } :=
  ⟨fun _ => rfl, fun _ => rfl, fun _ _ => rfl⟩

theorem keepsPlace_base (base : Option TypeId) : KeepsPlace fun symbol => { symbol with base } :=
  ⟨fun _ => rfl, fun _ => rfl, fun _ _ => rfl⟩

theorem keepsPlace_isAbstract (isAbstract : Bool) :
    KeepsPlace fun symbol => { symbol with isAbstract := symbol.isAbstract || isAbstract } :=
  ⟨fun _ => rfl, fun _ => rfl, fun _ _ => rfl⟩

namespace Compilation

variable {c c' : Compilation} {types : List TypeProfile} {declarations : List ClassDeclaration}
  {scope : Option NamespaceId} {id : TypeId} {profile : TypeProfile}

/-- The profile of a type. -/
def profileOf (c : Compilation) (symbol : TypeSymbol) : TypeProfile :=
  ⟨c.pathOf? symbol.scope, { symbol with scope := none }⟩

theorem profileOf_change (c : Compilation) {change : TypeSymbol → TypeSymbol}
    (place : KeepsPlace change) (symbol : TypeSymbol) :
    c.profileOf (change symbol) = (c.profileOf symbol).changed change := by
  have hpath : c.pathOf? (change symbol).scope = c.pathOf? symbol.scope := by rw [place.scope]
  show (⟨c.pathOf? (change symbol).scope, { change symbol with scope := none }⟩ : TypeProfile) =
    ⟨c.pathOf? symbol.scope, change { symbol with scope := none }⟩
  rw [hpath, place.anywhere symbol none]

/-- A compilation with interned types and named scopes that two lists tell. -/
structure Profiled (c : Compilation) (types : List TypeProfile)
    (declarations : List ClassDeclaration) : Prop where
  interned : c.Interned
  namesScopes : c.NamesScopes
  types_eq : c.types.map (fun t => c.profileOf t.symbol) = types
  declarations_eq : c.declarations = declarations

/-- A scope that is there and has the given path. -/
structure HasScope (c : Compilation) (scope : Option NamespaceId) (path : String) : Prop where
  known : c.KnowsScope scope
  path_eq : c.pathOf? scope = path

/-! ### Bases -/

/-- Links that lead downwards in some order come to an end. -/
theorem chainEnds_of_rank (rank : TypeId → Nat)
    (descends : ∀ id base, c.base? id = some base → rank base < rank id) (id : TypeId) :
    c.ChainEnds id := by
  induction hn : rank id using Nat.strongRecOn generalizing id with
  | _ n ih =>
    cases hb : c.base? id with
    | none => exact ⟨1, by rw [baseAfter, hb, Option.bind_none]⟩
    | some base =>
      obtain ⟨m, hm⟩ := ih (rank base) (hn ▸ descends id base hb) base rfl
      exact ⟨m + 1, by rw [baseAfter, hb, Option.bind_some, hm]⟩

/-- The search from a type finds what links lead to, and the type itself. -/
theorem derives_some_iff {marker : String} :
    c.derives (some id) marker = true ↔
      ∃ other, Relation.ReflTransGen c.BaseLink id other ∧ c.isNamed marker other = true := by
  simp only [derives, Option.any_some, List.any_eq_true, mem_met_ascend, reflTransGen_baseLink_iff]

/-! ### Scopes -/

theorem hasScope_none (c : Compilation) : c.HasScope none "" :=
  ⟨knowsScope_none c, rfl⟩

theorem pathOf?_of_keepsScopes (h : c.ParentsFirst) (keeps : c.KeepsScopes c')
    (known : c.KnowsScope scope) : c'.pathOf? scope = c.pathOf? scope := by
  rw [pathOf?_eq_joined, pathOf?_eq_joined, segmentsOf?_of_keepsScopes h keeps known]

theorem HasScope.keep {path : String} (hs : c.HasScope scope path) (h : c.ParentsFirst)
    (keeps : c.KeepsScopes c') : c'.HasScope scope path :=
  ⟨hs.known.keep keeps, (pathOf?_of_keepsScopes h keeps hs.known).trans hs.path_eq⟩

theorem NamesScopes.internSegment (h : c.NamesScopes) (parent : Option NamespaceId) {name : String}
    (hname : name ≠ "") : (c.internSegment parent name).1.NamesScopes := by
  rw [Compilation.internSegment]
  split
  · exact h
  · intro symbol hsymbol
    rcases List.mem_append.mp hsymbol with hold | hnew
    · exact h symbol hold
    · rw [List.mem_singleton.mp hnew]
      exact hname

theorem NamesScopes.internSegments (h : c.NamesScopes) (parent : Option NamespaceId)
    {first : String} {rest : List String} (hnames : ∀ name ∈ first :: rest, name ≠ "") :
    (c.internSegments parent first rest).1.NamesScopes := by
  induction rest generalizing c parent first with
  | nil => exact h.internSegment parent (hnames first List.mem_cons_self)
  | cons next rest ih =>
    rw [List.forall_mem_cons] at hnames
    exact ih (h.internSegment parent hnames.1) _ hnames.2

theorem HasScope.qualify_eq {path : String} (hs : c.HasScope scope path) (name : String) :
    c.qualify scope name = TypeProfile.fullName ⟨path, { name, scope := none }⟩ := by
  rw [qualify, hs.path_eq, TypeProfile.fullName]

theorem modify_append {profile : TypeProfile} (front back : List TypeProfile)
    (f : TypeProfile → TypeProfile) :
    (front ++ profile :: back).modify front.length f = front ++ f profile :: back := by
  rw [List.modify_eq_take_drop, List.take_left, List.drop_left]
  rfl

namespace Profiled

/-! ### Queries -/

section Queries

variable (h : c.Profiled types declarations)
include h

theorem length_types : c.types.length = types.length := by
  rw [← h.types_eq, List.length_map]

theorem mem_typeIds_iff : id ∈ c.typeIds ↔ id.index < types.length := by
  rw [mem_typeIds, h.length_types]

/-- The type at a position is told by the profile there. -/
theorem map_type?_eq (id : TypeId) : (c.type? id).map c.profileOf = types[id.index]? := by
  rw [← h.types_eq, List.getElem?_map, type?, Option.map_map]
  rfl

theorem exists_type? (hp : types[id.index]? = some profile) :
    ∃ symbol, c.type? id = some symbol ∧ c.profileOf symbol = profile := by
  rw [← h.map_type?_eq, Option.map_eq_some_iff] at hp
  exact hp

theorem base?_eq (id : TypeId) : c.base? id = types[id.index]?.bind (·.symbol.base) := by
  rw [← h.map_type?_eq, Option.bind_map]
  rfl

theorem isNamed_eq (name : String) (id : TypeId) :
    c.isNamed name id = types[id.index]?.any (·.symbol.name = name) := by
  rw [← h.map_type?_eq, Option.any_map]
  rfl

theorem descriptor?_eq (id : TypeId) : c.descriptor? id = types[id.index]?.map (·.descriptor) := by
  rw [← h.map_type?_eq, Option.map_map, descriptor?]
  cases hs : c.type? id with
  | none => rfl
  | some symbol =>
    rw [Option.map_some, Option.map_some, scopePathOf, hs]
    rfl

theorem fullName_eq (hp : types[id.index]? = some profile) : c.fullName id = profile.fullName := by
  obtain ⟨symbol, hs, rfl⟩ := h.exists_type? hp
  rw [fullName, hs]
  rfl

/-- A type with an empty path lies in the global namespace. -/
theorem exists_global_type? (hp : types[id.index]? = some profile) (hpath : profile.path = "") :
    ∃ symbol, c.type? id = some symbol ∧ symbol.name = profile.symbol.name ∧ symbol.scope = none := by
  obtain ⟨symbol, hs, rfl⟩ := h.exists_type? hp
  refine ⟨symbol, hs, rfl, ?_⟩
  cases hscope : symbol.scope with
  | none => rfl
  | some scope =>
    have hknown := h.interned.knowsScope_of_type? hs scope hscope
    have hnonempty : c.pathOf scope ≠ "" :=
      ScopesNamed.pathOf_ne_empty h.namesScopes h.interned.parentsFirst hknown
    have hempty : c.pathOf? symbol.scope = "" := hpath
    rw [hscope] at hempty
    exact absurd hempty hnonempty

theorem map_fullName_typeIds : c.typeIds.map c.fullName = types.map (·.fullName) := by
  rw [typeIds, h.length_types]
  refine List.ext_getElem (by simp) fun i hi hi' => ?_
  have hlt : i < types.length := by simpa using hi'
  have hp : types[i]? = some types[i] := List.getElem?_eq_getElem hlt
  simp only [List.map_map, List.getElem_map, List.getElem_range, Function.comp_apply]
  exact h.fullName_eq (show types[(⟨i⟩ : TypeId).index]? = _ from hp)

/-- What is found under a full name is the type that has it. -/
theorem lookup?_eq_some_iff {name : String} :
    c.lookup? name = some id ↔ ∃ p, types[id.index]? = some p ∧ p.fullName = name := by
  rw [h.interned.lookup?_eq_some_iff, h.mem_typeIds_iff]
  constructor
  · rintro ⟨hid, hname⟩
    have hp : types[id.index]? = some types[id.index] := List.getElem?_eq_getElem hid
    exact ⟨_, hp, (h.fullName_eq hp).symm.trans hname⟩
  · rintro ⟨p, hp, hname⟩
    exact ⟨(List.getElem?_eq_some_iff.mp hp).1, (h.fullName_eq hp).trans hname⟩

theorem lookup?_eq_none {name : String} (fresh : ∀ p ∈ types, p.fullName ≠ name) :
    c.lookup? name = none := by
  rw [Option.eq_none_iff_forall_ne_some]
  intro id hfound
  obtain ⟨p, hp, hname⟩ := h.lookup?_eq_some_iff.mp hfound
  exact fresh p (List.mem_of_getElem? hp) hname

end Queries

/-! ### Operations -/

section Operations

variable (h : c.Profiled types declarations)
include h

/-- More scopes leave the profiles as they are. -/
theorem profileOf_eq (keeps : c.KeepsScopes c') {t : RegisteredType} (ht : t ∈ c.types) :
    c'.profileOf t.symbol = c.profileOf t.symbol := by
  have known : c.KnowsScope t.symbol.scope :=
    h.interned.knowsScope ⟨t.registeredName, t.symbol.scope, t.symbol.name⟩
      (List.mem_map.mpr ⟨t, ht, rfl⟩)
  rw [profileOf, profileOf, pathOf?_of_keepsScopes h.interned.parentsFirst keeps known]

/-- Interning the scope of a dotted name without empty segments leaves the lists alone, and the scope
has the name for its path. -/
theorem internScope {path : String}
    (hsegments : ∀ segment ∈ Text.Dotted.allSegments path, segment ≠ "") :
    (c.internScope none path).1.Profiled types declarations ∧
      (c.internScope none path).1.HasScope (some (c.internScope none path).2) path := by
  have hspec := internScope_spec h.interned.parentsFirst (knowsScope_none c) path
  have hinterned := (h.interned.internScope (knowsScope_none c) path).1
  have hpath : (c.internScope none path).1.pathOf? (some (c.internScope none path).2) = path :=
    pathOf_internScope_none h.interned.parentsFirst path
  refine ⟨⟨hinterned, h.namesScopes.internSegments none hsegments, ?_, ?_⟩, hspec.knowsScope, hpath⟩
  · rw [types_internScope, ← h.types_eq]
    exact List.map_congr_left fun t ht => h.profileOf_eq hspec.keepsScopes ht
  · rw [declarations_internScope, h.declarations_eq]

/-- A type whose full name is new stands behind the others. -/
theorem internType {path name : String} (hs : c.HasScope scope path)
    (fresh : ∀ p ∈ types, p.fullName ≠ TypeProfile.fullName ⟨path, { name, scope := none }⟩) :
    (c.internType scope name).1.Profiled (types ++ [⟨path, { name, scope := none }⟩]) declarations ∧
      (c.internType scope name).2 = ⟨types.length⟩ := by
  have hinterned := (internType_spec h.interned hs.known name).interned
  have hlookup := h.lookup?_eq_none fresh
  rw [← hs.qualify_eq] at hlookup
  rcases internType_cases c scope name with ⟨found, hfound, -⟩ | ⟨-, heq⟩
  · exact absurd (hlookup.symm.trans hfound) (by simp)
  · have keeps : c.KeepsScopes (c.internType scope name).1 :=
      KeepsScopes.of_eq (namespaces_internType c scope name)
    have hscope := hs.keep h.interned.parentsFirst keeps
    refine ⟨⟨hinterned, fun symbol hsymbol => ?_, ?_, ?_⟩, by rw [heq, h.length_types]⟩
    · rw [namespaces_internType] at hsymbol
      exact h.namesScopes symbol hsymbol
    · rw [← h.types_eq, ← List.map_congr_left fun t ht => h.profileOf_eq keeps ht,
        ← hscope.path_eq]
      rw [heq, List.map_append, List.map_singleton]
      rfl
    · rw [declarations_internType, h.declarations_eq]

/-- A change in place changes the profile in place. -/
theorem updateType {change : TypeSymbol → TypeSymbol} (place : KeepsPlace change) (id : TypeId) :
    (c.updateType id change).Profiled (types.modify id.index (·.changed change)) declarations := by
  refine ⟨(h.interned.updateType id change place.scope place.name).1, h.namesScopes, ?_,
    h.declarations_eq⟩
  have keeps : c.KeepsScopes (c.updateType id change) := KeepsScopes.refl c
  rw [← h.types_eq]
  refine List.ext_getElem (by simp [Compilation.updateType]) fun i hi hi' => ?_
  have hlt : i < c.types.length := by simpa using hi'
  have hsame := h.profileOf_eq keeps (List.getElem_mem hlt)
  simp only [Compilation.updateType, List.getElem_map, List.getElem_modify] at hsame ⊢
  split
  · exact (profileOf_change _ place _).trans (congrArg _ hsame)
  · exact hsame

/-- A declaration stands behind the others, and its type is no longer external. -/
theorem declare (hid : id.index < types.length) (isPartial : Bool) :
    (c.declare id isPartial).1.Profiled
      (types.modify id.index (·.changed fun symbol => { symbol with isExternal := false }))
      (declarations ++ [⟨id, isPartial⟩]) := by
  let marked := c.updateType id fun symbol => { symbol with isExternal := false }
  have hmarked := h.updateType (keepsPlace_isExternal false) id
  obtain ⟨symbol, hs⟩ := exists_type?_of_mem (h.mem_typeIds_iff.mpr hid)
  have heq : (c.declare id isPartial).1 =
      { marked with declarations := c.declarations ++ [⟨id, isPartial⟩] } := by
    rw [Compilation.declare, hs]
  have keeps : marked.KeepsScopes (c.declare id isPartial).1 := by
    rw [heq]
    exact List.prefix_refl _
  refine ⟨(h.interned.declare id isPartial).1, ?_, ?_, by rw [heq, h.declarations_eq]⟩
  · rw [heq]
    exact h.namesScopes
  · rw [← hmarked.types_eq, ← List.map_congr_left fun t ht => hmarked.profileOf_eq keeps ht, heq]

/-- A type that is made and marked external at once. -/
theorem internType_mark {path name : String} (hs : c.HasScope scope path)
    (fresh : ∀ p ∈ types, p.fullName ≠ TypeProfile.fullName ⟨path, { name, scope := none }⟩) :
    ((c.internType scope name).1.updateType ⟨types.length⟩
      fun symbol => { symbol with isExternal := true }).Profiled
        (types ++ [⟨path, { name, scope := none, isExternal := true }⟩]) declarations := by
  have hmarked := (h.internType hs fresh).1.updateType (keepsPlace_isExternal true) ⟨types.length⟩
  rw [modify_append] at hmarked
  exact hmarked

/-- A reference by a simple name that is new makes an external type behind the others. -/
theorem internExternal {name : String} (hdot : '.' ∉ name.toList)
    (fresh : ∀ p ∈ types, p.fullName ≠ name) :
    (c.internExternal name).1.Profiled
        (types ++ [⟨"", { name, scope := none, isExternal := true }⟩]) declarations ∧
      (c.internExternal name).2 = ⟨types.length⟩ := by
  have hqualifier : c.internQualifier name = (c, none, name) := by
    have hsplit : Text.Dotted.splitLast? name = none := by
      rw [Text.Dotted.splitLast?, Option.map_eq_none_iff]
      exact Text.cutLast?_eq_none_iff.mpr hdot
    rw [internQualifier, hsplit]
  rw [internExternal_eq, hqualifier, h.length_types]
  exact ⟨h.internType_mark (hasScope_none c) fresh, (h.internType (hasScope_none c) fresh).2⟩

/-- The same by a dotted name, whose scope is interned first. -/
theorem internExternal_dotted {path name : String}
    (hsegments : ∀ segment ∈ Text.Dotted.allSegments path, segment ≠ "") (hdot : '.' ∉ name.toList)
    (fresh : ∀ p ∈ types, p.fullName ≠ TypeProfile.fullName ⟨path, { name, scope := none }⟩) :
    (c.internExternal (path ++ "." ++ name)).1.Profiled
        (types ++ [⟨path, { name, scope := none, isExternal := true }⟩]) declarations ∧
      (c.internExternal (path ++ "." ++ name)).2 = ⟨types.length⟩ := by
  obtain ⟨hscoped, hs⟩ := h.internScope hsegments
  have hqualifier : c.internQualifier (path ++ "." ++ name) =
      ((c.internScope none path).1, some (c.internScope none path).2, name) := by
    rw [internQualifier, Text.Dotted.splitLast?_append_dot path hdot]
  rw [internExternal_eq, hqualifier, h.length_types]
  exact ⟨hscoped.internType_mark hs fresh, (hscoped.internType hs fresh).2⟩

end Operations

/-! ### Verdicts -/

section Verdicts

variable (h : c.Profiled types declarations) {marker : String}
include h

/-- The compilation is accepted if all types have names, the links to bases lead downwards in some
order, and no class is declared twice. -/
theorem check_eq_ok (named : ∀ p ∈ types, p.symbol.name ≠ "") (rank : Nat → Nat)
    (descends : ∀ i p base, types[i]? = some p → p.symbol.base = some base → rank base.index < rank i)
    (single : (declarations.map (·.type)).Nodup) : c.check = .ok () := by
  rw [check_eq_ok_iff, inconsistency?_eq_none_iff]
  refine ⟨emptyNamespaceName?_eq_none_iff.mpr h.namesScopes, emptyTypeName?_eq_none_iff.mpr ?_,
    circularInheritance?_eq_none_iff.mpr fun id _ => ?_, missingPartial?_eq_none_iff.mpr fun id _ => ?_⟩
  · intro id hid
    have hp : types[id.index]? = some _ := List.getElem?_eq_getElem (h.mem_typeIds_iff.mp hid)
    rw [h.isNamed_eq, hp, Option.any_some, decide_eq_false_iff_not]
    exact named _ (List.mem_of_getElem? hp)
  · refine chainEnds_of_rank (rank ·.index) (fun id base hbase => ?_) id
    rw [h.base?_eq, Option.bind_eq_some_iff] at hbase
    obtain ⟨p, hp, hbase⟩ := hbase
    exact descends id.index p base hp hbase
  · rintro ⟨htwo, -⟩
    rw [declarationsOf, h.declarations_eq, ← List.countP_eq_length_filter] at htwo
    have hone := List.nodup_iff_count_le_one.mp single id
    rw [List.count, List.countP_map] at hone
    exact absurd htwo (Nat.not_lt.mpr hone)

theorem eligibility_iff {d : ClassDeclaration} :
    c.eligibility marker d = .eligible ↔ d.isPartial = true ∧ ∃ p, types[d.type.index]? = some p ∧
      p.symbol.isAbstract = false ∧ c.derives p.symbol.base marker = true := by
  rw [eligibility_eq_eligible_iff]
  refine and_congr_right fun _ => ?_
  rw [← h.map_type?_eq]
  cases c.type? d.type with
  | none => simp
  | some symbol => simp [profileOf]

/-- Where no class is declared twice, each eligible declaration stands for a class of its own. -/
theorem eligibleTypes_eq (single : (declarations.map (·.type)).Nodup) :
    c.eligibleTypes marker =
      (declarations.filter fun d => c.eligibility marker d = .eligible).map (·.type) := by
  have hdistinct : ((declarations.filter fun d => c.eligibility marker d = .eligible).map
      (·.type)).Nodup := single.sublist (List.filter_sublist.map _)
  rw [eligibleTypes, h.declarations_eq]
  exact FirstOccurrences.eraseDups_eq_self hdistinct

/-- The units are those of the descriptors that the profiles come to. -/
theorem generate_eq (settings : Settings) :
    c.generate settings =
      ((c.eligibleTypes settings.marker).filterMap
        fun id => types[id.index]?.map (·.descriptor)).map settings.unitFor := by
  rw [generate, descriptors, funext h.descriptor?_eq]

end Verdicts

end Profiled

end Compilation

end Companion
