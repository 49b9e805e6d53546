import Companion.Proofs.Manifest.Acceptance
import Companion.Proofs.Manifest.BaseNames

/-!
# Linked compilations

* `candidateNames_eq`: the candidates for a base are the names that are tried for it.
* `Links`: what a compilation holds of the bases that have been linked so far.
* `Links.linkBase`: linking one more base gives it the name that it is looked up to.
* `Draft.Reads.links`: when all is linked, the bases have the names that `baseNames` says.
-/

namespace Companion

open FirstOccurrences
open Text.Dotted

namespace Compilation

variable {origin c : Compilation} {elements : List Placement} {added : List String}
  {linked : List (String × String)} {id : TypeId}

/-! ### Candidates -/

/-- The paths of a scope and of those around it. -/
theorem map_pathOf_enclosing (h : c.ParentsFirst) {scope : NamespaceId}
    (known : scope.index < c.namespaces.length) :
    (c.enclosing scope).map (fun s => c.pathOf s.1) =
      pathsOutwards (c.segmentsOf scope).reverse := by
  apply h.scope_induction (motive := fun scope => (c.enclosing scope).map (fun s => c.pathOf s.1) =
    pathsOutwards (c.segmentsOf scope).reverse) ?_ known
  intro scope symbol hs ih
  have hpath : c.pathOf scope = joined (c.segmentsOf scope) := rfl
  rw [enclosing_eq h hs, List.map_cons, hpath, segmentsOf_eq h hs, List.reverse_append,
    List.reverse_singleton, List.singleton_append, pathsOutwards, List.reverse_cons,
    List.reverse_reverse]
  congr 1
  cases hp : symbol.parent with
  | none => rfl
  | some parent => exact ih parent hp

/-- The candidates for a base are the names that are tried for it. -/
theorem candidateNames_eq (h : c.ParentsFirst) {symbol : TypeSymbol}
    (hs : c.type? id = some symbol) (known : c.KnowsScope symbol.scope) (text : String) :
    c.candidateNames id text =
      (pathsOutwards (c.segmentsOf? symbol.scope).reverse).map (· ++ "." ++ text) ++ [text] := by
  rw [candidateNames, hs]
  cases hscope : symbol.scope with
  | none => simp [hscope, segmentsOf?, pathsOutwards]
  | some scope =>
    have hpaths := map_pathOf_enclosing h (known scope hscope)
    simp only [segmentsOf?, Option.bind_some, hscope, Option.map_some, Option.getD_some]
    rw [← hpaths, List.map_map]
    rfl

/-- Looking candidates up finds the first known name. -/
theorem findSome?_lookup? (h : c.Interned) {known : String → Bool}
    (hknown : ∀ name, known name = true ↔ ∃ id, c.lookup? name = some id) (names : List String) :
    (names.findSome? c.lookup?).map c.fullName = names.find? known := by
  induction names with
  | nil => rfl
  | cons name rest ih =>
    rw [List.findSome?_cons, List.find?_cons]
    cases hl : c.lookup? name with
    | some id =>
      have hyes : known name = true := (hknown name).mpr ⟨id, hl⟩
      rw [hyes]
      exact congrArg some (h.lookup?_eq_some_iff.mp hl).2
    | none =>
      have hno : known name = false := by
        rw [← Bool.not_eq_true, hknown, hl]
        simp
      rw [hno]
      exact ih

/-! ### What the declared classes say -/

theorem Interned.exists_lookup?_iff (h : c.Interned) {name : String} :
    (∃ id, c.lookup? name = some id) ↔ name ∈ c.typeIds.map c.fullName := by
  simp only [h.lookup?_eq_some_iff, List.mem_map]

namespace Declares

theorem map_fullName_typeIds (d : origin.Declares elements) :
    origin.typeIds.map origin.fullName = classNames elements := by
  rw [d.interned.map_fullName_typeIds, d.names]
  rfl

/-- The first type with a simple name is the first class with it. -/
theorem find?_typeIds (d : origin.Declares elements) (text : String) :
    (origin.typeIds.find? fun id => (origin.type? id).any (·.name = text)).map origin.fullName =
      namedSimply? elements text := by
  rw [namedSimply?, ← d.map_fullName_typeIds, List.find?_map]
  congr 1
  apply List.find?_congr
  intro id hid
  obtain ⟨symbol, hs⟩ := exists_type?_of_mem hid
  obtain ⟨first, hfirst, hname, -⟩ := (d.described id symbol hs).home
  rw [hs, Function.comp_apply, firstPart?, hfirst, Option.any_some, Option.any_some, hname]

end Declares

/-! ### One base -/

/-- The type that a base name stands for, in a compilation that holds at most this one more. -/
structure Resolved (c : Compilation) (name : String) (result : Compilation × TypeId) : Prop where
  interned : TypeInterned c name result
  kept : ∀ id ∈ c.typeIds, result.1.type? id = c.type? id
  new : ∀ id symbol, result.1.type? id = some symbol → id ∉ c.typeIds →
    id = result.2 ∧ symbol.isExternal = true ∧ symbol.base = none
  declarations : result.1.declarations = c.declarations

theorem Interned.resolved (h : c.Interned) (hid : id ∈ c.typeIds) :
    Resolved c (c.fullName id) (c, id) := by
  refine ⟨⟨h, Extends.refl c, hid, rfl⟩, fun _ _ => rfl, ?_, rfl⟩
  intro other symbol hs hnew
  rw [mem_typeIds, ← isSome_type?, hs] at hnew
  exact absurd rfl hnew

theorem Interned.resolved_internExternal (h : c.Interned) (name : String) :
    Resolved c (externalName name) (c.internExternal name) := by
  refine ⟨internExternal_spec h name, ?_, ?_, declarations_internExternal c name⟩
  · intro id hid
    exact type?_internExternal_of_mem name hid
  · intro id symbol hs hnew
    obtain ⟨hid, hplain⟩ := eq_of_new_internExternal name hnew hs
    exact ⟨hid, congrArg TypeSymbol.isExternal hplain, congrArg TypeSymbol.base hplain⟩

/-! ### Bases that have been linked -/

/-- What a compilation holds of the bases that have been linked so far.  All types but those of the
original compilation are external. -/
structure Links (origin c : Compilation) (added : List String) (linked : List (String × String)) :
    Prop where
  interned : c.Interned
  extends_ : origin.Extends c
  names : ∀ name, name ∈ c.typeIds.map c.fullName ↔
    name ∈ origin.typeIds.map origin.fullName ∨ name ∈ added
  external : ∀ id symbol, c.type? id = some symbol →
    (symbol.isExternal = true ↔ id ∉ origin.typeIds)
  bases : ∀ id ∈ origin.typeIds, (c.base? id).map c.fullName = linked.lookup (origin.fullName id)
  known : ∀ id base, c.base? id = some base → base ∈ c.typeIds
  declarations : c.declarations = origin.declarations

namespace Links

/-- The candidates for the base of a class are the names that are tried for it. -/
theorem candidateNames_eq (l : Links origin c added linked) (d : origin.Declares elements)
    (hid : id ∈ origin.typeIds) (text : String) :
    c.candidateNames id text = tried elements (origin.fullName id, text) := by
  obtain ⟨symbol, hs⟩ := exists_type?_of_mem hid
  obtain ⟨symbol', hs', hscope, -⟩ := l.extends_.exists_type? hs
  obtain ⟨first, hfirst, -, hsegments⟩ := (d.described id symbol hs).home
  have hknown := d.interned.knowsScope_of_type? hs
  rw [Compilation.candidateNames_eq l.interned.parentsFirst hs'
    (l.interned.knowsScope_of_type? hs') text, hscope,
    segmentsOf?_of_keepsScopes d.interned.parentsFirst l.extends_.scopes hknown, hsegments]
  show _ = ((firstPart? elements (origin.fullName id)).map (scopedNames ·.around text)).getD []
  rw [firstPart?, hfirst]
  rfl

/-- External types do not count where a simple name is looked up. -/
theorem declaredNamed?_eq_find? (l : Links origin c added linked) (text : String) :
    c.declaredNamed? text = origin.typeIds.find? fun id => (origin.type? id).any (·.name = text) := by
  obtain ⟨more, hmore, hnew⟩ := l.extends_.typeIds_eq
  have hfind : (more.find? fun id => (c.type? id).any fun symbol =>
      !symbol.isExternal && symbol.name = text) = none := by
    rw [List.find?_eq_none]
    intro id hid
    cases hs : c.type? id with
    | none => simp
    | some symbol => simp [(l.external id symbol hs).mpr (hnew id hid).2]
  rw [Compilation.declaredNamed?_eq_find?, hmore, List.find?_append, hfind, Option.or_none]
  apply List.find?_congr
  intro id hid
  have hsome := hid
  obtain ⟨symbol, hs⟩ := exists_type?_of_mem hsome
  obtain ⟨symbol', hs', -, hname⟩ := l.extends_.exists_type? hs
  have hdeclared : symbol'.isExternal = false := by
    rw [← Bool.not_eq_true, l.external id symbol' hs']
    exact not_not.mpr hid
  simp [hs, hs', hname, hdeclared]

theorem declaredNamed?_eq (l : Links origin c added linked) (d : origin.Declares elements)
    (text : String) :
    (c.declaredNamed? text).map c.fullName = namedSimply? elements text := by
  rw [l.declaredNamed?_eq_find?, ← d.find?_typeIds]
  apply Option.map_congr
  intro id hid
  exact l.extends_.fullName_eq d.interned (List.mem_of_find?_eq_some hid)

/-- A base name stands for the type that it is looked up to. -/
theorem resolveBase (l : Links origin c added linked) (d : origin.Declares elements)
    (hid : id ∈ origin.typeIds) (text : String) :
    Resolved c (lookUp elements added (origin.fullName id, text)) (c.resolveBase id text) := by
  have hknown : ∀ name,
      decide (name ∈ classNames elements ∨ name ∈ added) = true ↔ ∃ id, c.lookup? name = some id := by
    intro name
    rw [l.interned.exists_lookup?_iff, l.names, d.map_fullName_typeIds, decide_eq_true_iff]
  have hfind := findSome?_lookup? l.interned hknown (tried elements (origin.fullName id, text))
  have hsimple := l.declaredNamed?_eq d text
  rw [Compilation.resolveBase, lookUp, l.candidateNames_eq d hid, ← hfind]
  cases hl : (tried elements (origin.fullName id, text)).findSome? c.lookup? with
  | some base =>
    obtain ⟨name, -, hname⟩ := List.exists_of_findSome?_eq_some hl
    exact l.interned.resolved (l.interned.lookup?_eq_some_iff.mp hname).1
  | none =>
    rw [otherwise, ← hsimple]
    cases hd : c.declaredNamed? text with
    | some base =>
      refine l.interned.resolved ?_
      rw [Compilation.declaredNamed?_eq_find?] at hd
      exact List.mem_of_find?_eq_some hd
    | none => exact l.interned.resolved_internExternal text

/-- A resolved type is one more type, external unless it was there. -/
theorem resolved (l : Links origin c added linked) {name : String} {result : Compilation × TypeId}
    (h : Resolved c name result) : Links origin result.1 (added ++ [name]) linked := by
  obtain ⟨⟨hinterned, hx, hbase, hname⟩, hkept, hadded, hdeclarations⟩ := h
  have hnew : ∀ id ∈ result.1.typeIds, id ∉ c.typeIds → ∃ symbol,
      result.1.type? id = some symbol ∧ id = result.2 ∧ symbol.isExternal = true ∧
        symbol.base = none := by
    intro id hin hnot
    obtain ⟨symbol, hs⟩ := exists_type?_of_mem hin
    exact ⟨symbol, hs, hadded id symbol hs hnot⟩
  have hkeptBase : ∀ id ∈ c.typeIds, result.1.base? id = c.base? id := by
    intro id hin
    rw [base?, hkept id hin, base?]
  refine ⟨hinterned, l.extends_.trans hx, ?_, ?_, ?_, ?_, hdeclarations.trans l.declarations⟩
  · intro name'
    rw [List.mem_append, ← or_assoc, ← l.names, List.mem_singleton]
    constructor
    · intro hmem
      obtain ⟨id, hin, rfl⟩ := List.mem_map.mp hmem
      by_cases hold : id ∈ c.typeIds
      · left
        rw [hx.fullName_eq l.interned hold]
        exact List.mem_map_of_mem hold
      · right
        obtain ⟨-, -, heq, -⟩ := hnew id hin hold
        rw [heq, hname]
    · intro hmem
      rcases hmem with hmem | hmem
      · obtain ⟨id, hin, rfl⟩ := List.mem_map.mp hmem
        exact List.mem_map.mpr ⟨id, hx.mem_typeIds hin, hx.fullName_eq l.interned hin⟩
      · exact List.mem_map.mpr ⟨result.2, hbase, hname.trans hmem.symm⟩
  · intro id symbol hs
    by_cases hold : id ∈ c.typeIds
    · rw [hkept id hold] at hs
      exact l.external id symbol hs
    · rw [(hadded id symbol hs hold).2.1]
      simp only [true_iff]
      exact fun h => hold (l.extends_.mem_typeIds h)
  · intro id hin
    have hold := l.extends_.mem_typeIds hin
    rw [hkeptBase id hold, ← l.bases id hin]
    apply Option.map_congr
    intro base hb
    exact hx.fullName_eq l.interned (l.known id base hb)
  · intro id base hb
    by_cases hold : id ∈ c.typeIds
    · rw [hkeptBase id hold] at hb
      exact hx.mem_typeIds (l.known id base hb)
    · rw [base?, Option.bind_eq_some_iff] at hb
      obtain ⟨symbol, hs, hb⟩ := hb
      rw [(hadded id symbol hs hold).2.2] at hb
      exact absurd hb (by simp)

/-- A type may change where its name, its scope and where it comes from stay, if the bases do. -/
theorem updateType {linked' : List (String × String)} (l : Links origin c added linked)
    (id : TypeId) (change : TypeSymbol → TypeSymbol)
    (hscope : ∀ symbol, (change symbol).scope = symbol.scope)
    (hname : ∀ symbol, (change symbol).name = symbol.name)
    (hexternal : ∀ symbol, (change symbol).isExternal = symbol.isExternal)
    (hbases : ∀ other ∈ origin.typeIds, ((c.updateType id change).base? other).map c.fullName =
      linked'.lookup (origin.fullName other))
    (hknown : ∀ other base, (c.updateType id change).base? other = some base →
      base ∈ c.typeIds) :
    Links origin (c.updateType id change) added linked' := by
  obtain ⟨hinterned, hx⟩ := l.interned.updateType id change hscope hname
  refine ⟨hinterned, l.extends_.trans hx, ?_, ?_, ?_, ?_, l.declarations⟩
  · intro name
    rw [hinterned.map_fullName_typeIds, places_updateType c id change hscope hname,
      ← l.interned.map_fullName_typeIds]
    exact l.names name
  · intro other symbol hs
    rw [type?_updateType] at hs
    split at hs
    · obtain ⟨plain, hplain, rfl⟩ := Option.map_eq_some_iff.mp hs
      rw [hexternal]
      exact l.external other plain hplain
    · exact l.external other symbol hs
  · intro other hmem
    rw [← hbases other hmem]
    apply Option.map_congr
    intro base hb
    exact hx.fullName_eq l.interned (hknown other base hb)
  · intro other base hb
    exact hx.mem_typeIds (hknown other base hb)

/-- A class without a base gets one. -/
theorem setBase (l : Links origin c added linked) (h : origin.Interned) (hid : id ∈ origin.typeIds)
    (hnew : linked.lookup (origin.fullName id) = none) {base : TypeId} (hbase : base ∈ c.typeIds) :
    Links origin (c.setBase id (some base)) added
      (linked ++ [(origin.fullName id, c.fullName base)]) := by
  have hown : (c.setBase id (some base)).base? id = some base := by
    have hin := l.extends_.mem_typeIds hid
    obtain ⟨symbol, hs⟩ := exists_type?_of_mem hin
    rw [base?, Compilation.setBase, type?_updateType, if_pos rfl, hs]
    rfl
  have hother : ∀ other, id ≠ other →
      (c.setBase id (some base)).base? other = c.base? other := by
    intro other hne
    rw [base?, Compilation.setBase, type?_updateType, if_neg hne, base?]
  apply l.updateType id (fun symbol => { symbol with base := some base }) (fun _ => rfl)
    (fun _ => rfl) (fun _ => rfl)
  · intro other hmem
    show ((c.setBase id (some base)).base? other).map c.fullName = _
    rw [List.lookup_append]
    by_cases heq : id = other
    · subst heq
      rw [hown, hnew, Option.map_some, Option.none_or, List.lookup_cons, beq_self_eq_true]
    · have hne : (origin.fullName other == origin.fullName id) = false := by
        rw [beq_eq_false_iff_ne]
        intro hsame
        exact heq (h.fullName_inj hid hmem hsame.symm)
      rw [hother other heq, List.lookup_cons, hne, List.lookup_nil, Option.or_none]
      exact l.bases other hmem
  · intro other found hb
    change (c.setBase id (some base)).base? other = some found at hb
    by_cases heq : id = other
    · subst heq
      rw [hown, Option.some.injEq] at hb
      rw [← hb]
      exact hbase
    · rw [hother other heq] at hb
      exact l.known other found hb

/-- Linking one more base gives it the name that it is looked up to. -/
theorem linkBase (l : Links origin c added linked) (d : origin.Declares elements)
    (hid : id ∈ origin.typeIds) (hnew : linked.lookup (origin.fullName id) = none)
    (text : String) :
    Links origin (c.linkBase id text)
      (added ++ [lookUp elements added (origin.fullName id, text)])
      (linked ++ [(origin.fullName id, lookUp elements added (origin.fullName id, text))]) := by
  have hresolved := l.resolveBase d hid text
  have hset := (l.resolved hresolved).setBase d.interned hid hnew hresolved.interned.known
  rw [hresolved.interned.fullName] at hset
  exact hset

/-- Before anything is linked no class has a base. -/
theorem start (d : origin.Declares elements) : Links origin origin [] [] := by
  have hnone : ∀ id, origin.base? id = none := by
    intro id
    rw [base?, Option.bind_eq_none_iff]
    intro symbol hs
    rw [(d.described id symbol hs).plain]
  refine ⟨d.interned, Extends.refl origin, by simp, ?_, ?_, ?_, rfl⟩
  · intro id symbol hs
    have hin : id ∈ origin.typeIds := mem_typeIds_of_type? hs
    rw [(d.described id symbol hs).plain]
    simp [hin]
  · intro id _
    rw [hnone, Option.map_none, List.lookup_nil]
  · intro id base hb
    rw [hnone] at hb
    exact absurd hb (by simp)

/-- Levels have no part in linking. -/
theorem setAccessibility (l : Links origin c added linked) (id : TypeId) (level : Accessibility) :
    Links origin (c.setAccessibility id level) added linked := by
  have hbase : ∀ other, (c.setAccessibility id level).base? other = c.base? other := by
    intro other
    rw [base?, base?, Compilation.setAccessibility, type?_updateType]
    split
    · cases c.type? other <;> rfl
    · rfl
  apply l.updateType id (fun symbol => { symbol with accessibility := level }) (fun _ => rfl)
    (fun _ => rfl) (fun _ => rfl)
  · intro other hmem
    show ((c.setAccessibility id level).base? other).map c.fullName = _
    rw [hbase]
    exact l.bases other hmem
  · intro other base hb
    exact l.known other base ((hbase other).symm.trans hb)

/-- Bases are linked one after another. -/
theorem foldl_linkBase (l : Links origin c (linked.map (·.2)) linked) (d : origin.Declares elements)
    (noted : List (TypeId × String)) (hknown : ∀ p ∈ noted, p.1 ∈ origin.typeIds)
    (hnodup : (linked.map (·.1) ++ noted.map fun p => origin.fullName p.1).Nodup) :
    let all := (noted.map fun p => (origin.fullName p.1, p.2)).foldl (fun linked reference =>
      linked ++ [(reference.1, lookUp elements (linked.map (·.2)) reference)]) linked
    Links origin (noted.foldl (fun c p => c.linkBase p.1 p.2) c) (all.map (·.2)) all := by
  induction noted generalizing c linked with
  | nil => exact l
  | cons p rest ih =>
    rw [List.forall_mem_cons] at hknown
    rw [List.map_cons, List.append_cons] at hnodup
    have hnew : linked.lookup (origin.fullName p.1) = none := by
      rw [List.lookup_eq_none_iff]
      intro q hq
      have hne := (List.nodup_append.mp (List.nodup_append.mp hnodup).1).2.2 q.1
        (List.mem_map_of_mem hq) (origin.fullName p.1) List.mem_cons_self
      simpa using hne.symm
    have hone := l.linkBase d hknown.1 hnew p.2
    refine ih ?_ hknown.2 ?_
    · rw [List.map_append]
      exact hone
    · rw [List.map_append]
      exact hnodup

theorem base_of_declared (l : Links origin c added linked) (d : origin.Declares elements)
    (hid : c.declarationsOf id ≠ []) :
    c.fullName id ∈ classNames elements ∧
      (c.base? id).map c.fullName = linked.lookup (c.fullName id) := by
  obtain ⟨declaration, hmem⟩ := List.exists_mem_of_ne_nil _ hid
  rw [declarationsOf, List.mem_filter, l.declarations, decide_eq_true_iff] at hmem
  obtain ⟨hmem, rfl⟩ := hmem
  have hin := d.declared declaration hmem
  rw [l.extends_.fullName_eq d.interned hin, ← d.map_fullName_typeIds]
  exact ⟨List.mem_map_of_mem hin, l.bases _ hin⟩

theorem exists_declared (l : Links origin c added linked) (d : origin.Declares elements)
    {name : String} (hname : name ∈ classNames elements) :
    ∃ id, c.lookup? name = some id ∧ c.fullName id = name ∧ c.declarationsOf id ≠ [] := by
  have hmem : name ∈ origin.declarations.map fun declaration =>
      origin.fullName declaration.type := by
    have hfirst := congrArg (List.map Prod.fst) d.declarations
    rw [List.map_map, List.map_map] at hfirst
    rw [classNames, List.mem_eraseDups] at hname
    exact hfirst ▸ hname
  obtain ⟨declaration, hin, rfl⟩ := List.mem_map.mp hmem
  have hid := d.declared declaration hin
  have hfull := l.extends_.fullName_eq d.interned hid
  refine ⟨declaration.type, ?_, hfull, ?_⟩
  · rw [← hfull]
    exact l.interned.lookup?_fullName (l.extends_.mem_typeIds hid)
  · apply List.ne_nil_of_mem (a := declaration)
    rw [declarationsOf, List.mem_filter, l.declarations]
    exact ⟨hin, decide_eq_true rfl⟩

/-- Linking adds exactly the types without a declaration. -/
theorem declarationsOf_eq_nil_iff (l : Links origin c added linked) (d : origin.Declares elements) :
    c.declarationsOf id = [] ↔ id ∉ origin.typeIds := by
  constructor
  · intro hnil hold
    have hname : origin.fullName id ∈ classNames elements := by
      rw [← d.map_fullName_typeIds]
      exact List.mem_map_of_mem hold
    obtain ⟨id', hlookup, -, hne⟩ := l.exists_declared d hname
    -- A class is looked up under the full name that it had before.
    have hsame : c.lookup? (origin.fullName id) = some id := by
      rw [← l.extends_.fullName_eq d.interned hold]
      exact l.interned.lookup?_fullName (l.extends_.mem_typeIds hold)
    rw [hsame, Option.some.injEq] at hlookup
    subst hlookup
    exact hne hnil
  · intro hnew
    rw [declarationsOf, List.filter_eq_nil_iff]
    intro declaration hmem
    rw [l.declarations] at hmem
    have hdeclared := d.declared declaration hmem
    rw [decide_eq_true_iff]
    intro heq
    exact hnew (heq ▸ hdeclared)

/-- External types are those without a declaration. -/
theorem external_iff (l : Links origin c added linked) (d : origin.Declares elements)
    {symbol : TypeSymbol} (hs : c.type? id = some symbol) :
    symbol.isExternal = true ↔ c.declarationsOf id = [] := by
  rw [l.external id symbol hs, l.declarationsOf_eq_nil_iff d]

end Links

end Compilation

/-- When all is linked the bases have the names that they are looked up to. -/
theorem Draft.Reads.links {draft : Draft} {elements : List Placement} {around : List Markup.Tag}
    (r : draft.Reads elements around) (h : Agree Placement.baseText? elements) :
    Compilation.Links draft.compilation draft.link ((baseNames elements).map (·.2))
      (baseNames elements) := by
  have hlevelled : Compilation.Links draft.compilation
      (draft.accessibilities.foldl (fun c p => c.setAccessibility p.1 p.2) draft.compilation)
        [] [] := by
    induction draft.accessibilities using List.reverseRecOn with
    | nil => exact .start r.declares
    | append_singleton noted p ih =>
      rw [List.foldl_append]
      exact ih.setAccessibility p.1 p.2
  have hnames : draft.bases.map (fun p => (draft.compilation.fullName p.1, p.2)) =
      references elements := r.bases.values
  have hnodup := nodup_names_references h
  rw [← hnames, List.map_map] at hnodup
  have hall : let all := (draft.bases.map fun p =>
        (draft.compilation.fullName p.1, p.2)).foldl (fun linked reference =>
          linked ++ [(reference.1, lookUp elements (linked.map (·.2)) reference)]) []
      Compilation.Links draft.compilation draft.link (all.map (·.2)) all :=
    Compilation.Links.foldl_linkBase hlevelled r.declares draft.bases r.bases.known hnodup
  rw [hnames] at hall
  exact hall

end Companion
