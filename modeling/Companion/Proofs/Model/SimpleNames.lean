import Companion.Proofs.Model.ScopePaths

/-!
# Types by scope and simple name

Types are told apart by their full names.  Where no simple name holds a dot and no scope is without a
name, a full name can be read back into the scope and the simple name, so that types are told apart by
these two just as well.

* `append_dot_inj`: a text falls apart at its last dot in one way only.
* `qualify_inj`: full names of known scopes and simple names without dots agree only if both do.
* `DotlessNames`: no type has a dot in its simple name.
* `BuildsDotless`: what calls make of a compilation if they make no such type.
* `BuildsDotless.dotlessNames`: nor do the types behind qualified names get one.
* `StandsIn`: a type has the given scope and the given simple name.
* `lookup?_qualify_eq_some_iff`: what is found under a full name is what stands there.
* `internType_standsIn_spec`: interning a type by its full name is interning it by scope and name.
-/

namespace Companion

/-- What stands behind the last separator holds none. -/
theorem Text.not_mem_of_cutLast? {separator : Char} {cs front back : List Char}
    (h : cutLast? separator cs = some (front, back)) : separator ∉ back := by
  induction cs generalizing front with
  | nil => simp [cutLast?] at h
  | cons c cs ih =>
    unfold cutLast? at h
    cases hcut : cutLast? separator cs with
    | some parts =>
      rw [hcut] at h
      cases h
      exact ih hcut
    | none =>
      rw [hcut] at h
      dsimp only at h
      split at h
      · cases h
        exact cutLast?_eq_none_iff.mp hcut
      · cases h

namespace Text.Dotted

theorem segments_of_not_mem {text : String} (h : '.' ∉ text.toList) : segments text = (text, []) := by
  simp [segments, pieces_of_not_mem h]

/-- What stands in front of the last dot and what stands behind it are told by the text. -/
theorem append_dot_inj {front front' back back' : String} (hb : '.' ∉ back.toList)
    (hb' : '.' ∉ back'.toList) (h : front ++ "." ++ back = front' ++ "." ++ back') :
    front = front' ∧ back = back' := by
  have hsegments := congrArg segments h
  rw [segments_append, segments_append, segments_of_not_mem hb, segments_of_not_mem hb',
    Prod.mk.injEq] at hsegments
  obtain ⟨hfirst, hrest⟩ := hsegments
  obtain ⟨hrest, hback⟩ := List.append_inj' hrest rfl
  refine ⟨?_, (List.cons.inj hback).1⟩
  rw [← joined_segments front, hfirst, hrest, joined_segments]

theorem mem_append_dot (front back : String) : '.' ∈ (front ++ "." ++ back).toList := by
  rw [String.toList_append, String.toList_append]
  exact List.mem_append_left _ (List.mem_append_right _ List.mem_cons_self)

/-- Behind the last dot there is no dot. -/
theorem not_mem_of_splitLast? {text path name : String} (h : splitLast? text = some (path, name)) :
    '.' ∉ name.toList := by
  rw [splitLast?, Option.map_eq_some_iff] at h
  obtain ⟨⟨front, back⟩, hcut, hparts⟩ := h
  obtain ⟨-, rfl⟩ := Prod.mk.inj hparts
  rw [String.toList_ofList]
  exact not_mem_of_cutLast? hcut

/-- A dot that none follows is the last one. -/
theorem splitLast?_append_dot (path : String) {name : String} (hdot : '.' ∉ name.toList) :
    splitLast? (path ++ "." ++ name) = some (path, name) := by
  cases hsplit : splitLast? (path ++ "." ++ name) with
  | none =>
    rw [splitLast?, Option.map_eq_none_iff] at hsplit
    exact absurd (mem_append_dot path name) (cutLast?_eq_none_iff.mp hsplit)
  | some parts =>
    obtain ⟨front, back⟩ := parts
    obtain ⟨rfl, rfl⟩ :=
      append_dot_inj hdot (not_mem_of_splitLast? hsplit) (append_of_splitLast? hsplit)
    rfl

end Text.Dotted

namespace Compilation

open Text.Dotted

variable {c : Compilation} {id : TypeId} {scope scope' : Option NamespaceId} {name name' : String}

/-! ### Reading full names back -/

/-- No scope is without a name. -/
def ScopesNamed (c : Compilation) : Prop :=
  ∀ symbol ∈ c.namespaces, symbol.name ≠ ""

theorem ScopesInterned.pathOf_inj (h : c.ScopesInterned) {a b : NamespaceId}
    (ha : a.index < c.namespaces.length) (hb : b.index < c.namespaces.length)
    (hab : c.pathOf a = c.pathOf b) : a = b := by
  have hfound := h.internScope_pathOf ha
  rw [hab, h.internScope_pathOf hb] at hfound
  exact (Prod.mk.inj hfound).2.symm

/-- The path of a scope ends with its name, so it is not empty if the name is not. -/
theorem ScopesNamed.pathOf_ne_empty (hn : c.ScopesNamed) (h : c.ParentsFirst) {a : NamespaceId}
    (ha : a.index < c.namespaces.length) : c.pathOf a ≠ "" := by
  have hs : c.namespace? a = some c.namespaces[a.index] := List.getElem?_eq_getElem ha
  have hname := hn _ (List.getElem_mem ha)
  show joined (c.segmentsOf a) ≠ ""
  rw [segmentsOf_eq h hs]
  generalize c.segmentsOf? _ = outer
  cases outer with
  | nil => exact hname
  | cons first rest =>
    intro hempty
    rw [joined_append (List.cons_ne_nil _ _) (List.cons_ne_nil _ _)] at hempty
    have hdot := mem_append_dot (joined (first :: rest)) (joined [c.namespaces[a.index].name])
    rw [hempty] at hdot
    exact List.not_mem_nil hdot

theorem ScopesNamed.qualify_some (hn : c.ScopesNamed) (h : c.ParentsFirst) {a : NamespaceId}
    (ha : a.index < c.namespaces.length) (name : String) :
    c.qualify (some a) name = c.pathOf a ++ "." ++ name := by
  have hpath : ¬ (c.pathOf a).isEmpty = true := by
    rw [String.isEmpty_iff]
    exact hn.pathOf_ne_empty h ha
  exact if_neg hpath

/-- Full names of known scopes and simple names without dots agree only if both do. -/
theorem ScopesNamed.qualify_inj (hn : c.ScopesNamed) (h : c.ScopesInterned)
    (known : c.KnowsScope scope) (known' : c.KnowsScope scope') (hdot : '.' ∉ name.toList)
    (hdot' : '.' ∉ name'.toList) (heq : c.qualify scope name = c.qualify scope' name') :
    scope = scope' ∧ name = name' := by
  have hqualify : ∀ a : NamespaceId, a.index < c.namespaces.length → ∀ name,
      c.qualify (some a) name = c.pathOf a ++ "." ++ name :=
    fun _ => hn.qualify_some h.parentsFirst
  cases scope with
  | none =>
    cases scope' with
    | none => exact ⟨rfl, heq⟩
    | some b =>
      have hname : name = c.pathOf b ++ "." ++ name' := heq.trans (hqualify b (known' b rfl) name')
      exact absurd (hname ▸ mem_append_dot _ _) hdot
  | some a =>
    cases scope' with
    | none =>
      have hname : name' = c.pathOf a ++ "." ++ name :=
        heq.symm.trans (hqualify a (known a rfl) name)
      exact absurd (hname ▸ mem_append_dot _ _) hdot'
    | some b =>
      rw [hqualify a (known a rfl), hqualify b (known' b rfl)] at heq
      obtain ⟨hpath, hname⟩ := append_dot_inj hdot hdot' heq
      exact ⟨congrArg some (h.pathOf_inj (known a rfl) (known' b rfl) hpath), hname⟩

/-! ### Simple names -/

/-- No type has a dot in its simple name. -/
def DotlessNames (c : Compilation) : Prop :=
  ∀ id symbol, c.type? id = some symbol → '.' ∉ symbol.name.toList

theorem dotlessNames_empty : ({} : Compilation).DotlessNames := by
  intro id symbol hs
  simp [type?] at hs

theorem DotlessNames.of_types_eq {c' : Compilation} (h : c.DotlessNames) (ht : c'.types = c.types) :
    c'.DotlessNames := by
  intro id symbol hs
  rw [type?_of_types_eq ht] at hs
  exact h id symbol hs

theorem DotlessNames.updateType (h : c.DotlessNames) (id : TypeId) (change : TypeSymbol → TypeSymbol)
    (hn : ∀ symbol, (change symbol).name = symbol.name) : (c.updateType id change).DotlessNames := by
  intro other symbol hs
  rw [type?_updateType] at hs
  split at hs
  · obtain ⟨previous, hprevious, rfl⟩ := Option.map_eq_some_iff.mp hs
    rw [hn]
    exact h other previous hprevious
  · exact h other symbol hs

theorem DotlessNames.internType (h : c.DotlessNames) (scope : Option NamespaceId)
    (hdot : '.' ∉ name.toList) : (c.internType scope name).1.DotlessNames := by
  intro other symbol hs
  rw [type?_internType] at hs
  split at hs
  · cases hold : c.type? other with
    | some previous =>
      rw [hold, Option.getD_some] at hs
      cases hs
      exact h other _ hold
    | none =>
      rw [hold, Option.getD_none] at hs
      cases hs
      exact hdot
  · exact h other symbol hs

/-- The simple name of a qualified name stands behind its last dot. -/
theorem not_mem_internQualifier (c : Compilation) (qualifiedName : String) :
    '.' ∉ (c.internQualifier qualifiedName).2.2.toList := by
  unfold internQualifier
  cases hsplit : splitLast? qualifiedName with
  | none =>
    rw [splitLast?, Option.map_eq_none_iff] at hsplit
    exact Text.cutLast?_eq_none_iff.mp hsplit
  | some parts => exact not_mem_of_splitLast? hsplit

theorem DotlessNames.internExternal (h : c.DotlessNames) (qualifiedName : String) :
    (c.internExternal qualifiedName).1.DotlessNames := by
  have hqualifier := h.of_types_eq (types_internQualifier c qualifiedName)
  have hdot := not_mem_internQualifier c qualifiedName
  exact (hqualifier.internType _ hdot).updateType _ _ fun _ => rfl

theorem DotlessNames.declare (h : c.DotlessNames) (id : TypeId) (isPartial : Bool) :
    (c.declare id isPartial).1.DotlessNames := by
  unfold Compilation.declare
  cases c.type? id with
  | none => exact h
  | some symbol =>
    have hmarked := h.updateType id (fun symbol => { symbol with isExternal := false }) fun _ => rfl
    exact hmarked.of_types_eq rfl

end Compilation

/-! ### Calls with simple names -/

namespace Call

/-- The name that a type is asked for by is a simple one.  Names of scopes and of types that are only
referred to may be dotted. -/
def NamesSimply : Call → Prop
  | .internType _ name => '.' ∉ name.toList
  | _ => True

/-- A permitted call with simple names leaves simple names without dots. -/
theorem dotlessNames_run {c : Compilation} (h : c.DotlessNames) {call : Call}
    (permitted : call.Permitted c) (simple : call.NamesSimply) : (call.run c).DotlessNames := by
  cases call with
  | internScope parent name => exact h.of_types_eq (Compilation.types_internScope c parent name)
  | internType scope name => exact h.internType scope simple
  | internExternal qualifiedName => exact h.internExternal qualifiedName
  | declare id isPartial => exact h.declare id isPartial
  | setBase id base => exact h.updateType id (fun symbol => { symbol with base }) fun _ => rfl
  | edit id change => exact h.updateType id change fun symbol => (permitted symbol).2

theorem Permitted.knowsParent {c : Compilation} {call : Call} (permitted : call.Permitted c) :
    call.KnowsParent c := by
  cases call with
  | internScope parent name => exact permitted
  | _ => exact trivial

end Call

namespace Compilation

/-- Any number of permitted calls with simple names. -/
def BuildsDotless : Compilation → Compilation → Prop :=
  Relation.ReflTransGen fun c c' =>
    ∃ call : Call, call.Permitted c ∧ call.NamesSimply ∧ c' = call.run c

variable {c c' : Compilation} {id : TypeId} {scope : Option NamespaceId} {name : String}

theorem BuildsDotless.builds (hb : c.BuildsDotless c') : c.Builds c' := by
  refine Relation.ReflTransGen.mono ?_ _ _ hb
  rintro d d' ⟨call, permitted, -, hrun⟩
  exact ⟨call, permitted, hrun⟩

theorem BuildsDotless.buildsScopes (hb : c.BuildsDotless c') : c.BuildsScopes c' := by
  refine Relation.ReflTransGen.mono ?_ _ _ hb
  rintro d d' ⟨call, permitted, -, hrun⟩
  exact ⟨call, permitted.knowsParent, hrun⟩

theorem BuildsDotless.dotlessNames (hb : c.BuildsDotless c') (h : c.DotlessNames) :
    c'.DotlessNames := by
  induction hb with
  | refl => exact h
  | tail _ hstep ih =>
    obtain ⟨call, permitted, simple, rfl⟩ := hstep
    exact call.dotlessNames_run ih permitted simple

/-! ### Where a type stands -/

/-- The type has the given scope and the given simple name. -/
def StandsIn (c : Compilation) (scope : Option NamespaceId) (name : String) (id : TypeId) : Prop :=
  ∃ symbol, c.type? id = some symbol ∧ symbol.scope = scope ∧ symbol.name = name

theorem StandsIn.mem_typeIds (hs : c.StandsIn scope name id) : id ∈ c.typeIds := by
  obtain ⟨symbol, hs, -⟩ := hs
  exact mem_typeIds_of_type? hs

theorem StandsIn.fullName_eq (hs : c.StandsIn scope name id) :
    c.fullName id = c.qualify scope name := by
  obtain ⟨symbol, hs, rfl, rfl⟩ := hs
  rw [fullName, hs]

/-- What is found under the full name of a scope and a simple name is what stands there. -/
theorem lookup?_qualify_eq_some_iff (h : c.Interned) (hi : c.ScopesInterned) (hd : c.DotlessNames)
    (hn : c.ScopesNamed) (known : c.KnowsScope scope) (hdot : '.' ∉ name.toList) :
    c.lookup? (c.qualify scope name) = some id ↔ c.StandsIn scope name id := by
  rw [h.lookup?_eq_some_iff]
  constructor
  · rintro ⟨hid, hname⟩
    obtain ⟨symbol, hs⟩ := exists_type?_of_mem hid
    have hsymbol : c.StandsIn symbol.scope symbol.name id := ⟨symbol, hs, rfl, rfl⟩
    rw [hsymbol.fullName_eq] at hname
    obtain ⟨hscope, hsimple⟩ :=
      hn.qualify_inj hi (h.knowsScope_of_type? hs) known (hd id symbol hs) hdot hname
    exact ⟨symbol, hs, hscope, hsimple⟩
  · intro hstands
    exact ⟨hstands.mem_typeIds, hstands.fullName_eq⟩

/-- In a compilation that is built up from nothing with simple names, and whose scopes all have names,
interning a type by its full name is interning it by its scope and its simple name: it gives a type that
stands there, it gives the one that stood there before and then changes nothing, it makes a type exactly
if there was none, and the types that were there stay as they are. -/
theorem internType_standsIn_spec (hb : BuildsDotless {} c) (hn : c.ScopesNamed)
    (known : c.KnowsScope scope) (hdot : '.' ∉ name.toList) :
    (c.internType scope name).1.StandsIn scope name (c.internType scope name).2 ∧
    (∀ id, c.StandsIn scope name id → c.internType scope name = (c, id)) ∧
    ((c.internType scope name).1.typeIds = c.typeIds ++ [(c.internType scope name).2] ↔
      ∀ id, ¬ c.StandsIn scope name id) ∧
    ((∀ id, ¬ c.StandsIn scope name id) →
      c.internType scope name =
        ({ c with types := c.types ++ [⟨c.qualify scope name, { name, scope }⟩] },
          ⟨c.types.length⟩)) ∧
    ∀ id ∈ c.typeIds, (c.internType scope name).1.type? id = c.type? id := by
  have h := (hb.builds.interned_extends interned_empty).1
  have hi := hb.buildsScopes.scopesInterned scopesInterned_empty
  have hd := hb.dotlessNames dotlessNames_empty
  have hlookup : ∀ id, c.lookup? (c.qualify scope name) = some id ↔ c.StandsIn scope name id :=
    fun _ => lookup?_qualify_eq_some_iff h hi hd hn known hdot
  have hkept : ∀ id ∈ c.typeIds, (c.internType scope name).1.type? id = c.type? id :=
    fun id hid => type?_internType_of_mem scope name hid
  rcases internType_cases c scope name with ⟨found, hfound, heq⟩ | ⟨hnone, heq⟩
  · have hstands := (hlookup found).mp hfound
    refine ⟨heq ▸ hstands, ?_, ?_, ?_, hkept⟩
    · intro id hid
      have hsame := (hlookup id).mpr hid
      rw [hfound] at hsame
      rw [heq, Option.some.inj hsame]
    · rw [heq]
      refine iff_of_false ?_ fun hfree => hfree found hstands
      intro hlonger
      exact absurd (List.self_eq_append_right.mp hlonger) (List.cons_ne_nil _ _)
    · exact fun hfree => absurd hstands (hfree found)
  · have hfree : ∀ id, ¬ c.StandsIn scope name id := by
      intro id hid
      have hsome := (hlookup id).mpr hid
      rw [hnone] at hsome
      cases hsome
    refine ⟨?_, fun id hid => absurd hid (hfree id), ?_, fun _ => heq, hkept⟩
    · rw [heq]
      exact ⟨{ name, scope }, by simp [type?], rfl, rfl⟩
    · rw [heq]
      refine iff_of_true ?_ hfree
      simp [typeIds, List.range_succ]

/-- A class `A.C`, and a class `A.B.D` that is only referred to and is its base. -/
def twoScopes : Compilation :=
  [.internScope none "A.B", .internType (some ⟨0⟩) "C", .internExternal "A.B.D",
    .declare ⟨0⟩ true, .setBase ⟨0⟩ (some ⟨1⟩)].foldl Call.run {}

theorem buildsDotless_twoScopes : BuildsDotless {} twoScopes := by
  have hscopes : BuildsDotless {} (Call.run {} (.internScope none "A.B")) :=
    Relation.ReflTransGen.single ⟨.internScope none "A.B", knowsScope_none _, trivial, rfl⟩
  have known : (Call.run {} (.internScope none "A.B")).KnowsScope (some ⟨0⟩) := by
    rintro id ⟨⟩
    decide +kernel
  have simple : '.' ∉ "C".toList := by decide +kernel
  have htype := hscopes.tail ⟨.internType (some ⟨0⟩) "C", known, simple, rfl⟩
  have hexternal := htype.tail ⟨.internExternal "A.B.D", trivial, trivial, rfl⟩
  have hdeclared := hexternal.tail ⟨.declare ⟨0⟩ true, trivial, trivial, rfl⟩
  exact hdeclared.tail ⟨.setBase ⟨0⟩ (some ⟨1⟩), trivial, trivial, rfl⟩

/-- In `A.B` the class `D` is found, and `C` is a new class besides the one in `A`. -/
theorem internType_standsIn_spec_twoScopes :
    BuildsDotless {} twoScopes ∧ twoScopes.ScopesNamed ∧
      twoScopes.internType (some ⟨1⟩) "D" = (twoScopes, ⟨1⟩) ∧
      (twoScopes.internType (some ⟨1⟩) "C").1.typeIds =
        twoScopes.typeIds ++ [(twoScopes.internType (some ⟨1⟩) "C").2] := by
  have hnamed : twoScopes.ScopesNamed := by
    unfold ScopesNamed
    decide +kernel
  have known : twoScopes.KnowsScope (some ⟨1⟩) := by
    rintro id ⟨⟩
    decide +kernel
  have hclasses : twoScopes.typeIds = [⟨0⟩, ⟨1⟩] := by decide +kernel
  have houter : twoScopes.type? ⟨0⟩ = some { name := "C", scope := some ⟨0⟩, base := some ⟨1⟩ } := by
    decide +kernel
  have hinner : twoScopes.type? ⟨1⟩ = some { name := "D", scope := some ⟨1⟩, isExternal := true } := by
    decide +kernel
  have hfree : ∀ id, ¬ twoScopes.StandsIn (some ⟨1⟩) "C" id := by
    intro id hid
    have hmem := hid.mem_typeIds
    obtain ⟨symbol, hs, hscope, hname⟩ := hid
    rw [hclasses, List.mem_pair] at hmem
    rcases hmem with rfl | rfl
    · cases houter.symm.trans hs
      revert hscope
      decide
    · cases hinner.symm.trans hs
      revert hname
      decide
  have hd : '.' ∉ "D".toList := by decide +kernel
  have hc : '.' ∉ "C".toList := by decide +kernel
  have hfound := internType_standsIn_spec buildsDotless_twoScopes hnamed known hd
  have hmade := internType_standsIn_spec buildsDotless_twoScopes hnamed known hc
  exact ⟨buildsDotless_twoScopes, hnamed, hfound.2.1 ⟨1⟩ ⟨_, hinner, rfl, rfl⟩,
    hmade.2.2.1.mpr hfree⟩

end Compilation

end Companion
