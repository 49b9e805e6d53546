import Companion.Proofs.Model.Calls
import Companion.Proofs.Model.Symbols

/-!
# Paths of scopes

A dotted name opens one scope for each of its segments, and the path of a scope joins the names on
the way to it.  Scopes are interned, so the two undo each other.

* `ScopesInterned`: every scope lies under an earlier one, no name holds a dot, and no two scopes
  are alike.
* `ScopesInterned.internScope_pathOf`: interning the path of a scope finds the scope again.
* `internScope_append`: a dotted name is interned part by part.
* `pathOf_internScope_none`, `pathOf_internScope_some`: the scope of a dotted name has that name for
  its path, behind the path of the scope that it is made in.
* `BuildsScopes`: what calls make of a compilation if they make scopes under known ones only.
* `scopePaths_spec`: in what is built in this way, interning names and asking for paths undo each
  other.
-/

namespace Companion

theorem NamespaceSymbol.eq_of_name_of_parent {a b : NamespaceSymbol} (hn : a.name = b.name)
    (hp : a.parent = b.parent) : a = b := by
  obtain ⟨name, parent⟩ := a
  obtain ⟨name', parent'⟩ := b
  obtain rfl : name = name' := hn
  obtain rfl : parent = parent' := hp
  rfl

namespace Compilation

open Text.Dotted

variable {c : Compilation} {id : NamespaceId} {scope : Option NamespaceId}

/-! ### Interned scopes -/

/-- Every scope lies under an earlier one, no name holds a dot, and no two scopes have the same name
directly under the same scope. -/
structure ScopesInterned (c : Compilation) : Prop where
  parentsFirst : c.ParentsFirst
  dotless : ∀ symbol ∈ c.namespaces, '.' ∉ symbol.name.toList
  distinct : c.namespaces.Nodup

theorem scopesInterned_empty : ({} : Compilation).ScopesInterned :=
  ⟨interned_empty.parentsFirst, by simp, List.nodup_nil⟩

/-- Only the scopes count. -/
theorem ScopesInterned.of_namespaces_eq {c' : Compilation} (h : c.ScopesInterned)
    (he : c'.namespaces = c.namespaces) : c'.ScopesInterned := by
  refine ⟨?_, he ▸ h.dotless, he ▸ h.distinct⟩
  intro id symbol parent hs
  rw [namespace?, he] at hs
  exact h.parentsFirst id symbol parent hs

theorem ScopesInterned.scopeIn?_eq (h : c.ScopesInterned) {symbol : NamespaceSymbol}
    (hs : c.namespace? id = some symbol) : c.scopeIn? symbol.parent symbol.name = some id := by
  obtain ⟨hlt, hget⟩ := List.getElem?_eq_some_iff.mp hs
  rw [scopeIn?, Option.map_eq_some_iff]
  refine ⟨id.index, ?_, rfl⟩
  rw [List.findIdx?_eq_some_iff_getElem]
  refine ⟨hlt, by simp [hget], ?_⟩
  intro j hj
  simp only [Bool.and_eq_true, decide_eq_true_eq, not_and]
  intro hparent hname
  -- An earlier scope with this name under this scope would be the same one.
  have hsame : c.namespaces[j] = c.namespaces[id.index] := by
    rw [hget]
    exact NamespaceSymbol.eq_of_name_of_parent hname hparent
  have hji := (List.Nodup.getElem_inj_iff h.distinct).mp hsame
  omega

/-- A segment that is there is found. -/
theorem ScopesInterned.internSegment_eq (h : c.ScopesInterned) {symbol : NamespaceSymbol}
    (hs : c.namespace? id = some symbol) :
    c.internSegment symbol.parent symbol.name = (c, id) := by
  rw [internSegment, h.scopeIn?_eq hs]

/-! ### Making scopes -/

theorem ScopesInterned.internSegment (h : c.ScopesInterned) (known : c.KnowsScope scope)
    {name : String} (hname : '.' ∉ name.toList) : (c.internSegment scope name).1.ScopesInterned := by
  cases hf : c.scopeIn? scope name with
  | some id =>
    rw [Compilation.internSegment, hf]
    exact h
  | none =>
    have hfresh : (⟨name, scope⟩ : NamespaceSymbol) ∉ c.namespaces := by
      intro hmem
      rw [scopeIn?, Option.map_eq_none_iff, List.findIdx?_eq_none_iff] at hf
      simpa using hf _ hmem
    rw [Compilation.internSegment, hf]
    refine ⟨parentsFirst_append h.parentsFirst known name, ?_, ?_⟩
    · intro symbol hmem
      rcases List.mem_append.mp hmem with hold | hnew
      · exact h.dotless symbol hold
      · rw [List.mem_singleton.mp hnew]
        exact hname
    · show (c.namespaces ++ [(⟨name, scope⟩ : NamespaceSymbol)]).Nodup
      rw [← List.concat_eq_append, List.nodup_concat]
      exact ⟨hfresh, h.distinct⟩

theorem ScopesInterned.internSegments (h : c.ScopesInterned) (known : c.KnowsScope scope)
    {first : String} {rest : List String} (hnames : ∀ name ∈ first :: rest, '.' ∉ name.toList) :
    (c.internSegments scope first rest).1.ScopesInterned := by
  induction rest generalizing c scope first with
  | nil => exact h.internSegment known (hnames first List.mem_cons_self)
  | cons next rest ih =>
    rw [List.forall_mem_cons] at hnames
    have hone := internSegment_spec h.parentsFirst known first
    exact ih (h.internSegment known hnames.1) hone.knowsScope hnames.2

theorem ScopesInterned.internScope (h : c.ScopesInterned) (known : c.KnowsScope scope)
    (name : String) : (c.internScope scope name).1.ScopesInterned :=
  h.internSegments known (not_mem_segments name)

theorem namespaces_internExternal (c : Compilation) (qualifiedName : String) :
    (c.internExternal qualifiedName).1.namespaces = (c.internQualifier qualifiedName).1.namespaces := by
  rw [internExternal_eq]
  dsimp only
  rw [namespaces_updateType, namespaces_internType]

theorem ScopesInterned.internExternal (h : c.ScopesInterned) (qualifiedName : String) :
    (c.internExternal qualifiedName).1.ScopesInterned := by
  have hqualifier : (c.internQualifier qualifiedName).1.ScopesInterned := by
    unfold internQualifier
    cases Text.Dotted.splitLast? qualifiedName with
    | none => exact h
    | some parts => exact h.internScope (knowsScope_none c) parts.1
  exact hqualifier.of_namespaces_eq (namespaces_internExternal c qualifiedName)

/-! ### From a path to its scope -/

/-- Further segments are interned under the scope of those before them. -/
theorem internSegments_append (c : Compilation) (scope : Option NamespaceId) (first : String)
    (rest : List String) (next : String) (more : List String) :
    c.internSegments scope first (rest ++ next :: more) =
      (c.internSegments scope first rest).1.internSegments
        (some (c.internSegments scope first rest).2) next more := by
  induction rest generalizing c scope first with
  | nil => rfl
  | cons following rest ih => exact ih _ _ following

/-- Interning a name behind another one is interning it in the scope of the other one. -/
theorem internScope_append (c : Compilation) (scope : Option NamespaceId) (front back : String) :
    c.internScope scope (front ++ "." ++ back) =
      (c.internScope scope front).1.internScope (some (c.internScope scope front).2) back := by
  rw [internScope, segments_append]
  exact internSegments_append c scope _ _ _ _

/-- The names on the way to a scope hold no dot, and interning them one under the other leads to
the scope. -/
theorem ScopesInterned.internSegments_segmentsOf (h : c.ScopesInterned)
    (known : id.index < c.namespaces.length) :
    ∃ first rest, c.segmentsOf id = first :: rest ∧
      (∀ name ∈ first :: rest, '.' ∉ name.toList) ∧
        c.internSegments none first rest = (c, id) := by
  apply h.parentsFirst.scope_induction (motive := fun id => ∃ first rest,
    c.segmentsOf id = first :: rest ∧ (∀ name ∈ first :: rest, '.' ∉ name.toList) ∧
      c.internSegments none first rest = (c, id)) ?_ known
  intro id symbol hs ih
  have hsegments := segmentsOf_eq h.parentsFirst hs
  have hdotless := h.dotless symbol (List.mem_of_getElem? hs)
  have hfound := h.internSegment_eq hs
  cases hp : symbol.parent with
  | none =>
    rw [hp] at hsegments hfound
    refine ⟨symbol.name, [], hsegments, ?_, hfound⟩
    intro name hname
    rw [List.mem_singleton.mp hname]
    exact hdotless
  | some parent =>
    rw [hp] at hsegments hfound
    obtain ⟨first, rest, houter, hnames, hback⟩ := ih parent hp
    refine ⟨first, rest ++ [symbol.name], ?_, ?_, ?_⟩
    · rw [hsegments]
      show c.segmentsOf parent ++ [symbol.name] = _
      rw [houter, List.cons_append]
    · intro name hname
      rw [← List.cons_append, List.mem_append, List.mem_singleton] at hname
      rcases hname with hname | rfl
      · exact hnames name hname
      · exact hdotless
    · rw [internSegments_append, hback]
      exact hfound

/-- Interning the path of a scope finds the scope again, and adds nothing. -/
theorem ScopesInterned.internScope_pathOf (h : c.ScopesInterned)
    (known : id.index < c.namespaces.length) : c.internScope none (c.pathOf id) = (c, id) := by
  obtain ⟨first, rest, hsegments, hnames, hback⟩ := h.internSegments_segmentsOf known
  have hpath : c.pathOf id = joined (first :: rest) := by
    rw [← hsegments]
    rfl
  rw [Compilation.internScope, hpath, segments_joined hnames]
  exact hback

/-! ### From a name to its path -/

theorem joined_append {front back : List String} (hf : front ≠ []) (hb : back ≠ []) :
    joined (front ++ back) = joined front ++ "." ++ joined back :=
  String.intercalate_append_of_ne_nil hf hb

theorem segmentsOf_ne_nil (h : c.ParentsFirst) (known : id.index < c.namespaces.length) :
    c.segmentsOf id ≠ [] := by
  rw [segmentsOf_eq h (List.getElem?_eq_getElem known)]
  exact List.append_ne_nil_of_right_ne_nil _ (List.cons_ne_nil _ _)

/-- The scope of a dotted name that lies in no other scope has that name for its path. -/
theorem pathOf_internScope_none (h : c.ParentsFirst) (name : String) :
    (c.internScope none name).1.pathOf (c.internScope none name).2 = name := by
  have hspec := internScope_spec h (knowsScope_none c) name
  show joined ((c.internScope none name).1.segmentsOf _) = name
  rw [hspec.segments]
  exact joined_segments name

/-- More scopes leave the path of a known one as it is. -/
theorem pathOf_of_keepsScopes {c' : Compilation} (h : c.ParentsFirst) (hk : c.KeepsScopes c')
    (known : id.index < c.namespaces.length) : c'.pathOf id = c.pathOf id := by
  rw [pathOf, enclosing_of_keepsScopes h hk known, pathOf]

/-- The scope of a dotted name in another scope has that name behind the path of the other one. -/
theorem pathOf_internScope_some (h : c.ParentsFirst) (known : id.index < c.namespaces.length)
    (name : String) :
    (c.internScope (some id) name).1.pathOf (c.internScope (some id) name).2 =
        c.pathOf id ++ "." ++ name ∧
      (c.internScope (some id) name).1.pathOf id = c.pathOf id := by
  have hknown : c.KnowsScope (some id) := by
    rintro _ ⟨⟩
    exact known
  have hspec := internScope_spec h hknown name
  refine ⟨?_, pathOf_of_keepsScopes h hspec.keepsScopes known⟩
  show joined ((c.internScope (some id) name).1.segmentsOf _) = _
  rw [hspec.segments]
  have hne : allSegments name ≠ [] := List.cons_ne_nil _ _
  calc joined (c.segmentsOf id ++ allSegments name)
      = joined (c.segmentsOf id) ++ "." ++ joined (allSegments name) :=
        joined_append (segmentsOf_ne_nil h known) hne
    _ = c.pathOf id ++ "." ++ name := congrArg (_ ++ "." ++ ·) (joined_segments name)

end Compilation

/-! ### Calls that make scopes under known ones -/

/-- A call that makes scopes names a known one, or none, to make them in.  All else that a call does
is free. -/
def Call.KnowsParent (c : Compilation) : Call → Prop
  | .internScope parent _ => c.KnowsScope parent
  | _ => True

/-- Such a call keeps the scopes interned. -/
theorem Call.scopesInterned_run {c : Compilation} (h : c.ScopesInterned) {call : Call}
    (hcall : call.KnowsParent c) : (call.run c).ScopesInterned := by
  cases call with
  | internScope parent name => exact h.internScope hcall name
  | internType scope name =>
    exact h.of_namespaces_eq (Compilation.namespaces_internType c scope name)
  | internExternal qualifiedName => exact h.internExternal qualifiedName
  | declare id isPartial =>
    show (c.declare id isPartial).1.ScopesInterned
    unfold Compilation.declare
    cases c.type? id with
    | none => exact h
    | some symbol => exact h.of_namespaces_eq rfl
  | setBase id base => exact h.of_namespaces_eq rfl
  | edit id change => exact h.of_namespaces_eq rfl

namespace Compilation

/-- Any number of calls that make scopes under known ones only. -/
def BuildsScopes : Compilation → Compilation → Prop :=
  Relation.ReflTransGen fun c c' => ∃ call : Call, call.KnowsParent c ∧ c' = call.run c

variable {c c' : Compilation}

theorem BuildsScopes.scopesInterned (hb : c.BuildsScopes c') (h : c.ScopesInterned) :
    c'.ScopesInterned := by
  induction hb with
  | refl => exact h
  | tail _ hstep ih =>
    obtain ⟨call, hcall, rfl⟩ := hstep
    exact call.scopesInterned_run ih hcall

/-- In a compilation that is built up from nothing, interning the path of a scope finds this scope
and changes nothing, and the scope of a dotted name has that name for its path, behind the path of
the scope that it is made in, which keeps its own. -/
theorem scopePaths_spec (hb : BuildsScopes {} c) :
    (∀ id : NamespaceId, id.index < c.namespaces.length →
      c.internScope none (c.pathOf id) = (c, id)) ∧
    (∀ name, (c.internScope none name).1.pathOf (c.internScope none name).2 = name) ∧
    ∀ parent : NamespaceId, parent.index < c.namespaces.length → ∀ name,
      (c.internScope (some parent) name).1.pathOf (c.internScope (some parent) name).2 =
          c.pathOf parent ++ "." ++ name ∧
        (c.internScope (some parent) name).1.pathOf parent = c.pathOf parent := by
  have h := hb.scopesInterned scopesInterned_empty
  refine ⟨?_, ?_, ?_⟩
  · intro id known
    exact h.internScope_pathOf known
  · intro name
    exact pathOf_internScope_none h.parentsFirst name
  · intro parent known name
    exact pathOf_internScope_some h.parentsFirst known name

/-- The scopes of `A..B`, of which the middle one has no name, and those of a class `X.Y.Z`. -/
def gappedScopes : Compilation :=
  Call.run (Call.run {} (.internScope none "A..B")) (.internExternal "X.Y.Z")

theorem buildsScopes_gappedScopes : BuildsScopes {} gappedScopes := by
  have hscopes : BuildsScopes {} (Call.run {} (.internScope none "A..B")) :=
    Relation.ReflTransGen.single ⟨.internScope none "A..B", knowsScope_none _, rfl⟩
  exact hscopes.tail ⟨.internExternal "X.Y.Z", trivial, rfl⟩

/-- Dots that meet and dots at an end count like all others. -/
theorem scopePaths_spec_gappedScopes :
    BuildsScopes {} gappedScopes ∧
      gappedScopes.internScope none "A..B" = (gappedScopes, ⟨2⟩) ∧
      (gappedScopes.internScope none ".").1.pathOf (gappedScopes.internScope none ".").2 = "." ∧
      (gappedScopes.internScope (some ⟨1⟩) ".C").1.pathOf
        (gappedScopes.internScope (some ⟨1⟩) ".C").2 = "A...C" := by
  obtain ⟨hback, hname, hbehind⟩ := scopePaths_spec buildsScopes_gappedScopes
  have hpath : gappedScopes.pathOf ⟨2⟩ = "A..B" := by decide +kernel
  have hparent : gappedScopes.pathOf ⟨1⟩ ++ "." ++ ".C" = "A...C" := by decide +kernel
  refine ⟨buildsScopes_gappedScopes, ?_, hname ".", ?_⟩
  · rw [← hpath]
    exact hback ⟨2⟩ (by decide +kernel)
  · rw [← hparent]
    exact (hbehind ⟨1⟩ (by decide +kernel) ".C").1

end Compilation

end Companion
