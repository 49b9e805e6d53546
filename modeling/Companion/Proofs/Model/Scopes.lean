import Companion.Model.Interning
import Mathlib.Data.List.Basic

/-!
# Scopes that lie under earlier scopes

A scope is made under one that is there, so the way outwards leads to ever smaller positions.  The
bound on the walk is never felt then, and adding scopes does not change a path.

* `ParentsFirst`: every scope lies under one that was there before it.
* `ParentsFirst.scope_induction`: what passes from a scope to those directly in it holds of all.
* `segmentsOf`: the names on the way to a scope, outermost first.
* `Surround`: the scopes around a place, each of which lies directly in the next one.
* `enclosing_of_keepsScopes`: more scopes leave those around a known scope as they are.
* `internScope_spec`: the scope of a dotted name lies as many levels deeper as the name has segments.
-/

namespace Companion

/-- All segments of a text. -/
def Text.Dotted.allSegments (text : String) : List String :=
  (segments text).1 :: (segments text).2

namespace Compilation

open Text.Dotted

/-- Every scope lies under one that was there before it. -/
def ParentsFirst (c : Compilation) : Prop :=
  ∀ id symbol parent, c.namespace? id = some symbol → symbol.parent = some parent →
    parent.index < id.index

/-- The scope is the global namespace or there. -/
def KnowsScope (c : Compilation) (scope : Option NamespaceId) : Prop :=
  ∀ id ∈ scope, id.index < c.namespaces.length

/-- What was a scope is still the same one, and new ones stand behind. -/
def KeepsScopes (c c' : Compilation) : Prop :=
  c.namespaces <+: c'.namespaces

/-- The names on the way to a scope, outermost first. -/
def segmentsOf (c : Compilation) (id : NamespaceId) : List String :=
  (c.enclosing id).reverse.map (·.2.name)

/-- The names on the way to a scope that may be absent. -/
def segmentsOf? (c : Compilation) (scope : Option NamespaceId) : List String :=
  (scope.map c.segmentsOf).getD []

variable {c c' c'' : Compilation} {id : NamespaceId} {scope : Option NamespaceId}

/-! ### Scopes that are kept -/

theorem KeepsScopes.refl (c : Compilation) : c.KeepsScopes c := List.prefix_refl _

theorem KeepsScopes.of_eq (h : c'.namespaces = c.namespaces) : c.KeepsScopes c' :=
  ⟨[], by rw [List.append_nil, h]⟩

theorem KeepsScopes.trans (h : c.KeepsScopes c') (h' : c'.KeepsScopes c'') : c.KeepsScopes c'' :=
  List.IsPrefix.trans h h'

theorem KeepsScopes.namespace? (h : c.KeepsScopes c') (known : id.index < c.namespaces.length) :
    c'.namespace? id = c.namespace? id := by
  obtain ⟨more, hmore⟩ := h
  rw [Compilation.namespace?, ← hmore, List.getElem?_append_left known]
  rfl

theorem KnowsScope.keep (known : c.KnowsScope scope) (h : c.KeepsScopes c') :
    c'.KnowsScope scope :=
  fun id hid => Nat.lt_of_lt_of_le (known id hid) (List.IsPrefix.length_le h)

theorem knowsScope_none (c : Compilation) : c.KnowsScope none :=
  fun _ h => absurd h (by simp)

theorem index_lt_of_namespace? {symbol : NamespaceSymbol} (h : c.namespace? id = some symbol) :
    id.index < c.namespaces.length :=
  (List.getElem?_eq_some_iff.mp h).1

/-- The scope around a known scope is known. -/
theorem ParentsFirst.knowsScope_parent (h : c.ParentsFirst) {symbol : NamespaceSymbol}
    (hs : c.namespace? id = some symbol) : c.KnowsScope symbol.parent :=
  fun parent hp => Nat.lt_trans (h id symbol parent hs hp) (index_lt_of_namespace? hs)

/-! ### From a scope to those directly in it -/

/-- What passes from a scope to those directly in it, and holds of those that lie in none, holds of
all scopes. -/
theorem ParentsFirst.scope_induction (h : c.ParentsFirst) {motive : NamespaceId → Prop}
    (step : ∀ id symbol, c.namespace? id = some symbol → (∀ parent ∈ symbol.parent, motive parent) →
      motive id) (known : id.index < c.namespaces.length) : motive id := by
  induction hn : id.index using Nat.strongRecOn generalizing id with
  | _ n ih =>
    have hs : c.namespace? id = some c.namespaces[id.index] := List.getElem?_eq_getElem known
    refine step id _ hs ?_
    intro parent hp
    have hlt := h id _ parent hs hp
    exact ih parent.index (by omega) (h.knowsScope_parent hs parent hp) rfl

/-! ### The way outwards -/

/-- A limit above the position of the scope is never reached. -/
theorem enclosingWithin_eq (h : c.ParentsFirst) {limit limit' : Nat} (hl : id.index < limit)
    (hl' : id.index < limit') : c.enclosingWithin limit id = c.enclosingWithin limit' id := by
  induction limit generalizing id limit' with
  | zero => exact absurd hl (Nat.not_lt_zero _)
  | succ limit ih =>
    obtain ⟨limit', rfl⟩ : ∃ k, limit' = k + 1 := Nat.exists_eq_succ_of_ne_zero (by omega)
    rw [enclosingWithin, enclosingWithin]
    cases hs : c.namespace? id with
    | none => rfl
    | some symbol =>
      cases hp : symbol.parent with
      | none => simp only [hp]
      | some parent =>
        have hlt := h id symbol parent hs hp
        have hrest : c.enclosingWithin limit parent = c.enclosingWithin limit' parent :=
          ih (by omega) (by omega)
        simp only [hp]
        rw [hrest]

theorem enclosingWithin_of_keepsScopes (h : c.ParentsFirst) (hk : c.KeepsScopes c')
    (known : id.index < c.namespaces.length) (limit : Nat) :
    c'.enclosingWithin limit id = c.enclosingWithin limit id := by
  induction limit generalizing id with
  | zero => rfl
  | succ limit ih =>
    rw [enclosingWithin, enclosingWithin, hk.namespace? known]
    cases hs : c.namespace? id with
    | none => rfl
    | some symbol =>
      cases hp : symbol.parent with
      | none => simp only [hp]
      | some parent =>
        simp only [hp]
        rw [ih (h.knowsScope_parent hs parent hp)]

/-- The way outwards from a scope goes on at the scope around it. -/
theorem enclosing_eq (h : c.ParentsFirst) {symbol : NamespaceSymbol}
    (hs : c.namespace? id = some symbol) :
    c.enclosing id = (id, symbol) :: (symbol.parent.map c.enclosing).getD [] := by
  have hid := index_lt_of_namespace? hs
  obtain ⟨limit, hlimit⟩ : ∃ k, c.namespaces.length = k + 1 :=
    Nat.exists_eq_succ_of_ne_zero (by omega)
  rw [enclosing, hlimit, enclosingWithin, hs]
  cases hp : symbol.parent with
  | none => simp [hp]
  | some parent =>
    have hlt := h id symbol parent hs hp
    have hrest : c.enclosingWithin limit parent = c.enclosing parent :=
      enclosingWithin_eq h (by omega) (by omega)
    simp only [hp, Option.map_some, Option.getD_some]
    rw [hrest]

/-- More scopes leave those around a known scope as they are. -/
theorem enclosing_of_keepsScopes (h : c.ParentsFirst) (hk : c.KeepsScopes c')
    (known : id.index < c.namespaces.length) : c'.enclosing id = c.enclosing id := by
  have hlen : c.namespaces.length ≤ c'.namespaces.length := List.IsPrefix.length_le hk
  rw [enclosing, enclosingWithin_of_keepsScopes h hk known, enclosing]
  exact enclosingWithin_eq h (by omega) known

/-- The scopes around a place, innermost first.  Each of them lies directly in the next one, and the
last one in none. -/
inductive Surround (c : Compilation) : Option NamespaceId → List NamespaceId → Prop
  | nowhere : Surround c none []
  | inside {id : NamespaceId} {symbol : NamespaceSymbol} {outer : List NamespaceId}
      (known : c.namespace? id = some symbol) (around : Surround c symbol.parent outer) :
      Surround c (some id) (id :: outer)

/-- Around every known place there are scopes, and they are those on the way outwards. -/
theorem surround_iff (h : c.ParentsFirst) (known : c.KnowsScope scope) {scopes : List NamespaceId} :
    c.Surround scope scopes ↔ scopes = ((scope.map c.enclosing).getD []).map (·.1) := by
  constructor
  · intro hsurround
    induction hsurround with
    | nowhere => rfl
    | @inside id symbol outer hs _ ih =>
      have houter := ih (h.knowsScope_parent hs)
      rw [Option.map_some, Option.getD_some, enclosing_eq h hs, List.map_cons, ← houter]
  · rintro rfl
    cases scope with
    | none => exact .nowhere
    | some id =>
      apply h.scope_induction (motive := fun id => c.Surround (some id) _) ?_ (known id rfl)
      intro id symbol hs ih
      rw [Option.map_some, Option.getD_some, enclosing_eq h hs, List.map_cons]
      refine .inside hs ?_
      cases hp : symbol.parent with
      | none => exact .nowhere
      | some parent => exact ih parent hp

/-! ### Paths -/

theorem pathOf?_eq_joined (c : Compilation) (scope : Option NamespaceId) :
    c.pathOf? scope = joined (c.segmentsOf? scope) := by
  cases scope with
  | none => rfl
  | some id => rfl

theorem segmentsOf_eq (h : c.ParentsFirst) {symbol : NamespaceSymbol}
    (hs : c.namespace? id = some symbol) :
    c.segmentsOf id = c.segmentsOf? symbol.parent ++ [symbol.name] := by
  rw [segmentsOf, enclosing_eq h hs]
  cases hp : symbol.parent with
  | none => simp [segmentsOf?]
  | some parent => simp [segmentsOf?, segmentsOf]

theorem segmentsOf?_of_keepsScopes (h : c.ParentsFirst) (hk : c.KeepsScopes c')
    (known : c.KnowsScope scope) : c'.segmentsOf? scope = c.segmentsOf? scope := by
  cases scope with
  | none => rfl
  | some id =>
    simp only [segmentsOf?, Option.map_some, Option.getD_some, segmentsOf]
    rw [enclosing_of_keepsScopes h hk (known id rfl)]

theorem qualify_of_keepsScopes (h : c.ParentsFirst) (hk : c.KeepsScopes c')
    (known : c.KnowsScope scope) (name : String) :
    c'.qualify scope name = c.qualify scope name := by
  simp only [qualify, pathOf?_eq_joined, segmentsOf?_of_keepsScopes h hk known]

/-! ### Interning scopes -/

/-- What interning a run of names under a scope comes to. -/
structure ScopeInterned (c : Compilation) (parent : Option NamespaceId) (names : List String)
    (result : Compilation × NamespaceId) : Prop where
  keepsScopes : c.KeepsScopes result.1
  parentsFirst : result.1.ParentsFirst
  known : result.2.index < result.1.namespaces.length
  segments : result.1.segmentsOf result.2 = c.segmentsOf? parent ++ names
  declarations : result.1.declarations = c.declarations

theorem ScopeInterned.knowsScope {parent : Option NamespaceId} {names : List String}
    {result : Compilation × NamespaceId} (h : ScopeInterned c parent names result) :
    result.1.KnowsScope (some result.2) := by
  rintro id ⟨⟩
  exact h.known

theorem parentsFirst_append (h : c.ParentsFirst) (known : c.KnowsScope scope) (name : String) :
    ({ c with namespaces := c.namespaces ++ [⟨name, scope⟩] } : Compilation).ParentsFirst := by
  intro id symbol parent hs hp
  by_cases hid : id.index < c.namespaces.length
  · rw [namespace?, List.getElem?_append_left hid] at hs
    exact h id symbol parent hs hp
  · have hlast := index_lt_of_namespace? hs
    rw [List.length_append, List.length_singleton] at hlast
    have hnew : id.index = c.namespaces.length := by omega
    rw [namespace?, hnew, List.getElem?_concat_length, Option.some.injEq] at hs
    subst hs
    exact hnew ▸ known parent hp

theorem internSegment_spec (h : c.ParentsFirst) (known : c.KnowsScope scope) (name : String) :
    ScopeInterned c scope [name] (c.internSegment scope name) := by
  cases hf : c.scopeIn? scope name with
  | some id =>
    rw [internSegment, hf]
    rw [scopeIn?, Option.map_eq_some_iff] at hf
    obtain ⟨i, hi, rfl⟩ := hf
    obtain ⟨hlt, hmatch, -⟩ := List.findIdx?_eq_some_iff_getElem.mp hi
    simp only [Bool.and_eq_true, decide_eq_true_eq] at hmatch
    have hs : c.namespace? ⟨i⟩ = some c.namespaces[i] := List.getElem?_eq_getElem hlt
    refine ⟨KeepsScopes.refl c, h, hlt, ?_, rfl⟩
    rw [segmentsOf_eq h hs, hmatch.1, hmatch.2]
  | none =>
    rw [internSegment, hf]
    have hfirst := parentsFirst_append h known name
    have hkeeps : c.KeepsScopes { c with namespaces := c.namespaces ++ [⟨name, scope⟩] } :=
      List.prefix_append _ _
    have hs : ({ c with namespaces := c.namespaces ++ [⟨name, scope⟩] } : Compilation).namespace?
        ⟨c.namespaces.length⟩ = some ⟨name, scope⟩ := by
      rw [namespace?, List.getElem?_concat_length]
    refine ⟨hkeeps, hfirst, by simp, ?_, rfl⟩
    rw [segmentsOf_eq hfirst hs, segmentsOf?_of_keepsScopes h hkeeps known]

theorem internSegments_spec (h : c.ParentsFirst) (known : c.KnowsScope scope) (first : String)
    (rest : List String) :
    ScopeInterned c scope (first :: rest) (c.internSegments scope first rest) := by
  induction rest generalizing c scope first with
  | nil => exact internSegment_spec h known first
  | cons next rest ih =>
    have hone := internSegment_spec h known first
    have hmore := ih hone.parentsFirst hone.knowsScope next
    refine ⟨hone.keepsScopes.trans hmore.keepsScopes, hmore.parentsFirst, hmore.known, ?_,
      hmore.declarations.trans hone.declarations⟩
    have hsegments := hmore.segments
    rw [segmentsOf?, Option.map_some, Option.getD_some, hone.segments, List.append_assoc] at hsegments
    exact hsegments

/-- The scope of a dotted name lies under `scope`, one level deeper for each segment. -/
theorem internScope_spec (h : c.ParentsFirst) (known : c.KnowsScope scope) (name : String) :
    ScopeInterned c scope (allSegments name) (c.internScope scope name) :=
  internSegments_spec h known _ _

end Compilation

end Companion
