import Companion.Proofs.Model.Calls
import Companion.Proofs.Model.Symbols

/-!
# Compilations that grow

Calls that name only what is there keep a compilation closed: no link leads out of it.  Calls that
edit no type of a compilation add to it and leave it alone.

* `Closed`: all scopes, bases and declared types are there.
* `Call.KnowsIds`: the scopes and bases that a call names are there.
* `BuildsClosed.closed`: what is built up by such calls is closed.
* `Keeps`: a compilation holds another one, up to which of its types are external.
* `Call.Spares`: a call edits no type of a compilation.
* `Grows.keeps`: any number of such calls keeps the compilation.
-/

namespace Companion

namespace Compilation

variable {c c' d : Compilation} {id : TypeId} {scope : Option NamespaceId}

/-! ### Closed compilations -/

/-- No link leads out of the compilation, and scopes lie under earlier scopes. -/
structure Closed (c : Compilation) : Prop where
  parentsFirst : c.ParentsFirst
  knowsScope : ∀ id symbol, c.type? id = some symbol → c.KnowsScope symbol.scope
  knowsBase : ∀ id symbol, c.type? id = some symbol → ∀ base ∈ symbol.base, base ∈ c.typeIds
  knowsType : ∀ declaration ∈ c.declarations, declaration.type ∈ c.typeIds

theorem closed_empty : ({} : Compilation).Closed := by
  refine ⟨interned_empty.parentsFirst, ?_, ?_, ?_⟩
  · intro id symbol hs
    simp [type?] at hs
  · intro id symbol hs
    simp [type?] at hs
  · intro declaration hd
    simp at hd

theorem typeIds_of_length_eq (h : c'.types.length = c.types.length) : c'.typeIds = c.typeIds := by
  rw [typeIds, h, typeIds]

/-- More scopes leave a compilation closed. -/
theorem Closed.of_types_eq (h : c.Closed) (hf : c'.ParentsFirst) (hk : c.KeepsScopes c')
    (ht : c'.types = c.types) (hd : c'.declarations = c.declarations) : c'.Closed := by
  have hids : c'.typeIds = c.typeIds := typeIds_of_length_eq (by rw [ht])
  refine ⟨hf, ?_, ?_, ?_⟩
  · intro id symbol hs
    rw [type?_of_types_eq ht] at hs
    exact (h.knowsScope id symbol hs).keep hk
  · intro id symbol hs
    rw [type?_of_types_eq ht] at hs
    rw [hids]
    exact h.knowsBase id symbol hs
  · rw [hd, hids]
    exact h.knowsType

theorem Closed.internScope (h : c.Closed) (known : c.KnowsScope scope) (name : String) :
    (c.internScope scope name).1.Closed := by
  have hspec := internScope_spec h.parentsFirst known name
  exact h.of_types_eq hspec.parentsFirst hspec.keepsScopes (types_internScope c scope name)
    (declarations_internScope c scope name)

theorem Closed.internQualifier (h : c.Closed) (qualifiedName : String) :
    (c.internQualifier qualifiedName).1.Closed ∧
      (c.internQualifier qualifiedName).1.KnowsScope (c.internQualifier qualifiedName).2.1 := by
  unfold Compilation.internQualifier
  cases Text.Dotted.splitLast? qualifiedName with
  | none => exact ⟨h, knowsScope_none c⟩
  | some parts =>
    have hspec := internScope_spec h.parentsFirst (knowsScope_none c) parts.1
    exact ⟨h.internScope (knowsScope_none c) parts.1, hspec.knowsScope⟩

/-- A type may change if it leads to what is there afterwards. -/
theorem Closed.updateType (h : c.Closed) (id : TypeId) (change : TypeSymbol → TypeSymbol)
    (hlinks : ∀ symbol, c.type? id = some symbol →
      c.KnowsScope (change symbol).scope ∧ ∀ base ∈ (change symbol).base, base ∈ c.typeIds) :
    (c.updateType id change).Closed := by
  have hids : (c.updateType id change).typeIds = c.typeIds :=
    typeIds_of_length_eq (length_types_updateType c id change)
  have hchanged : ∀ other symbol, (c.updateType id change).type? other = some symbol →
      c.KnowsScope symbol.scope ∧ ∀ base ∈ symbol.base, base ∈ c.typeIds := by
    intro other symbol hs
    rw [type?_updateType] at hs
    split at hs
    · next he =>
      subst he
      obtain ⟨previous, hprevious, rfl⟩ := Option.map_eq_some_iff.mp hs
      exact hlinks previous hprevious
    · exact ⟨h.knowsScope other symbol hs, h.knowsBase other symbol hs⟩
  refine ⟨h.parentsFirst, ?_, ?_, ?_⟩
  · intro other symbol hs
    exact (hchanged other symbol hs).1
  · intro other symbol hs
    rw [hids]
    exact (hchanged other symbol hs).2
  · rw [hids]
    exact h.knowsType

/-- A mark on a type leaves its links alone. -/
theorem Closed.mark (h : c.Closed) (id : TypeId) (isExternal : Bool) :
    (c.updateType id fun symbol => { symbol with isExternal }).Closed :=
  h.updateType id _ fun symbol hs => ⟨h.knowsScope id symbol hs, h.knowsBase id symbol hs⟩

/-- A type that is made lies in a known scope and has no base. -/
theorem Closed.internType (h : c.Closed) (known : c.KnowsScope scope) (name : String) :
    (c.internType scope name).1.Closed := by
  have hscopes := namespaces_internType c scope name
  have hkeeps : c.KeepsScopes (c.internType scope name).1 := KeepsScopes.of_eq hscopes
  have hfirst : (c.internType scope name).1.ParentsFirst := by
    intro id symbol parent hs
    rw [namespace?, hscopes] at hs
    exact h.parentsFirst id symbol parent hs
  have hids : ∀ id ∈ c.typeIds, id ∈ (c.internType scope name).1.typeIds := by
    intro id hid
    obtain ⟨symbol, hs⟩ := exists_type?_of_mem hid
    exact mem_typeIds_of_type? ((type?_internType_of_mem scope name hid).trans hs)
  have hlinks : ∀ id symbol, (c.internType scope name).1.type? id = some symbol →
      c.KnowsScope symbol.scope ∧ ∀ base ∈ symbol.base, base ∈ c.typeIds := by
    intro id symbol hs
    rw [type?_internType] at hs
    cases hold : c.type? id with
    | some previous =>
      rw [hold, Option.getD_some, ite_self, Option.some.injEq] at hs
      rw [← hs]
      exact ⟨h.knowsScope id previous hold, h.knowsBase id previous hold⟩
    | none =>
      rw [hold, Option.getD_none] at hs
      split at hs
      · cases hs
        exact ⟨known, fun base hbase => absurd hbase (by simp)⟩
      · cases hs
  refine ⟨hfirst, ?_, ?_, ?_⟩
  · intro id symbol hs
    exact (hlinks id symbol hs).1.keep hkeeps
  · intro id symbol hs base hbase
    exact hids base ((hlinks id symbol hs).2 base hbase)
  · rw [declarations_internType]
    intro declaration hd
    exact hids _ (h.knowsType declaration hd)

theorem Closed.internExternal (h : c.Closed) (qualifiedName : String) :
    (c.internExternal qualifiedName).1.Closed := by
  obtain ⟨hclosed, hknown⟩ := h.internQualifier qualifiedName
  rw [internExternal_eq]
  exact (hclosed.internType hknown _).mark _ true

theorem Closed.declare (h : c.Closed) (id : TypeId) (isPartial : Bool) :
    (c.declare id isPartial).1.Closed := by
  unfold Compilation.declare
  cases hs : c.type? id with
  | none => exact h
  | some symbol =>
    have hmarked := h.mark id false
    have hid : id ∈ (c.updateType id fun symbol => { symbol with isExternal := false }).typeIds := by
      rw [typeIds_of_length_eq (length_types_updateType c id _)]
      exact mem_typeIds_of_type? hs
    refine ⟨hmarked.parentsFirst, hmarked.knowsScope, hmarked.knowsBase, ?_⟩
    intro declaration hd
    rcases List.mem_append.mp hd with hold | hnew
    · exact hmarked.knowsType declaration hold
    · rw [List.mem_singleton.mp hnew]
      exact hid

end Compilation

/-! ### Calls that name what is there -/

/-- The scopes and the bases that a call names, or makes a type lead to, are there. -/
def Call.KnowsIds (c : Compilation) : Call → Prop
  | .internScope parent _ => c.KnowsScope parent
  | .internType scope _ => c.KnowsScope scope
  | .internExternal _ => True
  | .declare _ _ => True
  | .setBase _ base => ∀ id ∈ base, id ∈ c.typeIds
  | .edit id change => ∀ symbol, c.type? id = some symbol →
      c.KnowsScope (change symbol).scope ∧ ∀ base ∈ (change symbol).base, base ∈ c.typeIds

theorem Call.closed_run {c : Compilation} (h : c.Closed) {call : Call} (hcall : call.KnowsIds c) :
    (call.run c).Closed := by
  cases call with
  | internScope parent name => exact h.internScope hcall name
  | internType scope name => exact h.internType hcall name
  | internExternal qualifiedName => exact h.internExternal qualifiedName
  | declare id isPartial => exact h.declare id isPartial
  | setBase id base =>
    exact h.updateType id (fun symbol => { symbol with base }) fun symbol hs =>
      ⟨h.knowsScope id symbol hs, hcall⟩
  | edit id change => exact h.updateType id change hcall

namespace Compilation

variable {c c' d : Compilation} {id : TypeId} {scope : Option NamespaceId}

/-- Any number of calls that name only what is there. -/
def BuildsClosed : Compilation → Compilation → Prop :=
  Relation.ReflTransGen fun c c' => ∃ call : Call, call.KnowsIds c ∧ c' = call.run c

/-- What is built up by calls that name only what is there is closed. -/
theorem BuildsClosed.closed (hb : c.BuildsClosed c') (h : c.Closed) : c'.Closed := by
  induction hb with
  | refl => exact h
  | tail _ hstep ih =>
    obtain ⟨call, hcall, rfl⟩ := hstep
    exact call.closed_run ih hcall

/-! ### Compilations that hold another one -/

/-- All of a compilation is still there, up to which of its types are external, and what is new
stands behind it. -/
structure Keeps (c c' : Compilation) : Prop where
  scopes : c.KeepsScopes c'
  symbols : ∀ id symbol, c.type? id = some symbol →
    ∃ isExternal, c'.type? id = some { symbol with isExternal }
  declarations : c.declarations <+: c'.declarations

theorem Keeps.refl (c : Compilation) : c.Keeps c :=
  ⟨KeepsScopes.refl c, fun _ symbol hs => ⟨symbol.isExternal, hs⟩, List.prefix_refl _⟩

theorem Keeps.trans {c'' : Compilation} (k : c.Keeps c') (k' : c'.Keeps c'') : c.Keeps c'' := by
  refine ⟨k.scopes.trans k'.scopes, ?_, k.declarations.trans k'.declarations⟩
  intro id symbol hs
  obtain ⟨_, hs'⟩ := k.symbols id symbol hs
  obtain ⟨isExternal, hs''⟩ := k'.symbols id _ hs'
  exact ⟨isExternal, hs''⟩

/-- A type that is kept is the same symbol, up to whether it is external. -/
theorem Keeps.exists_type? (k : c.Keeps c') (hid : id ∈ c.typeIds) :
    ∃ symbol isExternal, c.type? id = some symbol ∧
      c'.type? id = some { symbol with isExternal } := by
  obtain ⟨symbol, hs⟩ := exists_type?_of_mem hid
  obtain ⟨isExternal, hs'⟩ := k.symbols id symbol hs
  exact ⟨symbol, isExternal, hs, hs'⟩

/-- What leaves the known types alone keeps them. -/
theorem Keeps.of_type?_eq (hk : c.KeepsScopes c') (hd : c'.declarations = c.declarations)
    (hs : ∀ id ∈ c.typeIds, c'.type? id = c.type? id) : c.Keeps c' := by
  refine ⟨hk, ?_, hd ▸ List.prefix_refl _⟩
  intro id symbol hsymbol
  exact ⟨symbol.isExternal, (hs id (mem_typeIds_of_type? hsymbol)).trans hsymbol⟩

theorem keepsScopes_internSegment (c : Compilation) (scope : Option NamespaceId) (name : String) :
    c.KeepsScopes (c.internSegment scope name).1 := by
  unfold internSegment
  split
  · exact KeepsScopes.refl c
  · exact List.prefix_append _ _

theorem keepsScopes_internSegments (c : Compilation) (scope : Option NamespaceId) (first : String)
    (rest : List String) : c.KeepsScopes (c.internSegments scope first rest).1 := by
  induction rest generalizing c scope first with
  | nil => exact keepsScopes_internSegment c scope first
  | cons next rest ih => exact (keepsScopes_internSegment c scope first).trans (ih _ _ next)

theorem keeps_internScope (c : Compilation) (scope : Option NamespaceId) (name : String) :
    c.Keeps (c.internScope scope name).1 := by
  refine .of_type?_eq (keepsScopes_internSegments c scope _ _)
    (declarations_internScope c scope name) ?_
  intro id _
  exact type?_of_types_eq (types_internScope c scope name) id

theorem keeps_internType (c : Compilation) (scope : Option NamespaceId) (name : String) :
    c.Keeps (c.internType scope name).1 := by
  refine .of_type?_eq (KeepsScopes.of_eq (namespaces_internType c scope name))
    (declarations_internType c scope name) ?_
  intro id hid
  exact type?_internType_of_mem scope name hid

theorem keeps_internExternal (c : Compilation) (qualifiedName : String) :
    c.Keeps (c.internExternal qualifiedName).1 := by
  have hqualifier : c.KeepsScopes (c.internQualifier qualifiedName).1 := by
    unfold internQualifier
    split
    · exact KeepsScopes.refl c
    · exact keepsScopes_internSegments c none _ _
  refine .of_type?_eq ?_ (declarations_internExternal c qualifiedName) ?_
  · rw [internExternal_eq]
    exact hqualifier.trans (KeepsScopes.of_eq (namespaces_internType _ _ _))
  · intro id hid
    exact type?_internExternal_of_mem qualifiedName hid

theorem keeps_declare (c : Compilation) (id : TypeId) (isPartial : Bool) :
    c.Keeps (c.declare id isPartial).1 := by
  unfold Compilation.declare
  cases c.type? id with
  | none => exact Keeps.refl c
  | some symbol =>
    refine ⟨KeepsScopes.refl c, ?_, List.prefix_append _ _⟩
    intro other known hs
    have hmarked := c.type?_updateType id other fun symbol => { symbol with isExternal := false }
    rw [hs] at hmarked
    by_cases he : id = other
    · rw [if_pos he] at hmarked
      exact ⟨false, hmarked⟩
    · rw [if_neg he] at hmarked
      exact ⟨known.isExternal, hmarked⟩

end Compilation

/-! ### Calls that leave a compilation alone -/

/-- A call edits no type of the given compilation.  All else that a call does is free. -/
def Call.Spares (c : Compilation) : Call → Prop
  | .setBase id _ => id ∉ c.typeIds
  | .edit id _ => id ∉ c.typeIds
  | _ => True

namespace Compilation

variable {c c' d : Compilation} {id : TypeId}

/-- An edit of a type that came later leaves the compilation alone. -/
theorem Keeps.updateType (k : c.Keeps d) (hid : id ∉ c.typeIds)
    (change : TypeSymbol → TypeSymbol) : c.Keeps (d.updateType id change) := by
  refine ⟨k.scopes, ?_, k.declarations⟩
  intro other symbol hs
  have hne : id ≠ other := by
    rintro rfl
    exact hid (mem_typeIds_of_type? hs)
  rw [type?_updateType, if_neg hne]
  exact k.symbols other symbol hs

theorem Keeps.run (k : c.Keeps d) {call : Call} (hcall : call.Spares c) : c.Keeps (call.run d) := by
  cases call with
  | internScope parent name => exact k.trans (keeps_internScope d parent name)
  | internType scope name => exact k.trans (keeps_internType d scope name)
  | internExternal qualifiedName => exact k.trans (keeps_internExternal d qualifiedName)
  | declare id isPartial => exact k.trans (keeps_declare d id isPartial)
  | setBase id base => exact k.updateType hcall fun symbol => { symbol with base }
  | edit id change => exact k.updateType hcall change

/-- Any number of calls that edit no type of the first compilation. -/
def Grows (c : Compilation) : Compilation → Prop :=
  Relation.ReflTransGen (fun d d' => ∃ call : Call, call.Spares c ∧ d' = call.run d) c

/-- Any number of calls that edit no type of a compilation keeps all of it. -/
theorem Grows.keeps (hg : c.Grows c') : c.Keeps c' := by
  induction hg with
  | refl => exact Keeps.refl c
  | tail _ hstep ih =>
    obtain ⟨call, hcall, rfl⟩ := hstep
    exact ih.run hcall

end Compilation

end Companion
