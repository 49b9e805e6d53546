import Companion.Proofs.Manifest.FilledIn

/-!
# Accepted manifests come to well-formed compilations

Positions in a compilation are not checked.  In the compilation of an accepted manifest they are all in
range, and its types are those that it declares, followed by those that it only refers to.

* `WellFormed`: no link dangles, scopes lie under earlier scopes, and external types stand behind the
  declared ones and are plain.
* `wellFormed_of_ofManifest`: what a manifest text is accepted as is well formed.
-/

namespace Companion

open Markup (Tag)

namespace Compilation

/-- No link dangles, and types that are referred to and not declared are told apart from the others. -/
structure WellFormed (c : Compilation) : Prop where
  /-- A scope lies in an earlier one or in none. -/
  parentsFirst : ∀ id symbol parent, c.namespace? id = some symbol → symbol.parent = some parent →
    parent.index < id.index
  knowsScope : ∀ id symbol scope, c.type? id = some symbol → symbol.scope = some scope →
    scope.index < c.namespaces.length
  knowsBase : ∀ id symbol base, c.type? id = some symbol → symbol.base = some base →
    base.index < c.types.length
  knowsType : ∀ d ∈ c.declarations, d.type.index < c.types.length
  external_iff : ∀ id symbol, c.type? id = some symbol →
    (symbol.isExternal = true ↔ c.declarationsOf id = [])
  /-- Declared types stand in front of external ones. -/
  declaredFirst : ∀ id symbol id' symbol', c.type? id = some symbol → c.type? id' = some symbol' →
    symbol.isExternal = false → symbol'.isExternal = true → id.index < id'.index
  /-- Nothing is known of an external type but its name and its scope. -/
  plain : ∀ id symbol, c.type? id = some symbol → symbol.isExternal = true →
    symbol.base = none ∧ symbol.isAbstract = false ∧
      symbol.accessibility = Accessibility.internalAccess

end Compilation

/-- When all is linked no link dangles. -/
theorem Draft.Reads.wellFormed_link {draft : Draft} {elements : List Placement} {around : List Tag}
    (r : draft.Reads elements around) (hbases : Agree Placement.baseText? elements)
    (hlevels : Agree Placement.level? elements) : draft.link.WellFormed := by
  have l := r.links hbases
  refine ⟨l.interned.parentsFirst, ?_, ?_, ?_, ?_, ?_, ?_⟩
  · intro id symbol scope hs hscope
    exact l.interned.knowsScope_of_type? hs scope hscope
  · intro id symbol base hs hbase
    have hb : draft.link.base? id = some base := by
      rw [Compilation.base?, hs]
      exact hbase
    exact (Compilation.mem_typeIds _ _).mp (l.known id base hb)
  · intro d hd
    rw [l.declarations] at hd
    exact (Compilation.mem_typeIds _ _).mp (l.extends_.mem_typeIds (r.declares.declared d hd))
  · intro id symbol hs
    exact l.external_iff r.declares hs
  · intro id symbol id' symbol' hs hs' hdeclared hexternal
    have hold : id ∈ draft.compilation.typeIds := by
      by_contra hnew
      rw [(l.external id symbol hs).mpr hnew] at hdeclared
      exact absurd hdeclared (by simp)
    have hnew := (l.external id' symbol' hs').mp hexternal
    rw [Compilation.mem_typeIds] at hold hnew
    omega
  · intro id symbol hs hexternal
    have hplain := r.link_added hlevels hs ((l.external id symbol hs).mp hexternal)
    rw [hplain]
    exact ⟨rfl, rfl, rfl⟩

namespace Compilation

/-- What a manifest text is accepted as is well formed. -/
theorem wellFormed_of_ofManifest {c : Compilation} {text : String} (h : ofManifest text = .ok c) :
    c.WellFormed := by
  obtain ⟨hmanifest, draft, around, hreads, rfl⟩ := exists_reads_of_ofReading h
  exact hreads.wellFormed_link hmanifest.basesAgree hmanifest.levelsAgree

/-- Two classes, one of them in parts, with bases that are nowhere declared. -/
def referringManifest : String :=
  "<compilation><class name=\"B\" base=\"N.M.X\"/><namespace name=\"N\">" ++
    "<class name=\"A\" base=\"X\" partial=\"true\"/>" ++
      "<class name=\"A\" partial=\"true\" abstract=\"true\" accessibility=\"public\"/>" ++
        "</namespace></compilation>"

/-- The two classes, followed by their bases. -/
def referringCompilation : Compilation where
  namespaces := [⟨"N", none⟩, ⟨"M", some ⟨0⟩⟩]
  types := [⟨"B", { name := "B", scope := none, base := some ⟨2⟩ }⟩,
    ⟨"N.A",
      { name := "A", scope := some ⟨0⟩, base := some ⟨3⟩, isAbstract := true
        accessibility := .publicAccess }⟩,
    ⟨"N.M.X", { name := "X", scope := some ⟨1⟩, isExternal := true }⟩,
    ⟨"X", { name := "X", scope := none, isExternal := true }⟩]
  declarations := [⟨⟨0⟩, false⟩, ⟨⟨1⟩, true⟩, ⟨⟨1⟩, true⟩]

/-- The namespace of an external type may lie in one that is declared. -/
theorem wellFormed_of_ofManifest_referring :
    ofManifest referringManifest = .ok referringCompilation ∧ referringCompilation.WellFormed := by
  have h : ofManifest referringManifest = .ok referringCompilation := by decide +kernel
  exact ⟨h, wellFormed_of_ofManifest h⟩

end Compilation

end Companion
