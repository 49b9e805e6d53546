import Companion.Generation.Pass
import Companion.Proofs.Model.BaseLinks
import Companion.Proofs.Model.Growth
import Companion.Proofs.Model.ScopePaths

/-!
# Units that stay when a compilation grows

Which classes get a unit depends on links that lead nowhere but into the compilation, and so does
what stands in the unit.  Where such a compilation is held by another one, its units are the first
units of the other one.

* `Keeps.derives_eq`: a type that is kept derives from the same names.
* `Keeps.eligibility_eq`: a declaration that is kept is eligible or not, as it was.
* `Keeps.descriptor?_eq`: the template has to know the same of a type that is kept.
* `grown_spec`: what is added to a compilation stands behind all that is discovered and generated.
-/

namespace Companion.Compilation

variable {c c' : Compilation} {id : TypeId} {marker : String}

/-! ### Bases -/

theorem Keeps.base?_eq (k : c.Keeps c') (hid : id ∈ c.typeIds) : c'.base? id = c.base? id := by
  obtain ⟨symbol, isExternal, hs, hs'⟩ := k.exists_type? hid
  rw [base?, base?, hs, hs']
  rfl

theorem Closed.mem_typeIds_of_base? (h : c.Closed) {base : TypeId} (hb : c.base? id = some base) :
    base ∈ c.typeIds := by
  rw [base?, Option.bind_eq_some_iff] at hb
  obtain ⟨symbol, hs, hbase⟩ := hb
  exact h.knowsBase id symbol hs base hbase

/-- The sequence of base links from a type that is kept stays in the compilation. -/
theorem Closed.mem_typeIds_of_baseAfter (h : c.Closed) (hid : id ∈ c.typeIds) {n : Nat}
    {other : TypeId} (hn : c.baseAfter n id = some other) : other ∈ c.typeIds := by
  induction n generalizing id with
  | zero =>
    cases hn
    exact hid
  | succ n ih =>
    rw [baseAfter, Option.bind_eq_some_iff] at hn
    obtain ⟨base, hb, hn⟩ := hn
    exact ih (h.mem_typeIds_of_base? hb) hn

theorem Keeps.baseAfter_eq (k : c.Keeps c') (h : c.Closed) (hid : id ∈ c.typeIds) (n : Nat) :
    c'.baseAfter n id = c.baseAfter n id := by
  induction n generalizing id with
  | zero => rfl
  | succ n ih =>
    rw [baseAfter, baseAfter, k.base?_eq hid]
    cases hb : c.base? id with
    | none => rfl
    | some base => exact ih (h.mem_typeIds_of_base? hb)

theorem Keeps.isNamed_eq (k : c.Keeps c') (hid : id ∈ c.typeIds) (name : String) :
    c'.isNamed name id = c.isNamed name id := by
  obtain ⟨symbol, isExternal, hs, hs'⟩ := k.exists_type? hid
  rw [isNamed, isNamed, hs, hs', Option.any_some, Option.any_some]

/-- A type that is kept derives from the same names. -/
theorem Keeps.derives_eq (k : c.Keeps c') (h : c.Closed) (hid : id ∈ c.typeIds) (marker : String) :
    c'.derives (c'.base? id) marker = c.derives (c.base? id) marker := by
  rw [Bool.eq_iff_iff, derives_base_iff, derives_base_iff]
  constructor
  · intro hall
    obtain ⟨n, other, hn, hnamed⟩ := hall
    rw [k.baseAfter_eq h hid] at hn
    rw [k.isNamed_eq (h.mem_typeIds_of_baseAfter hid hn)] at hnamed
    exact ⟨n, other, hn, hnamed⟩
  · intro hall
    obtain ⟨n, other, hn, hnamed⟩ := hall
    rw [← k.isNamed_eq (h.mem_typeIds_of_baseAfter hid hn)] at hnamed
    rw [← k.baseAfter_eq h hid] at hn
    exact ⟨n, other, hn, hnamed⟩

/-! ### Declarations -/

/-- A declaration that is kept is eligible, or not for the same reason, as it was. -/
theorem Keeps.eligibility_eq (k : c.Keeps c') (h : c.Closed) {declaration : ClassDeclaration}
    (hd : declaration ∈ c.declarations) :
    c'.eligibility marker declaration = c.eligibility marker declaration := by
  have hid := h.knowsType declaration hd
  have hderives := k.derives_eq h hid marker
  obtain ⟨symbol, isExternal, hs, hs'⟩ := k.exists_type? hid
  rw [base?, base?, hs, hs', Option.bind_some, Option.bind_some] at hderives
  rw [eligibility, eligibility, hs, hs']
  dsimp only at hderives ⊢
  rw [hderives]

/-- The types that are discovered are the first ones to be discovered later on. -/
theorem Keeps.eligibleTypes_prefix (k : c.Keeps c') (h : c.Closed) (marker : String) :
    c.eligibleTypes marker <+: c'.eligibleTypes marker := by
  obtain ⟨more, hmore⟩ := k.declarations
  have hold : (c.declarations.filter fun d => c'.eligibility marker d = .eligible) =
      c.declarations.filter fun d => c.eligibility marker d = .eligible := by
    apply List.filter_congr
    intro declaration hd
    rw [k.eligibility_eq h hd]
  rw [eligibleTypes, eligibleTypes, ← hmore, List.filter_append, List.map_append, hold,
    List.eraseDups_append]
  exact List.prefix_append _ _

/-! ### Units -/

/-- The template has to know the same of a type that is kept. -/
theorem Keeps.descriptor?_eq (k : c.Keeps c') (h : c.Closed) (hid : id ∈ c.typeIds) :
    c'.descriptor? id = c.descriptor? id := by
  obtain ⟨symbol, isExternal, hs, hs'⟩ := k.exists_type? hid
  have hpath : c'.scopePathOf id = c.scopePathOf id := by
    rw [scopePathOf, scopePathOf, hs, hs', Option.bind_some, Option.bind_some, pathOf?_eq_joined,
      pathOf?_eq_joined, segmentsOf?_of_keepsScopes h.parentsFirst k.scopes (h.knowsScope id symbol hs)]
  rw [descriptor?, descriptor?, hs, hs', hpath]
  rfl

/-- The units that are generated are the first ones to be generated later on. -/
theorem Keeps.generate_prefix (k : c.Keeps c') (h : c.Closed) (settings : Settings) :
    c.generate settings <+: c'.generate settings := by
  have hold : (c.eligibleTypes settings.marker).filterMap c'.descriptor? =
      (c.eligibleTypes settings.marker).filterMap c.descriptor? := by
    apply List.filterMap_congr
    intro id hid
    exact k.descriptor?_eq h (mem_typeIds_of_mem_eligibleTypes hid)
  obtain ⟨more, hmore⟩ := k.eligibleTypes_prefix h settings.marker
  rw [generate, generate, descriptors, descriptors, ← hmore, List.filterMap_append, hold]
  exact (List.prefix_append _ _).map _

/-- What is added to a compilation that has been built up from nothing, whatever it is, stands behind
all that is discovered and generated: the first types and the first units stay what they are. -/
theorem grown_spec (hb : BuildsClosed {} c) (hg : c.Grows c') :
    (∀ marker, c.eligibleTypes marker <+: c'.eligibleTypes marker) ∧
      ∀ settings, c.generate settings <+: c'.generate settings := by
  have hclosed := hb.closed closed_empty
  have hkeeps := hg.keeps
  refine ⟨?_, ?_⟩
  · intro marker
    exact hkeeps.eligibleTypes_prefix hclosed marker
  · intro settings
    exact hkeeps.generate_prefix hclosed settings

/-- A declared class with the marker for its base. -/
def markedSample : Compilation :=
  Call.run (Call.run (Call.run (Call.run {} (.internType none "Marker")) (.internType none "A"))
    (.setBase ⟨1⟩ (some ⟨0⟩))) (.declare ⟨1⟩ true)

theorem buildsClosed_markedSample : BuildsClosed {} markedSample := by
  have hmarker : BuildsClosed {} (Call.run {} (.internType none "Marker")) :=
    .single ⟨.internType none "Marker", knowsScope_none _, rfl⟩
  have hclass := hmarker.tail ⟨.internType none "A", knowsScope_none _, rfl⟩
  have hknown : (Call.setBase ⟨1⟩ (some ⟨0⟩)).KnowsIds
      (Call.run (Call.run {} (.internType none "Marker")) (.internType none "A")) := by
    rintro id ⟨⟩
    decide +kernel
  exact (hclass.tail ⟨.setBase ⟨1⟩ (some ⟨0⟩), hknown, rfl⟩).tail ⟨.declare ⟨1⟩ true, trivial, rfl⟩

/-- The same with one more class under the first one, and with the marker declared as well. -/
def grownSample : Compilation :=
  Call.run (Call.run (Call.run (Call.run markedSample (.declare ⟨0⟩ true))
    (.internExternal "N.B")) (.setBase ⟨2⟩ (some ⟨1⟩))) (.declare ⟨2⟩ true)

theorem grows_grownSample : markedSample.Grows grownSample := by
  have hmarker : markedSample.Grows (Call.run markedSample (.declare ⟨0⟩ true)) :=
    .single ⟨.declare ⟨0⟩ true, trivial, rfl⟩
  have hclass := hmarker.tail ⟨.internExternal "N.B", trivial, rfl⟩
  have hspares : (Call.setBase ⟨2⟩ (some ⟨1⟩)).Spares markedSample := by
    show (⟨2⟩ : TypeId) ∉ markedSample.typeIds
    decide +kernel
  exact (hclass.tail ⟨.setBase ⟨2⟩ (some ⟨1⟩), hspares, rfl⟩).tail ⟨.declare ⟨2⟩ true, trivial, rfl⟩

/-- The class that comes later gets the second unit. -/
theorem grown_spec_grownSample :
    markedSample.eligibleTypes "Marker" = [⟨1⟩] ∧ grownSample.eligibleTypes "Marker" = [⟨1⟩, ⟨2⟩] ∧
      markedSample.eligibleTypes "Marker" <+: grownSample.eligibleTypes "Marker" ∧
      markedSample.generate { marker := "Marker" } <+: grownSample.generate { marker := "Marker" } := by
  obtain ⟨htypes, hunits⟩ := grown_spec buildsClosed_markedSample grows_grownSample
  exact ⟨by decide +kernel, by decide +kernel, htypes "Marker", hunits { marker := "Marker" }⟩

end Companion.Compilation
