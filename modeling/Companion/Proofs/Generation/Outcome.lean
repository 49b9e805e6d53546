import Companion.Generation.Run
import Companion.Proofs.Discovery.Selection
import Mathlib.Data.List.Forall2

/-!
# What a run from a manifest comes to

* `IsUnitOf`: a source text is the unit of a class.
* `forall₂_generate`: the units of a pass are those of the eligible types, one for each.
* `unitNames`: the simple names of the classes that get a unit.
* `generateFromText_outcome`: a run ends in an error of the manifest exactly if the text is none, in
  an error of the model exactly if the text describes an inconsistent compilation, and otherwise
  with the units of the candidates, in the order in which these are first declared.
-/

namespace Companion

namespace Compilation

/-- A source text is the unit of a class. -/
def IsUnitOf (c : Compilation) (settings : Settings) (id : TypeId) (unit : SourceUnit) : Prop :=
  ∃ symbol, c.type? id = some symbol ∧ unit.key = symbol.name ++ settings.suffix ∧
    unit = settings.unitFor ⟨symbol.name, c.scopePathOf id, symbol.accessibility.keyword⟩

theorem isUnitOf_iff {c : Compilation} {settings : Settings} {id : TypeId} {unit : SourceUnit} :
    c.IsUnitOf settings id unit ↔
      ∃ descriptor, c.descriptor? id = some descriptor ∧ unit = settings.unitFor descriptor := by
  constructor
  · intro hall
    obtain ⟨symbol, hs, -, rfl⟩ := hall
    exact ⟨_, by rw [descriptor?, hs, Option.map_some], rfl⟩
  · intro hall
    obtain ⟨descriptor, hd, rfl⟩ := hall
    obtain ⟨symbol, hs, rfl⟩ := Option.map_eq_some_iff.mp hd
    exact ⟨symbol, hs, rfl, rfl⟩

theorem rightUnique_isUnitOf (c : Compilation) (settings : Settings) :
    Relator.RightUnique (c.IsUnitOf settings) := by
  intro id unit other h hother
  obtain ⟨descriptor, hd, rfl⟩ := isUnitOf_iff.mp h
  obtain ⟨descriptor', hd', rfl⟩ := isUnitOf_iff.mp hother
  rw [hd, Option.some.injEq] at hd'
  rw [hd']

theorem forall₂_filterMap_descriptor? {c : Compilation} (settings : Settings) {ids : List TypeId}
    (h : ∀ id ∈ ids, (c.descriptor? id).isSome = true) :
    List.Forall₂ (c.IsUnitOf settings) ids ((ids.filterMap c.descriptor?).map settings.unitFor) := by
  induction ids with
  | nil => exact List.Forall₂.nil
  | cons id rest ih =>
    rw [List.forall_mem_cons] at h
    obtain ⟨descriptor, hd⟩ := Option.isSome_iff_exists.mp h.1
    rw [List.filterMap_cons_some hd, List.map_cons]
    exact List.Forall₂.cons (isUnitOf_iff.mpr ⟨descriptor, hd, rfl⟩) (ih h.2)

theorem forall₂_generate (c : Compilation) (settings : Settings) :
    List.Forall₂ (c.IsUnitOf settings) (c.eligibleTypes settings.marker) (c.generate settings) :=
  forall₂_filterMap_descriptor? settings fun _ => isSome_descriptor?_of_mem

/-- The simple names of the classes that get a unit, in the order of their units. -/
def unitNames (c : Compilation) (marker : String) : List String :=
  (c.descriptors marker).map (·.name)

end Compilation

/-! ### The steps of a run -/

theorem generateFromText_of_manifest_error {text : String} {problem : ManifestError}
    (h : Compilation.ofManifest text = .error problem) (settings : Settings) :
    generateFromText settings text = .error (.manifest problem) := by
  rw [generateFromText, compileManifest, h]
  rfl

theorem generateFromText_of_check_error {text : String} {c : Compilation} {found : Inconsistency}
    (h : Compilation.ofManifest text = .ok c) (hc : c.check = .error found) (settings : Settings) :
    generateFromText settings text = .error (.model found) := by
  rw [generateFromText, compileManifest, h]
  dsimp only
  rw [hc]
  rfl

theorem generateFromText_of_check_ok {text : String} {c : Compilation}
    (h : Compilation.ofManifest text = .ok c) (hc : c.check = .ok ()) (settings : Settings) :
    generateFromText settings text = .ok (c.generate settings) := by
  rw [generateFromText, compileManifest, h]
  dsimp only
  rw [hc]
  rfl

/-- What a run from a manifest comes to, for every text and all settings. -/
theorem generateFromText_outcome (settings : Settings) (text : String) :
    (∀ problem, generateFromText settings text = .error (.manifest problem) ↔
      Compilation.ofManifest text = .error problem) ∧
    (∀ found, generateFromText settings text = .error (.model found) ↔
      ∃ c, Compilation.ofManifest text = .ok c ∧ c.check = .error found) ∧
    ((∃ units, generateFromText settings text = .ok units) ↔
      ∃ c, Compilation.ofManifest text = .ok c ∧ c.check = .ok ()) ∧
    ∀ units, generateFromText settings text = .ok units ↔
      ∃ c, Compilation.ofManifest text = .ok c ∧ c.check = .ok () ∧
        ∃ ids : List TypeId, (∀ id, id ∈ ids ↔ c.IsCandidate settings.marker id) ∧
          ids.Pairwise (fun a b => c.firstDeclaration a < c.firstDeclaration b) ∧
          List.Forall₂ (c.IsUnitOf settings) ids units := by
  cases h : Compilation.ofManifest text with
  | error problem =>
    rw [generateFromText_of_manifest_error h settings]
    simp
  | ok c =>
    cases hc : c.check with
    | error found =>
      rw [generateFromText_of_check_error h hc settings]
      simp [hc]
    | ok done =>
      rw [generateFromText_of_check_ok h hc settings]
      refine ⟨by simp, by simp [hc], by simp [hc], ?_⟩
      intro units
      constructor
      · intro hunits
        obtain rfl : c.generate settings = units := by simpa using hunits
        refine ⟨c, rfl, hc, c.eligibleTypes settings.marker, ?_, ?_, ?_⟩
        · intro id
          exact Compilation.mem_eligibleTypes_iff_isCandidate hc
        · exact Compilation.pairwise_eligibleTypes hc
        · exact Compilation.forall₂_generate c settings
      · intro hall
        obtain ⟨c', hc', -, ids, hmem, hpair, hunits⟩ := hall
        obtain rfl : c = c' := by simpa using hc'
        obtain rfl := Compilation.eq_eligibleTypes hc hmem hpair
        have hunique := (Compilation.rightUnique_isUnitOf c settings).forall₂
        rw [hunique hunits (Compilation.forall₂_generate c settings)]

end Companion
