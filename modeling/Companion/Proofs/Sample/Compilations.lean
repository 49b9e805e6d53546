import Companion.Proofs.Model.Growth
import Companion.Proofs.Sample.Names

/-!
# Sample compilations

A sample compilation is built up class by class.  What it holds is told as a list of types and a list of
declarations, first behind the layers and then behind the settings classes, and both lists are kept up
by each class that is added.

* `profiled_addClass`: a class with a new simple name stands behind the others.
* `profiled_addLayers`, `profiled_addSettings`: what the layers and the settings classes add.
* `profiled_compilation`: the two lists of a whole sample.
* `derives_settings_iff`: through the layers the marker type is reached, and from the root it is not.
* `eligibleTypes_compilation`: every third settings class gets a unit.
* `compilation_spec`: every sample is accepted, and the units are those of every third settings class.
-/

namespace Companion.Sample

open Compilation

/-! ### Adding a class -/

section AddClass

variable {c : Compilation} {types : List TypeProfile} {declarations : List ClassDeclaration}
  {scope : Option NamespaceId} {path name : String}

theorem keepsPlace_makeAbstract : KeepsPlace makeAbstract :=
  ⟨fun _ => rfl, fun _ => rfl, fun _ _ => rfl⟩

theorem keepsPlace_makePublic : KeepsPlace makePublic :=
  ⟨fun _ => rfl, fun _ => rfl, fun _ _ => rfl⟩

theorem keepsPlace_id : KeepsPlace id :=
  ⟨fun _ => rfl, fun _ => rfl, fun _ _ => rfl⟩

theorem keepsScopes_addClass (c : Compilation) (scope : Option NamespaceId) (name : String)
    (isPartial : Bool) (base : TypeId) (change : TypeSymbol → TypeSymbol) :
    c.KeepsScopes (addClass c scope name isPartial base change).1 :=
  (keeps_internType c scope name).scopes.trans
    (keeps_declare (c.internType scope name).1 (c.internType scope name).2 isPartial).scopes

/-- A class with a new simple name stands behind the other types, and its declaration behind the other
declarations. -/
theorem profiled_addClass (h : c.Profiled types declarations) (hs : c.HasScope scope path)
    (dotless : Dotless types) (hdot : '.' ∉ name.toList)
    (fresh : ∀ p ∈ types, p.symbol.name ≠ name) {change : TypeSymbol → TypeSymbol}
    (place : KeepsPlace change) (isPartial : Bool) (base : TypeId) :
    (addClass c scope name isPartial base change).1.Profiled
        (types ++ [⟨path, change { name, scope := none, base := some base }⟩])
        (declarations ++ [⟨⟨types.length⟩, isPartial⟩]) ∧
      (addClass c scope name isPartial base change).2 = ⟨types.length⟩ := by
  have hnew : ∀ p ∈ types, p.fullName ≠ TypeProfile.fullName ⟨path, { name, scope := none }⟩ :=
    dotless.fullName_ne hdot fresh
  obtain ⟨hmade, hid⟩ := h.internType hs hnew
  have hdeclared :=
    hmade.declare (show (⟨types.length⟩ : TypeId).index < (types ++ [_]).length by simp) isPartial
  have hlinked := hdeclared.updateType (keepsPlace_base (some base)) ⟨types.length⟩
  have hchanged := hlinked.updateType place ⟨types.length⟩
  rw [modify_append, modify_append, modify_append, ← hid] at hchanged
  exact ⟨hid ▸ hchanged, hid⟩

end AddClass

/-! ### What a sample holds -/

/-- The external type at the root of all bases. -/
def rootProfile : TypeProfile :=
  ⟨"UnityEngine", { name := "ScriptableObject", scope := none, isExternal := true }⟩

/-- The marker type, right above the root. -/
def markerProfile : TypeProfile :=
  ⟨"Game.Core", { name := marker, scope := none, base := some ⟨0⟩, isAbstract := true }⟩

/-- The layer of a level.  It stands behind the layers of lower levels, and its base stands right in
front of it. -/
def layerProfile (level : Nat) : TypeProfile where
  path := "Game.Core"
  symbol :=
    { name := "Layer" ++ toString level
      scope := none
      base := some ⟨level + 1⟩
      isAbstract := true }

/-- The settings class of a number, above so many layers. -/
def settingsProfile (depth number : Nat) : TypeProfile where
  path := settingsPath number
  symbol :=
    { name := settingsName number
      scope := none
      base := some (if number % 6 < 4 then ⟨depth + 1⟩ else ⟨0⟩)
      isAbstract := decide (number % 6 = 1)
      accessibility := if number % 3 = 0 then .publicAccess else .internalAccess }

/-- The types up to the top layer. -/
def layeredTypes (depth : Nat) : List TypeProfile :=
  [rootProfile, markerProfile] ++ (List.range depth).map layerProfile

/-- Their declarations.  The root has none. -/
def layeredDeclarations (depth : Nat) : List ClassDeclaration :=
  ⟨⟨1⟩, false⟩ :: (List.range depth).map fun level => ⟨⟨level + 2⟩, false⟩

/-- All types. -/
def sampleTypes (count depth : Nat) : List TypeProfile :=
  layeredTypes depth ++ (List.range count).map (settingsProfile depth)

/-- All declarations. -/
def sampleDeclarations (count depth : Nat) : List ClassDeclaration :=
  layeredDeclarations depth ++
    (List.range count).map fun number => ⟨⟨depth + 2 + number⟩, decide (number % 6 ≠ 2)⟩

theorem length_layeredTypes (depth : Nat) : (layeredTypes depth).length = depth + 2 := by
  simp [layeredTypes]

theorem length_sampleTypes (count depth : Nat) :
    (sampleTypes count depth).length = depth + 2 + count := by
  rw [sampleTypes, List.length_append, length_layeredTypes, List.length_map, List.length_range]

theorem layeredTypes_succ (depth : Nat) :
    layeredTypes (depth + 1) = layeredTypes depth ++ [layerProfile depth] := by
  rw [layeredTypes, layeredTypes, List.range_succ, List.map_append, List.append_assoc]
  rfl

theorem layeredDeclarations_succ (depth : Nat) :
    layeredDeclarations (depth + 1) = layeredDeclarations depth ++ [⟨⟨depth + 2⟩, false⟩] := by
  rw [layeredDeclarations, layeredDeclarations, List.range_succ, List.map_append]
  rfl

theorem sampleTypes_succ (count depth : Nat) :
    sampleTypes (count + 1) depth = sampleTypes count depth ++ [settingsProfile depth count] := by
  rw [sampleTypes, sampleTypes, List.range_succ, List.map_append, List.append_assoc]
  rfl

theorem sampleDeclarations_succ (count depth : Nat) :
    sampleDeclarations (count + 1) depth =
      sampleDeclarations count depth ++ [⟨⟨depth + 2 + count⟩, decide (count % 6 ≠ 2)⟩] := by
  rw [sampleDeclarations, sampleDeclarations, List.range_succ, List.map_append, List.append_assoc]
  rfl

/-! ### Names in a sample -/

variable {count depth : Nat} {p : TypeProfile}

theorem mem_layeredTypes :
    p ∈ layeredTypes depth ↔
      p = rootProfile ∨ p = markerProfile ∨ ∃ level < depth, layerProfile level = p := by
  simp [layeredTypes]

theorem mem_sampleTypes :
    p ∈ sampleTypes count depth ↔
      p ∈ layeredTypes depth ∨ ∃ number < count, settingsProfile depth number = p := by
  simp [sampleTypes]

theorem dotless_layeredTypes (depth : Nat) : Dotless (layeredTypes depth) := by
  intro p hp
  rcases mem_layeredTypes.mp hp with rfl | rfl | ⟨level, -, rfl⟩
  · decide
  · decide
  · exact not_mem_numbered (by decide) (by decide) level

theorem dotless_sampleTypes (count depth : Nat) : Dotless (sampleTypes count depth) := by
  intro p hp
  rcases mem_sampleTypes.mp hp with hp | ⟨number, -, rfl⟩
  · exact dotless_layeredTypes depth p hp
  · exact dotless_settingsName number

/-- No other type has the name of the next layer. -/
theorem layer_fresh (depth : Nat) :
    ∀ p ∈ layeredTypes depth, p.symbol.name ≠ "Layer" ++ toString depth := by
  intro p hp
  have hinitials : initials ("Layer" ++ toString depth) = ['L', 'a'] := initials_append (by decide) _
  rcases mem_layeredTypes.mp hp with rfl | rfl | ⟨level, hlevel, rfl⟩
  · exact ne_of_initials (by rw [hinitials]; decide)
  · exact ne_of_initials (by rw [hinitials]; decide)
  · exact fun hsame => absurd (numbered_inj.mp hsame) (Nat.ne_of_lt hlevel)

/-- No other type has the name of the next settings class. -/
theorem settings_fresh (count depth : Nat) :
    ∀ p ∈ sampleTypes count depth, p.symbol.name ≠ settingsName count := by
  intro p hp
  rcases mem_sampleTypes.mp hp with hp | ⟨number, hnumber, rfl⟩
  · rcases mem_layeredTypes.mp hp with rfl | rfl | ⟨level, -, rfl⟩
    · exact ne_of_initials (by rw [initials_settingsName]; decide)
    · exact ne_of_initials (by rw [initials_settingsName]; decide)
    · have hinitials : initials ("Layer" ++ toString level) = ['L', 'a'] :=
        initials_append (by decide) _
      exact ne_of_initials (by rw [initials_settingsName, layerProfile, hinitials]; decide)
  · exact fun hsame => absurd (settingsName_inj.mp hsame) (Nat.ne_of_lt hnumber)

/-! ### Building a sample -/

variable {c : Compilation}

/-- Layers are added one by one, each with the one before it for its base. -/
theorem profiled_addLayers {scope : NamespaceId} {level : Nat} (count : Nat)
    (h : c.Profiled (layeredTypes level) (layeredDeclarations level))
    (hs : c.HasScope (some scope) "Game.Core") :
    (addLayers c scope ⟨level + 1⟩ level count).1.Profiled (layeredTypes (level + count))
        (layeredDeclarations (level + count)) ∧
      (addLayers c scope ⟨level + 1⟩ level count).2 = ⟨level + count + 1⟩ := by
  induction count generalizing c level with
  | zero => exact ⟨h, rfl⟩
  | succ count ih =>
    have hdot : '.' ∉ ("Layer" ++ toString level).toList :=
      not_mem_numbered (by decide) (by decide) level
    obtain ⟨hadded, hid⟩ := profiled_addClass h hs (dotless_layeredTypes level) hdot
      (layer_fresh level) keepsPlace_makeAbstract false ⟨level + 1⟩
    have hkept := hs.keep h.interned.parentsFirst
      (keepsScopes_addClass c (some scope) ("Layer" ++ toString level) false ⟨level + 1⟩ makeAbstract)
    rw [length_layeredTypes] at hadded hid
    change Compilation.Profiled _ (layeredTypes level ++ [layerProfile level]) _ at hadded
    rw [← layeredTypes_succ, ← layeredDeclarations_succ] at hadded
    have hrest := ih hadded hkept
    rw [addLayers]
    dsimp only
    rw [hid]
    rw [show level + 1 + count = level + (count + 1) by omega] at hrest
    exact hrest

/-- How the settings class of a number differs from a plain one. -/
def settingsChange (number : Nat) : TypeSymbol → TypeSymbol :=
  if number % 3 = 0 then makePublic else if number % 6 = 1 then makeAbstract else id

theorem keepsPlace_settingsChange (number : Nat) : KeepsPlace (settingsChange number) := by
  rw [settingsChange]
  split
  · exact keepsPlace_makePublic
  · split
    · exact keepsPlace_makeAbstract
    · exact keepsPlace_id

theorem settingsChange_eq (depth number : Nat) :
    settingsChange number
        { name := settingsName number, scope := none,
          base := some (if number % 6 < 4 then ⟨depth + 1⟩ else ⟨0⟩) } =
      (settingsProfile depth number).symbol := by
  rw [settingsChange, settingsProfile]
  by_cases hpublic : number % 3 = 0
  · simp [hpublic, makePublic, show number % 6 ≠ 1 by omega]
  · by_cases habstract : number % 6 = 1
    · simp [hpublic, habstract, makeAbstract]
      rfl
    · simp [hpublic, habstract]
      rfl

/-- The six cases of a settings class in one. -/
theorem addSettings_eq (c : Compilation) (root base : TypeId) (number : Nat) :
    addSettings c root base number =
      (addClass (c.internScope none (settingsPath number)).1
        (some (c.internScope none (settingsPath number)).2) (settingsName number)
        (decide (number % 6 ≠ 2)) (if number % 6 < 4 then base else root)
        (settingsChange number)).1 := by
  rw [addSettings]
  dsimp only
  split
  · next hcase => simp [hcase, settingsChange, show number % 3 = 0 by omega]; rfl
  · next hcase => simp [hcase, settingsChange, show number % 3 = 0 by omega]; rfl
  · next hcase => simp [hcase, settingsChange, show number % 3 ≠ 0 by omega]; rfl
  · next hcase => simp [hcase, settingsChange, show number % 3 ≠ 0 by omega]; rfl
  · next hzero hthree hone htwo =>
    have hcase : number % 6 ≠ 0 ∧ number % 6 ≠ 3 := ⟨hzero, hthree⟩
    have habstract : number % 6 ≠ 1 := hone
    have hpartial : number % 6 ≠ 2 := htwo
    have hbase : ¬ number % 6 < 4 := by omega
    have hpublic : ¬ number % 3 = 0 := by omega
    rw [if_neg hbase, decide_eq_true hpartial, settingsChange, if_neg hpublic, if_neg habstract]
    rfl

/-- A settings class stands behind the others, in the namespace of its number. -/
theorem profiled_addSettings (number : Nat)
    (h : c.Profiled (sampleTypes number depth) (sampleDeclarations number depth)) :
    (addSettings c ⟨0⟩ ⟨depth + 1⟩ number).Profiled (sampleTypes (number + 1) depth)
      (sampleDeclarations (number + 1) depth) := by
  obtain ⟨hscoped, hs⟩ := h.internScope (segments_settingsPath number)
  have hadded := (profiled_addClass hscoped hs (dotless_sampleTypes number depth)
    (dotless_settingsName number) (settings_fresh number depth) (keepsPlace_settingsChange number)
    (decide (number % 6 ≠ 2)) (if number % 6 < 4 then ⟨depth + 1⟩ else ⟨0⟩)).1
  rw [settingsChange_eq, length_sampleTypes] at hadded
  rw [addSettings_eq, sampleTypes_succ, sampleDeclarations_succ]
  exact hadded

/-! ### Whole samples -/

/-- The namespace of the marker type and the layers. -/
def coreScope : Compilation × NamespaceId :=
  ({} : Compilation).internScope none "Game.Core"

/-- The root of all bases. -/
def withRoot : Compilation × TypeId :=
  coreScope.1.internExternal "UnityEngine.ScriptableObject"

/-- The marker type above it. -/
def withMarker : Compilation × TypeId :=
  addClass withRoot.1 (some coreScope.2) marker false withRoot.2 makeAbstract

theorem profiled_withMarker :
    withMarker.1.Profiled (layeredTypes 0) (layeredDeclarations 0) ∧
      withMarker.1.HasScope (some coreScope.2) "Game.Core" := by
  have hempty : ({} : Compilation).Profiled [] [] :=
    ⟨interned_empty, fun symbol hsymbol => absurd hsymbol (by simp), rfl, rfl⟩
  have hcoreSegments : ∀ segment ∈ Text.Dotted.allSegments "Game.Core", segment ≠ "" := by
    decide +kernel
  have hrootSegments : ∀ segment ∈ Text.Dotted.allSegments "UnityEngine", segment ≠ "" := by
    decide +kernel
  have hrootName : '.' ∉ "ScriptableObject".toList := by decide
  have hmarkerName : '.' ∉ marker.toList := by decide
  have hdotless : Dotless [rootProfile] := fun p hp => List.mem_singleton.mp hp ▸ hrootName
  have hfresh : ∀ p ∈ [rootProfile], p.symbol.name ≠ marker := by decide
  obtain ⟨hcore, hs⟩ := hempty.internScope hcoreSegments
  have hroot : withRoot.1.Profiled [rootProfile] [] :=
    (hcore.internExternal_dotted hrootSegments hrootName fun p hp => absurd hp (by simp)).1
  have hs : withRoot.1.HasScope (some coreScope.2) "Game.Core" :=
    hs.keep hcore.interned.parentsFirst (keeps_internExternal _ _).scopes
  have hrootId : withRoot.2 = ⟨0⟩ := by decide +kernel
  rw [withMarker, hrootId]
  constructor
  · exact (profiled_addClass hroot hs hdotless hmarkerName hfresh keepsPlace_makeAbstract false ⟨0⟩).1
  · exact hs.keep hroot.interned.parentsFirst (keepsScopes_addClass _ _ _ _ _ _)

/-- The types and the declarations of a sample. -/
theorem profiled_compilation (count depth : Nat) :
    (compilation count depth).Profiled (sampleTypes count depth) (sampleDeclarations count depth) := by
  obtain ⟨hmarker, hs⟩ := profiled_withMarker
  have hrootId : withRoot.2 = ⟨0⟩ := by decide +kernel
  have hmarkerId : withMarker.2 = ⟨0 + 1⟩ := by decide +kernel
  obtain ⟨hlayers, hlayersId⟩ := profiled_addLayers depth hmarker hs
  rw [← hmarkerId, Nat.zero_add] at hlayers hlayersId
  have heq : compilation count depth = (List.range count).foldl
      (fun c number => addSettings c withRoot.2 (addLayers withMarker.1 coreScope.2 withMarker.2 0
        depth).2 number) (addLayers withMarker.1 coreScope.2 withMarker.2 0 depth).1 := rfl
  rw [heq, hrootId, hlayersId]
  induction count with
  | zero =>
    rw [sampleTypes, sampleDeclarations]
    simpa using hlayers
  | succ count ih =>
    rw [List.range_succ, List.foldl_append]
    exact profiled_addSettings count (ih rfl)

/-! ### Places in a sample -/

theorem getElem?_layeredTypes {level : Nat} (h : level < depth) :
    (layeredTypes depth)[level + 2]? = some (layerProfile level) := by
  simp [layeredTypes, h]

theorem getElem?_sampleTypes_layered {i : Nat} (h : i < depth + 2) :
    (sampleTypes count depth)[i]? = (layeredTypes depth)[i]? := by
  rw [sampleTypes, List.getElem?_append_left (by rw [length_layeredTypes]; exact h)]

theorem getElem?_sampleTypes_settings {number : Nat} (h : number < count) :
    (sampleTypes count depth)[depth + 2 + number]? = some (settingsProfile depth number) := by
  rw [sampleTypes, List.getElem?_append_right (by rw [length_layeredTypes]; omega),
    length_layeredTypes, Nat.add_sub_cancel_left]
  simp [h]

/-- Every type stands behind its base. -/
theorem base_before {i : Nat} {base : TypeId} (hp : (sampleTypes count depth)[i]? = some p)
    (hbase : p.symbol.base = some base) : base.index < i := by
  by_cases hlayered : i < depth + 2
  · rw [getElem?_sampleTypes_layered hlayered] at hp
    match i with
    | 0 =>
      cases hp
      cases hbase
    | 1 =>
      cases hp
      cases hbase
      decide
    | level + 2 =>
      rw [getElem?_layeredTypes (by omega)] at hp
      cases hp
      cases hbase
      exact Nat.lt_succ_self _
  · obtain ⟨number, rfl⟩ := Nat.exists_eq_add_of_le (Nat.le_of_not_lt hlayered)
    have hlt := (List.getElem?_eq_some_iff.mp hp).1
    rw [length_sampleTypes] at hlt
    rw [getElem?_sampleTypes_settings (by omega)] at hp
    cases hp
    cases hbase
    split
    · show depth + 1 < depth + 2 + number
      omega
    · show 0 < depth + 2 + number
      omega

theorem name_ne_empty (h : p ∈ sampleTypes count depth) : p.symbol.name ≠ "" := by
  rcases mem_sampleTypes.mp h with hp | ⟨number, -, rfl⟩
  · rcases mem_layeredTypes.mp hp with rfl | rfl | ⟨level, -, rfl⟩
    · decide
    · decide
    · exact ne_of_initials (by rw [layerProfile, initials_append (by decide)]; decide)
  · exact ne_of_initials (by rw [settingsProfile, initials_settingsName]; decide)

/-- No type is declared twice. -/
theorem nodup_sampleDeclarations (count depth : Nat) :
    ((sampleDeclarations count depth).map (·.type)).Nodup := by
  have hsorted : ((sampleDeclarations count depth).map (·.type)).Pairwise (·.index < ·.index) := by
    rw [sampleDeclarations, layeredDeclarations, List.map_append, List.map_cons, List.map_map,
      List.map_map, List.cons_append, List.pairwise_cons, List.pairwise_append, List.pairwise_map,
      List.pairwise_map]
    simp only [List.mem_append, List.mem_map, List.mem_range, Function.comp_apply]
    refine ⟨?_, List.pairwise_lt_range.imp ?_, List.pairwise_lt_range.imp ?_, ?_⟩
    · rintro later (⟨level, -, rfl⟩ | ⟨number, -, rfl⟩)
      · show 1 < level + 2
        omega
      · show 1 < depth + 2 + number
        omega
    · intro level later hlt
      exact Nat.add_lt_add_right hlt 2
    · intro number later hlt
      exact Nat.add_lt_add_left hlt (depth + 2)
    · rintro _ ⟨level, hlevel, rfl⟩ _ ⟨number, -, rfl⟩
      show level + 2 < depth + 2 + number
      omega
  exact hsorted.imp fun hlt hsame => absurd (hsame ▸ hlt) (Nat.lt_irrefl _)

/-! ### The marker type -/

theorem leads_to_marker {level : Nat} (h : level ≤ depth) :
    Relation.ReflTransGen (compilation count depth).BaseLink ⟨level + 1⟩ ⟨1⟩ := by
  induction level with
  | zero => exact .refl
  | succ level ih =>
    refine .head ?_ (ih (by omega))
    rw [BaseLink, (profiled_compilation count depth).base?_eq,
      getElem?_sampleTypes_layered (show level + 2 < depth + 2 by omega),
      getElem?_layeredTypes (by omega)]
    rfl

/-- The marker type is above the top layer, and it is not above the root. -/
theorem derives_settings_iff {number : Nat} :
    (compilation count depth).derives (settingsProfile depth number).symbol.base marker = true ↔
      number % 6 < 4 := by
  have h := profiled_compilation count depth
  rw [settingsProfile]
  dsimp only
  rw [derives_some_iff]
  by_cases hbase : number % 6 < 4
  · rw [if_pos hbase]
    refine iff_of_true ⟨⟨1⟩, leads_to_marker (Nat.le_refl depth), ?_⟩ hbase
    rw [h.isNamed_eq, getElem?_sampleTypes_layered (show 1 < depth + 2 by omega)]
    rfl
  · rw [if_neg hbase]
    refine iff_of_false ?_ hbase
    have hroot : (sampleTypes count depth)[0]? = some rootProfile :=
      getElem?_sampleTypes_layered (by omega)
    rintro ⟨other, hreach, named⟩
    rcases Relation.ReflTransGen.cases_head hreach with rfl | ⟨next, link, -⟩
    · rw [h.isNamed_eq, hroot] at named
      exact absurd named (by decide)
    · rw [BaseLink, h.base?_eq, hroot] at link
      cases link

theorem eligibility_settings_iff {number : Nat} (hnumber : number < count) :
    (compilation count depth).eligibility marker
        ⟨⟨depth + 2 + number⟩, decide (number % 6 ≠ 2)⟩ = .eligible ↔ number % 3 = 0 := by
  rw [(profiled_compilation count depth).eligibility_iff, getElem?_sampleTypes_settings hnumber]
  simp only [Option.some.injEq, exists_eq_left', derives_settings_iff]
  simp only [settingsProfile, decide_eq_true_iff, decide_eq_false_iff_not]
  omega

/-- The numbers of the settings classes that get a unit. -/
def unitNumbers (count : Nat) : List Nat :=
  (List.range count).filter (· % 3 = 0)

theorem mem_unitNumbers {number : Nat} :
    number ∈ unitNumbers count ↔ number < count ∧ number % 3 = 0 := by
  simp [unitNumbers]

theorem eligibleTypes_compilation (count depth : Nat) :
    (compilation count depth).eligibleTypes marker =
      (unitNumbers count).map fun number => ⟨depth + 2 + number⟩ := by
  have h := profiled_compilation count depth
  have hlayered : (layeredDeclarations depth).filter
      (fun d => (compilation count depth).eligibility marker d = .eligible) = [] := by
    rw [List.filter_eq_nil_iff]
    intro d hd
    have hpartial : d.isPartial = false := by
      rcases List.mem_cons.mp hd with rfl | hd
      · rfl
      · obtain ⟨level, -, rfl⟩ := List.mem_map.mp hd
        rfl
    rw [decide_eq_true_iff, eligibility_eq_eligible_iff, hpartial]
    exact fun hall => absurd hall.1 Bool.false_ne_true
  have hsettings : ∀ number ∈ List.range count,
      decide ((compilation count depth).eligibility marker
        ⟨⟨depth + 2 + number⟩, decide (number % 6 ≠ 2)⟩ = .eligible) = decide (number % 3 = 0) := by
    intro number hnumber
    rw [decide_eq_decide]
    exact eligibility_settings_iff (List.mem_range.mp hnumber)
  rw [h.eligibleTypes_eq (nodup_sampleDeclarations count depth), sampleDeclarations,
    List.filter_append, hlayered, List.nil_append, List.filter_map, List.map_map]
  exact congrArg (List.map _) (List.filter_congr hsettings)

/-! ### The units -/

/-- The unit of the settings class of a number. -/
def settingsUnit (number : Nat) : SourceUnit :=
  ({} : Settings).unitFor
    { name := settingsName number
      scopePath := settingsPath number
      accessibility := Accessibility.publicAccess.keyword }

theorem fullName_settingsProfile (number : Nat) :
    (settingsProfile depth number).fullName = settingsPath number ++ "." ++ settingsName number :=
  fullName_of_settings rfl rfl

theorem fullName_settings {number : Nat} (h : number < count) :
    (compilation count depth).fullName ⟨depth + 2 + number⟩ =
      settingsPath number ++ "." ++ settingsName number := by
  rw [(profiled_compilation count depth).fullName_eq (getElem?_sampleTypes_settings h),
    fullName_settingsProfile]

theorem generate_compilation (count depth : Nat) :
    (compilation count depth).generate {} = (unitNumbers count).map settingsUnit := by
  have hdescriptors : ∀ number ∈ unitNumbers count,
      (sampleTypes count depth)[depth + 2 + number]?.map (·.descriptor) =
        some ⟨settingsName number, settingsPath number, Accessibility.publicAccess.keyword⟩ := by
    intro number hnumber
    obtain ⟨hlt, hthird⟩ := mem_unitNumbers.mp hnumber
    rw [getElem?_sampleTypes_settings hlt, Option.map_some, TypeProfile.descriptor, settingsProfile]
    dsimp only
    rw [if_pos hthird]
  have hunits : ((compilation count depth).eligibleTypes marker).filterMap
      (fun id => (sampleTypes count depth)[id.index]?.map (·.descriptor)) =
        (unitNumbers count).map fun number =>
          ⟨settingsName number, settingsPath number, Accessibility.publicAccess.keyword⟩ := by
    rw [eligibleTypes_compilation, List.filterMap_map]
    exact (List.filterMap_congr hdescriptors).trans (congrFun List.filterMap_eq_map' _)
  rw [(profiled_compilation count depth).generate_eq]
  show (((compilation count depth).eligibleTypes marker).filterMap _).map _ = _
  rw [hunits, List.map_map]
  rfl

/-- Different settings classes have units with different keys. -/
theorem nodup_keys (count : Nat) : (((unitNumbers count).map settingsUnit).map (·.key)).Nodup := by
  rw [List.map_map]
  refine (List.nodup_range.filter _).map fun i j hkeys => ?_
  have hnames : settingsName i ++ "_g" = settingsName j ++ "_g" := hkeys
  rwa [String.append_left_inj, settingsName_inj] at hnames

theorem map_fullName_compilation (count depth : Nat) :
    (compilation count depth).typeIds.map (compilation count depth).fullName =
      ["UnityEngine.ScriptableObject", "Game.Core.SingletonScriptableObject"] ++
        (List.range depth).map (fun level => "Game.Core.Layer" ++ toString level) ++
        (List.range count).map fun number => settingsPath number ++ "." ++ settingsName number := by
  have hlayer : TypeProfile.fullName ∘ layerProfile =
      fun level => "Game.Core.Layer" ++ toString level := by
    funext level
    show "Game.Core" ++ "." ++ ("Layer" ++ toString level) = _
    rw [← String.append_assoc]
    rfl
  have hsettings : TypeProfile.fullName ∘ settingsProfile depth =
      fun number => settingsPath number ++ "." ++ settingsName number :=
    funext fullName_settingsProfile
  rw [(profiled_compilation count depth).map_fullName_typeIds, sampleTypes, layeredTypes,
    List.map_append, List.map_append, List.map_map, List.map_map, hlayer, hsettings]
  rfl

theorem check_compilation (count depth : Nat) : (compilation count depth).check = .ok () :=
  (profiled_compilation count depth).check_eq_ok (fun _ hp => name_ne_empty hp) id
    (fun _ _ _ hp hbase => base_before hp hbase) (nodup_sampleDeclarations count depth)

/-- A type of a sample gets a unit exactly if it is one of every third settings class. -/
theorem mem_eligibleTypes_compilation {id : TypeId}
    (hid : id ∈ (compilation count depth).typeIds) :
    id ∈ (compilation count depth).eligibleTypes marker ↔
      ∃ number ∈ unitNumbers count,
        (compilation count depth).fullName id = settingsPath number ++ "." ++ settingsName number := by
  have h := profiled_compilation count depth
  have hmem : id ∈ (compilation count depth).eligibleTypes marker ↔
      ∃ number ∈ unitNumbers count, (⟨depth + 2 + number⟩ : TypeId) = id := by
    rw [eligibleTypes_compilation]
    exact List.mem_map
  rw [hmem]
  refine exists_congr fun number => and_congr_right fun hnumber => ?_
  have hname : (compilation count depth).fullName ⟨depth + 2 + number⟩ = _ :=
    fullName_settings (mem_unitNumbers.mp hnumber).1
  constructor
  · rintro rfl
    exact hname
  · intro hsame
    have hknown : (⟨depth + 2 + number⟩ : TypeId) ∈ (compilation count depth).typeIds := by
      rw [h.mem_typeIds_iff, length_sampleTypes]
      exact Nat.add_lt_add_left (mem_unitNumbers.mp hnumber).1 (depth + 2)
    exact h.interned.fullName_inj hknown hid (hname.trans hsame.symm)

/-- Every sample is accepted.  It holds the root, the marker type, the layers and the settings classes.
Exactly every third settings class gets a unit.  The units stand in the order of the numbers, each for
the public class of its number in the namespace of its number, and no two of them have the same key. -/
theorem compilation_spec (count depth : Nat) :
    let c := compilation count depth
    c.check = .ok () ∧
      c.typeIds.map c.fullName =
        ["UnityEngine.ScriptableObject", "Game.Core.SingletonScriptableObject"] ++
          (List.range depth).map (fun level => "Game.Core.Layer" ++ toString level) ++
          (List.range count).map (fun number =>
            "App.Module" ++ toString (number % 8) ++ "." ++ ("Settings" ++ toString number)) ∧
      c.generate {} =
        ((List.range count).filter (· % 3 = 0)).map (fun number =>
          ({} : Settings).unitFor
            { name := "Settings" ++ toString number
              scopePath := "App.Module" ++ toString (number % 8)
              accessibility := "public" }) ∧
      List.Forall₂ (c.IsUnitOf {}) (c.eligibleTypes marker) (c.generate {}) ∧
      ((c.generate {}).map (·.key)).Nodup ∧
      ∀ id ∈ c.typeIds, id ∈ c.eligibleTypes marker ↔
        ∃ number < count, number % 3 = 0 ∧
          c.fullName id =
            "App.Module" ++ toString (number % 8) ++ "." ++ ("Settings" ++ toString number) := by
  intro c
  have hgenerate : c.generate {} = (unitNumbers count).map settingsUnit :=
    generate_compilation count depth
  refine ⟨check_compilation count depth, map_fullName_compilation count depth, hgenerate,
    forall₂_generate c {}, hgenerate ▸ nodup_keys count, fun id hid => ?_⟩
  rw [mem_eligibleTypes_compilation hid]
  simp only [mem_unitNumbers, and_assoc]
  rfl

end Companion.Sample
