import Companion.Proofs.Manifest.FilledIn
import Companion.Proofs.Manifest.Reshuffled

/-!
# Classes merged from their parts

A class is made up of all its parts.  Whether these agree, and what they make of the class, does not
depend on the order in which they come.

* `Merges`: what a symbol has of the parts of its class.
* `ComesOfParts`: a compilation holds the classes of its elements, each merged from its parts.
* `SameMerging`: two compilations hold the same classes, equally abstract and accessible.
* `merging_spec`: a manifest is refused exactly if parts differ, an accepted one comes of its parts,
  and parts may change places.
-/

namespace Companion

open Markup (Reading Tag)

/-! ### What parts come to -/

/-- What a symbol has of the parts of its class. -/
structure Merges (symbol : TypeSymbol) (parts : List Placement) : Prop where
  abstract_iff : symbol.isAbstract = true ↔ ∃ e ∈ parts, e.isAbstract = true
  level : ∀ e ∈ parts, ∀ level ∈ e.level?, symbol.accessibility = level
  unlevelled : (∀ e ∈ parts, e.level? = none) →
    symbol.accessibility = Accessibility.internalAccess

theorem merges_of_agree {elements : List Placement} (h : Agree Placement.level? elements)
    (name : String) {symbol : TypeSymbol}
    (habstract : symbol.isAbstract = (partsOf elements name).any Placement.isAbstract)
    (hlevel : symbol.accessibility =
      ((partsOf elements name).findSome? Placement.level?).getD default) :
    Merges symbol (partsOf elements name) := by
  refine ⟨?_, ?_, ?_⟩
  · rw [habstract, List.any_eq_true]
  · intro e he level hgiven
    rw [hlevel, findSome?_of_agree h he hgiven, Option.getD_some]
  · intro hnone
    rw [hlevel, List.findSome?_eq_none_iff.mpr hnone, Option.getD_none]
    rfl

/-- Parts that say the same make the same symbol. -/
theorem Merges.eq_of_same {symbol symbol' : TypeSymbol} {parts parts' : List Placement}
    (m : Merges symbol parts) (m' : Merges symbol' parts')
    (habstract : (∃ e ∈ parts', e.isAbstract = true) ↔ ∃ e ∈ parts, e.isAbstract = true)
    (hlevel : ∀ level, (∃ e ∈ parts', e.level? = some level) ↔ ∃ e ∈ parts, e.level? = some level) :
    symbol'.isAbstract = symbol.isAbstract ∧ symbol'.accessibility = symbol.accessibility := by
  refine ⟨?_, ?_⟩
  · rw [Bool.eq_iff_iff, m.abstract_iff, m'.abstract_iff, habstract]
  · by_cases hsome : ∃ e ∈ parts, e.level?.isSome = true
    · obtain ⟨e, he, h⟩ := hsome
      obtain ⟨level, hgiven⟩ := Option.isSome_iff_exists.mp h
      obtain ⟨e', he', hgiven'⟩ := (hlevel level).mpr ⟨e, he, hgiven⟩
      rw [m.level e he level hgiven, m'.level e' he' level hgiven']
    · have hnone : ∀ e ∈ parts, e.level? = none := by
        intro e he
        rw [← Option.not_isSome_iff_eq_none]
        intro h
        exact hsome ⟨e, he, h⟩
      have hnone' : ∀ e ∈ parts', e.level? = none := by
        intro e' he'
        rw [Option.eq_none_iff_forall_ne_some]
        intro level hgiven'
        obtain ⟨e, he, hgiven⟩ := (hlevel level).mp ⟨e', he', hgiven'⟩
        rw [hnone e he] at hgiven
        exact absurd hgiven (by simp)
      rw [m.unlevelled hnone, m'.unlevelled hnone']

/-! ### Compilations that come of parts -/

namespace Compilation

variable {c c' : Compilation} {elements elements' : List Placement}

/-- The declared types are the classes of the elements, in order, each merged from its parts. -/
structure ComesOfParts (c : Compilation) (elements : List Placement) : Prop where
  declared_iff : ∀ id, c.declarationsOf id ≠ [] ↔ ∃ name, (classNames elements)[id.index]? = some name
  merged : ∀ id name, (classNames elements)[id.index]? = some name →
    c.fullName id = name ∧ ∃ symbol, c.type? id = some symbol ∧ Merges symbol (partsOf elements name)

/-- The same types are declared, under the same full names, and are equally abstract and accessible. -/
def SameMerging (c c' : Compilation) : Prop :=
  ∀ id, (c'.declarationsOf id ≠ [] ↔ c.declarationsOf id ≠ []) ∧
    (c.declarationsOf id ≠ [] → c'.fullName id = c.fullName id ∧
      (c'.type? id).map (·.isAbstract) = (c.type? id).map (·.isAbstract) ∧
      (c'.type? id).map (·.accessibility) = (c.type? id).map (·.accessibility))

theorem ComesOfParts.sameMerging (h : c.ComesOfParts elements) (h' : c'.ComesOfParts elements')
    (hnames : classNames elements' = classNames elements)
    (habstract : ∀ name, (∃ e ∈ partsOf elements' name, e.isAbstract = true) ↔
      ∃ e ∈ partsOf elements name, e.isAbstract = true)
    (hlevel : ∀ name level, (∃ e ∈ partsOf elements' name, e.level? = some level) ↔
      ∃ e ∈ partsOf elements name, e.level? = some level) : c.SameMerging c' := by
  intro id
  refine ⟨by rw [h'.declared_iff, h.declared_iff, hnames], ?_⟩
  intro hdeclared
  obtain ⟨name, hname⟩ := (h.declared_iff id).mp hdeclared
  obtain ⟨hfull, symbol, hs, m⟩ := h.merged id name hname
  rw [← hnames] at hname
  obtain ⟨hfull', symbol', hs', m'⟩ := h'.merged id name hname
  obtain ⟨hsame, hsame'⟩ := m.eq_of_same m' (habstract name) (hlevel name)
  rw [hs, hs', hfull, hfull']
  exact ⟨rfl, congrArg some hsame, congrArg some hsame'⟩

end Compilation

/-- The types of a draft are the classes of its elements. -/
theorem Compilation.Declares.getElem?_classNames {c : Compilation} {elements : List Placement}
    (d : c.Declares elements) {id : TypeId} {name : String} :
    (classNames elements)[id.index]? = some name ↔ id ∈ c.typeIds ∧ c.fullName id = name := by
  have hnames : classNames elements = c.places.map (·.registeredName) := d.names.symm
  rw [hnames, List.getElem?_map, Option.map_eq_some_iff, mem_typeIds_iff]
  constructor
  · intro hall
    obtain ⟨p, hp, hname⟩ := hall
    exact ⟨⟨p, hp⟩, (d.interned.fullName_eq hp).trans hname⟩
  · intro hall
    obtain ⟨⟨p, hp⟩, hname⟩ := hall
    exact ⟨p, hp, (d.interned.fullName_eq hp).symm.trans hname⟩

/-- When all is linked the classes are those of the elements. -/
theorem Draft.Reads.comesOfParts {draft : Draft} {elements : List Placement} {around : List Tag}
    (r : draft.Reads elements around) (hbases : Agree Placement.baseText? elements)
    (hlevels : Agree Placement.level? elements) : draft.link.ComesOfParts elements := by
  have l := r.links hbases
  refine ⟨?_, ?_⟩
  · intro id
    rw [ne_eq, l.declarationsOf_eq_nil_iff r.declares, not_not]
    constructor
    · intro hid
      exact ⟨_, r.declares.getElem?_classNames.mpr ⟨hid, rfl⟩⟩
    · intro hall
      obtain ⟨name, hname⟩ := hall
      exact (r.declares.getElem?_classNames.mp hname).1
  · intro id name hname
    obtain ⟨hid, rfl⟩ := r.declares.getElem?_classNames.mp hname
    refine ⟨l.extends_.fullName_eq r.declares.interned hid, ?_⟩
    obtain ⟨symbol, hs⟩ := Compilation.exists_type?_of_mem hid
    obtain ⟨base, hlinked⟩ := r.type?_link hlevels hs
    exact ⟨_, hlinked, merges_of_agree hlevels _ rfl rfl⟩

/-! ### Manifest texts -/

namespace Compilation

variable {text : String}

/-- The elements of a manifest text, in document order. -/
def elementsOf (text : String) : List Placement :=
  placements (Reading.ofText text).events

theorem exists_ofManifest_iff (hread : (Reading.ofText text).fault? = none)
    (m : IsPartwiseManifest (elementsOf text)) :
    (∃ c, ofManifest text = .ok c) ↔ ¬ (Differ Placement.baseText? (elementsOf text) ∨
      Differ Placement.level? (elementsOf text)) := by
  rw [← m.isManifest_iff]
  show (∃ c, ofReading (Reading.ofText text) = .ok c) ↔ _
  rw [exists_ofReading_iff, and_iff_right hread]
  rfl

theorem exists_error_iff (text : String) :
    (∃ problem, ofManifest text = .error problem) ↔ ¬ ∃ c, ofManifest text = .ok c := by
  cases ofManifest text with
  | error problem => simp
  | ok c => simp

theorem comesOfParts_of_ofManifest {c : Compilation} (h : ofManifest text = .ok c) :
    c.ComesOfParts (elementsOf text) := by
  obtain ⟨hmanifest, draft, around, hreads, rfl⟩ := exists_reads_of_ofReading h
  exact hreads.comesOfParts hmanifest.basesAgree hmanifest.levelsAgree

/-- A text that is read to its end is refused with the first rule that it breaks. -/
theorem firstOffence_of_ofManifest (hread : (Reading.ofText text).fault? = none)
    {problem : ManifestError} (h : ofManifest text = .error problem) :
    FirstOffence (elementsOf text) problem := by
  rw [ofManifest] at h
  rw [elementsOf]
  generalize Reading.ofText text = reading at h hread
  obtain ⟨events, fault?⟩ := reading
  obtain rfl : fault? = none := hread
  exact firstOffence_of_ofReading h

/-- The error of a manifest that breaks no other rule says which values two parts give. -/
theorem reportsDifference_of_ofManifest (hread : (Reading.ofText text).fault? = none)
    (m : IsPartwiseManifest (elementsOf text)) {problem : ManifestError}
    (h : ofManifest text = .error problem) : ReportsDifference (elementsOf text) problem :=
  m.reportsDifference (firstOffence_of_ofManifest hread h)

/-- A manifest that breaks no other rule is refused exactly if two parts of a class differ.  If it is
accepted, every class is merged from its parts.  When the parts of a class change places, it is
accepted as before, and the classes are merged to the same. -/
theorem merging_spec (hread : (Reading.ofText text).fault? = none)
    (m : IsPartwiseManifest (elementsOf text)) :
    ((∃ problem, ofManifest text = .error problem) ↔
      Differ Placement.baseText? (elementsOf text) ∨ Differ Placement.level? (elementsOf text)) ∧
    (∀ c, ofManifest text = .ok c → c.ComesOfParts (elementsOf text)) ∧
    ∀ text' name, (Reading.ofText text').fault? = none →
      Reshuffled name (elementsOf text) (elementsOf text') →
        ((∃ c', ofManifest text' = .ok c') ↔ ∃ c, ofManifest text = .ok c) ∧
        ∀ c c', ofManifest text = .ok c → ofManifest text' = .ok c' → c.SameMerging c' := by
  refine ⟨?_, ?_, ?_⟩
  · rw [exists_error_iff, exists_ofManifest_iff hread m, not_not]
  · intro c hc
    exact comesOfParts_of_ofManifest hc
  · intro text' name hread' h
    refine ⟨?_, ?_⟩
    · rw [exists_ofManifest_iff hread' (m.reshuffle h), exists_ofManifest_iff hread m,
        h.differ_iff fun _ _ => Placement.baseText?_congr,
        h.differ_iff fun _ _ => Placement.level?_congr]
    · intro c c' hc hc'
      refine (comesOfParts_of_ofManifest hc).sameMerging (comesOfParts_of_ofManifest hc')
        h.classNames_eq ?_ ?_
      · intro other
        exact h.exists_part_iff other fun e e' hsame => by rw [Placement.isAbstract_congr hsame]
      · intro other level
        exact h.exists_given_iff (fun _ _ => Placement.level?_congr) other level

/-- A class in two parts, with another class between them. -/
def partedManifest : String :=
  "<compilation><class name=\"A\" base=\"R\"/><class name=\"B\"/>" ++
    "<class name=\"A\" abstract=\"true\" accessibility=\"public\"/></compilation>"

/-- The two parts in the other order. -/
def swappedManifest : String :=
  "<compilation><class name=\"A\" abstract=\"true\" accessibility=\"public\"/>" ++
    "<class name=\"B\"/><class name=\"A\" base=\"R\"/></compilation>"

/-- The elements of both, given the two parts. -/
def elementsWithParts (first second : List Markup.AttributeItem) : List Placement :=
  let root : Tag := ⟨"compilation", []⟩
  [⟨root, []⟩, ⟨⟨"class", .ok ⟨"name", "A"⟩ :: first⟩, [root]⟩,
    ⟨⟨"class", [.ok ⟨"name", "B"⟩]⟩, [root]⟩, ⟨⟨"class", .ok ⟨"name", "A"⟩ :: second⟩, [root]⟩]

/-- The part that names a base. -/
def basePart : List Markup.AttributeItem := [.ok ⟨"base", "R"⟩]

/-- The part that says all else. -/
def levelPart : List Markup.AttributeItem :=
  [.ok ⟨"abstract", "true"⟩, .ok ⟨"accessibility", "public"⟩]

theorem elementsOf_partedManifest :
    elementsOf partedManifest = elementsWithParts basePart levelPart := by decide +kernel

theorem elementsOf_swappedManifest :
    elementsOf swappedManifest = elementsWithParts levelPart basePart := by decide +kernel

theorem isPartwiseManifest_partedManifest : IsPartwiseManifest (elementsOf partedManifest) := by
  rw [elementsOf_partedManifest]
  refine ⟨⟨_, rfl, rfl⟩, ?_, ?_, ?_⟩
  · decide +kernel
  · decide +kernel
  · decide +kernel

theorem reshuffled_partedManifest :
    Reshuffled "A" (elementsOf partedManifest) (elementsOf swappedManifest) := by
  rw [elementsOf_partedManifest, elementsOf_swappedManifest]
  refine ⟨?_, ?_⟩
  · refine .cons (Or.inl rfl) (.cons (Or.inr ⟨⟨rfl, by decide +kernel⟩, rfl, rfl, rfl⟩)
      (.cons (Or.inl rfl) (.cons (Or.inr ⟨⟨rfl, by decide +kernel⟩, rfl, rfl, rfl⟩) .nil)))
  · decide +kernel

/-- Both orders are accepted and make the same classes. -/
theorem merging_spec_partedManifest :
    ¬ (Differ Placement.baseText? (elementsOf partedManifest) ∨
      Differ Placement.level? (elementsOf partedManifest)) ∧
    ∃ c c', ofManifest partedManifest = .ok c ∧ ofManifest swappedManifest = .ok c' ∧
      c.ComesOfParts (elementsOf partedManifest) ∧ c.SameMerging c' := by
  have hread : (Reading.ofText partedManifest).fault? = none := by decide +kernel
  have hread' : (Reading.ofText swappedManifest).fault? = none := by decide +kernel
  obtain ⟨hdiffer, hcomes, hplaces⟩ := merging_spec hread isPartwiseManifest_partedManifest
  obtain ⟨haccepted, hsame⟩ := hplaces swappedManifest "A" hread' reshuffled_partedManifest
  have hok : (ofManifest partedManifest).isOk = true := by decide +kernel
  obtain ⟨c, hc⟩ : ∃ c, ofManifest partedManifest = .ok c := by
    cases h : ofManifest partedManifest with
    | ok c => exact ⟨c, rfl⟩
    | error problem =>
      rw [h] at hok
      exact absurd hok Bool.false_ne_true
  obtain ⟨c', hc'⟩ := haccepted.mpr ⟨c, hc⟩
  refine ⟨?_, c, c', hc, hc', hcomes c hc, hsame c c' hc hc'⟩
  rw [← hdiffer, exists_error_iff, not_not]
  exact ⟨c, hc⟩

end Compilation

end Companion
