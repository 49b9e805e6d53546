import Companion.Proofs.Manifest.Disagreement
import Companion.Proofs.Manifest.Lenience
import Companion.Proofs.Manifest.Merging

/-!
# Base texts that are respelled

The parts of a class are held to the same base text.  If two of them give different texts, the
manifest is refused, also where it makes no difference to the base of the class which of the two
texts all of them give.

* `Reading.respelled`: a reading in which the parts of a class give another base text instead of
  one.
* `Placement.Respells`, `forall₂_respells`: what respelling does to each element.
* `AgreeBut`: base texts agree, where two texts of one class count as one.
* `exists_ofReading_respelled_iff`: when a reading is accepted after respelling.
* `respelling_spec`: when a manifest is accepted that is accepted with either text respelled.
-/

namespace Companion

open Markup
open Entries

/-! ### Respelling -/

/-- A text, or another one in the place of the old one. -/
def respell (old new text : String) : String :=
  if text = old then new else text

theorem respell_eq_iff {old new text text' : String} :
    respell old new text = respell old new text' ↔
      text = text' ∨ text ∈ [old, new] ∧ text' ∈ [old, new] := by
  unfold respell
  by_cases h : text = old
  · by_cases h' : text' = old
    · simp [h, h']
    · simp [h, h', Ne.symm h', eq_comm]
  · by_cases h' : text' = old
    · simp [h, h']
    · simp only [List.mem_cons, h, h', List.not_mem_nil, or_false, false_or, if_false]
      constructor
      · exact Or.inl
      · rintro (heq | ⟨rfl, rfl⟩)
        · exact heq
        · rfl

namespace Markup

/-- The attribute with a base text respelled. -/
def Attribute.respelled (old new : String) (given : Attribute) : Attribute :=
  if given.key = "base" then { given with value := respell old new given.value } else given

/-- The tag with a base text respelled. -/
def Tag.respelled (old new : String) (tag : Tag) : Tag :=
  { tag with items := tag.items.map fun item => item.map (Attribute.respelled old new) }

end Markup

/-- The tag of an element, with a base text respelled if it is a part of the class with that full
name. -/
def Placement.respelledTag (name old new : String) (e : Placement) : Tag :=
  if e.isClass ∧ e.fullName = name then e.tag.respelled old new else e.tag

/-- The events inside of the given elements, with a base text of a class respelled. -/
def respelledWithin (name old new : String) (around : List Tag) : List Event → List Event
  | [] => []
  | .openTag tag :: rest =>
    .openTag (Placement.respelledTag name old new ⟨tag, around⟩) ::
      respelledWithin name old new (tag :: around) rest
  | .emptyTag tag :: rest =>
    .emptyTag (Placement.respelledTag name old new ⟨tag, around⟩) ::
      respelledWithin name old new around rest
  | .closeTag closed :: rest =>
    .closeTag closed :: respelledWithin name old new around.tail rest
  | .filler kind :: rest => .filler kind :: respelledWithin name old new around rest

/-- The reading in which the parts of a class give the new base text instead of the old one. -/
def Markup.Reading.respelled (name old new : String) (reading : Reading) : Reading :=
  { reading with events := respelledWithin name old new [] reading.events }

section Respelled

variable {name old new : String}

/-! ### Tags -/

namespace Markup

theorem Attribute.key_respelled (given : Attribute) :
    (given.respelled old new).key = given.key := by
  rw [respelled]
  split <;> rfl

theorem Tag.attributes_respelled (tag : Tag) :
    (tag.respelled old new).attributes = tag.attributes.map (Attribute.respelled old new) := by
  rw [respelled, attributes, attributes, List.filterMap_map, List.map_filterMap]
  congr 1
  funext item
  cases item with
  | error fault => rfl
  | ok given => rfl

/-- Nothing else than a base is respelled. -/
theorem Tag.filter_respelled (tag : Tag) {key : String} (hkey : key ≠ "base") :
    (tag.respelled old new).attributes.filter (·.key = key) =
      tag.attributes.filter (·.key = key) := by
  rw [attributes_respelled, List.filter_map]
  have hfits : ((fun given : Attribute => decide (given.key = key)) ∘ Attribute.respelled old new) =
      fun given => decide (given.key = key) := by
    funext given
    rw [Function.comp_apply, Attribute.key_respelled]
  rw [hfits]
  conv_rhs => rw [← List.map_id (tag.attributes.filter _)]
  refine List.map_congr_left ?_
  intro given hgiven
  have hgivenKey : given.key = key := of_decide_eq_true (List.mem_filter.mp hgiven).2
  rw [Attribute.respelled, if_neg (by rwa [hgivenKey]), id]

theorem Tag.heading_respelled (tag : Tag) :
    (tag.respelled old new).heading = tag.heading :=
  Prod.ext rfl (tag.filter_respelled (by decide))

end Markup

theorem lastValue?_filter (attributes : List Attribute) (key : String) :
    lastValue? (attributes.filter (·.key = key)) key = lastValue? attributes key := by
  rw [lastValue?, lastValue?, ← List.filter_reverse, List.find?_filter]
  simp

theorem lastValue?_respelled (tag : Tag) {key : String} (hkey : key ≠ "base") :
    lastValue? (tag.respelled old new).attributes key = lastValue? tag.attributes key := by
  rw [← lastValue?_filter, tag.filter_respelled hkey, lastValue?_filter]

theorem lastValue?_base_respelled (tag : Tag) :
    lastValue? (tag.respelled old new).attributes "base" =
      (lastValue? tag.attributes "base").map (respell old new) := by
  rw [Tag.attributes_respelled, lastValue?, lastValue?, ← List.map_reverse, List.find?_map,
    Option.map_map, Option.map_map]
  have hfits : ((fun given : Attribute => decide (given.key = "base")) ∘
      Attribute.respelled old new) = fun given => decide (given.key = "base") := by
    funext given
    rw [Function.comp_apply, Attribute.key_respelled]
  rw [hfits]
  refine Option.map_congr ?_
  intro given hgiven
  have hkey : given.key = "base" := by simpa using List.find?_some hgiven
  rw [Function.comp_apply, Function.comp_apply, Attribute.respelled, if_pos hkey]

theorem fitsClass_respelled (given : Attribute) :
    fitsClass (given.respelled old new) = fitsClass given := by
  by_cases hkey : given.key = "base"
  · simp [fitsClass, Attribute.key_respelled, hkey]
  · rw [Attribute.respelled, if_neg hkey]

/-! ### Elements -/

namespace Placement

/-- One element is another one after respelling. -/
structure Respells (name old new : String) (e e' : Placement) : Prop where
  headings : e'.headings = e.headings
  tag : e'.tag = e.respelledTag name old new

variable {e e' : Placement}

theorem heading_respelledTag (e : Placement) :
    (e.respelledTag name old new).heading = e.tag.heading := by
  rw [respelledTag]
  split
  · exact e.tag.heading_respelled
  · rfl

theorem Respells.level?_eq (h : Respells name old new e e') : e'.level? = e.level? := by
  rw [level?, level?, h.tag, respelledTag]
  split
  · rw [lastValue?_respelled _ (by decide)]
  · rfl

/-- A part of the class gives the new base text if it gave the old one. -/
theorem Respells.baseText?_eq (h : Respells name old new e e') (hclass : e.isClass = true) :
    e'.baseText? =
      if e.fullName = name then e.baseText?.map (respell old new) else e.baseText? := by
  rw [baseText?, baseText?, h.tag, respelledTag]
  by_cases hname : e.fullName = name
  · rw [if_pos ⟨hclass, hname⟩, if_pos hname, lastValue?_base_respelled]
  · rw [if_neg fun hboth => hname hboth.2, if_neg hname]

theorem Respells.fits_iff (h : Respells name old new e e') :
    (∀ given ∈ e'.tag.attributes, fitsClass given = true) ↔
      ∀ given ∈ e.tag.attributes, fitsClass given = true := by
  rw [h.tag, respelledTag]
  split
  · simp only [Tag.attributes_respelled, List.forall_mem_map, fitsClass_respelled]
  · rfl

end Placement

/-- An element is respelled where it stands, also inside of an element that has been respelled. -/
theorem respells_respelledTag (tag : Tag) {around around' : List Tag}
    (h : around'.map Tag.heading = around.map Tag.heading) :
    Placement.Respells name old new ⟨tag, around⟩
      ⟨Placement.respelledTag name old new ⟨tag, around⟩, around'⟩ := by
  refine ⟨?_, rfl⟩
  rw [Placement.headings, Placement.headings, List.map_cons, List.map_cons,
    Placement.heading_respelledTag, h]

/-- Elements are respelled one by one. -/
theorem forall₂_respells (events : List Event) {around around' : List Tag}
    (h : around'.map Tag.heading = around.map Tag.heading) :
    List.Forall₂ (Placement.Respells name old new) (placementsWithin around events)
      (placementsWithin around' (respelledWithin name old new around events)) := by
  induction events generalizing around around' with
  | nil => exact .nil
  | cons event rest ih =>
    cases event with
    | openTag tag =>
      have htag : Placement.Respells name old new ⟨tag, around⟩
          ⟨Placement.respelledTag name old new ⟨tag, around⟩, around'⟩ :=
        respells_respelledTag tag h
      exact .cons htag (ih htag.headings)
    | emptyTag tag => exact .cons (respells_respelledTag tag h) (ih h)
    | closeTag closed =>
      refine ih ?_
      rw [List.map_tail, List.map_tail, h]
    | filler kind => exact ih h

/-! ### Agreement after respelling -/

/-- Parts of one class give no different base texts, where two texts of one class count as one. -/
def AgreeBut (name first second : String) (elements : List Placement) : Prop :=
  ∀ e ∈ elements, ∀ e' ∈ elements, e.isClass = true → e'.isClass = true →
    e.fullName = e'.fullName → ∀ text ∈ e.baseText?, ∀ text' ∈ e'.baseText?,
      text = text' ∨ e.fullName = name ∧ text ∈ [first, second] ∧ text' ∈ [first, second]

theorem agreeBut_comm {first second : String} {elements : List Placement} :
    AgreeBut name first second elements ↔ AgreeBut name second first elements := by
  have hpair : ∀ text, text ∈ [first, second] ↔ text ∈ [second, first] := by
    intro text
    exact (List.Perm.swap second first []).mem_iff
  simp only [AgreeBut, hpair]

section Elements

variable {elements elements' : List Placement}

theorem isPartwiseManifest_respelled_iff
    (h : List.Forall₂ (Placement.Respells name old new) elements elements') :
    IsPartwiseManifest elements' ↔ IsPartwiseManifest elements := by
  have hheadings : elements'.map Placement.headings = elements.map Placement.headings := by
    rw [← List.forall₂_eq_eq_eq, List.forall₂_map_left_iff, List.forall₂_map_right_iff]
    exact h.flip.imp fun e' e hrespells => hrespells.headings
  have hvalued := forall_mem_iff_of_forall₂ h
    (p := fun e => e.isClass = true → ∀ given ∈ e.tag.attributes, fitsClass given = true)
    (q := fun e => e.isClass = true → ∀ given ∈ e.tag.attributes, fitsClass given = true)
    fun e e' hrespells => by
      rw [Placement.isClass_of_headings hrespells.headings, hrespells.fits_iff]
  constructor
  · intro m
    exact m.of_headings hheadings.symm (hvalued.mpr m.valued)
  · intro m
    exact m.of_headings hheadings (hvalued.mp m.valued)

/-- What is said of any two parts of a class is said of them after respelling. -/
theorem forall_parts_respelled_iff
    (h : List.Forall₂ (Placement.Respells name old new) elements elements')
    {P Q : Placement → Placement → Prop}
    (hPQ : ∀ a a' b b', Placement.Respells name old new a a' → Placement.Respells name old new b b' →
      a.isClass = true → b.isClass = true → a.fullName = b.fullName → (P a b ↔ Q a' b')) :
    (∀ a ∈ elements, ∀ b ∈ elements, a.isClass = true → b.isClass = true →
      a.fullName = b.fullName → P a b) ↔
    ∀ a ∈ elements', ∀ b ∈ elements', a.isClass = true → b.isClass = true →
      a.fullName = b.fullName → Q a b := by
  refine forall_mem_iff_of_forall₂ h fun a a' ha => ?_
  refine forall_mem_iff_of_forall₂ h fun b b' hb => ?_
  rw [Placement.isClass_of_headings ha.headings, Placement.isClass_of_headings hb.headings,
    Placement.fullName_of_headings ha.headings, Placement.fullName_of_headings hb.headings]
  exact forall₃_congr fun hclass hclass' hname => hPQ a a' b b' ha hb hclass hclass' hname

theorem agree_level?_respelled_iff
    (h : List.Forall₂ (Placement.Respells name old new) elements elements') :
    Agree Placement.level? elements' ↔ Agree Placement.level? elements := by
  refine (forall_parts_respelled_iff h ?_).symm
  intro a a' b b' ha hb _ _ _
  rw [ha.level?_eq, hb.level?_eq]

/-- After respelling parts agree if they agreed but for the two texts. -/
theorem agree_baseText?_respelled_iff
    (h : List.Forall₂ (Placement.Respells name old new) elements elements') :
    Agree Placement.baseText? elements' ↔ AgreeBut name old new elements := by
  refine (forall_parts_respelled_iff h ?_).symm
  intro a a' b b' ha hb hclass hclass' hname
  rw [ha.baseText?_eq hclass, hb.baseText?_eq hclass', ← hname]
  by_cases heq : a.fullName = name
  · simp only [heq, if_true, true_and, Option.mem_def, Option.map_eq_some_iff,
      forall_exists_index, and_imp, forall_apply_eq_imp_iff₂, respell_eq_iff]
  · simp only [heq, if_false, false_and, or_false]

end Elements

end Respelled

/-! ### The whole manifest -/

section Conflict

variable {elements : List Placement} {name first second : String}

/-- Parts of a class that give different base texts, where all agree but for two texts of one class,
are parts of that class and give one of these texts each. -/
theorem AgreeBut.eq_of_conflict {before after : List Placement} {e : Placement}
    {problem : ManifestError} (h : AgreeBut name first second elements)
    (hsplit : elements = before ++ e :: after) (hclass : e.isClass = true)
    (hconflict : conflict? (.conflictingBases · · e.fullName)
      ((partsOf before e.fullName).findSome? Placement.baseText?) e.baseText? = some problem) :
    ∃ a b, problem = .conflictingBases a b name ∧
      (partsOf elements name).findSome? Placement.baseText? = some a ∧
        (a = first ∧ b = second ∨ a = second ∧ b = first) := by
  obtain ⟨a, ha, b, hb, rfl, hne⟩ := conflict?_eq_some_iff.mp hconflict
  obtain ⟨x, hx, hgiven⟩ := List.exists_of_findSome?_eq_some ha
  obtain ⟨hmem, hclass', hsame⟩ := mem_partsOf.mp hx
  have hx' : x ∈ elements := by
    rw [hsplit]
    exact List.mem_append_left _ hmem
  have he : e ∈ elements := by
    rw [hsplit]
    exact List.mem_append_right _ List.mem_cons_self
  rcases h x hx' e he hclass' hclass hsame a hgiven b hb with heq | ⟨hname, ha', hb'⟩
  · exact absurd heq hne
  · rw [← hsame, hname] at ha ⊢
    refine ⟨a, b, rfl, ?_, ?_⟩
    · rw [hsplit, partsOf_append, List.findSome?_append, Option.mem_def.mp ha, Option.some_or]
    · simp only [List.mem_cons, List.not_mem_nil, or_false] at ha' hb'
      rcases ha' with rfl | rfl
      · exact Or.inl ⟨rfl, hb'.resolve_left (Ne.symm hne)⟩
      · exact Or.inr ⟨rfl, hb'.resolve_right (Ne.symm hne)⟩

/-- Where base texts agree but for two texts of one class, and levels agree, the first rule that is
broken is that these two are the same.  The error gives them in the order in which they come. -/
theorem IsPartwiseManifest.conflictingBases (m : IsPartwiseManifest elements)
    (hbases : AgreeBut name first second elements) (hlevels : Agree Placement.level? elements)
    {problem : ManifestError} (h : FirstOffence elements problem) :
    ∃ a b, problem = .conflictingBases a b name ∧
      (partsOf elements name).findSome? Placement.baseText? = some a ∧
        (a = first ∧ b = second ∨ a = second ∧ b = first) := by
  obtain ⟨before, e, after, hsplit, hclass, hdisagreement⟩ := m.exists_disagreement h
  rw [Placement.disagreement?, Option.or_eq_some_iff] at hdisagreement
  rcases hdisagreement with hconflict | ⟨-, hconflict⟩
  · exact hbases.eq_of_conflict hsplit hclass hconflict
  · obtain ⟨a, b, -, hne, hpart, hpart'⟩ := exists_parts_of_conflict hsplit hclass hconflict
    exact absurd (differ_iff.mpr ⟨e.fullName, a, b, hne, hpart, hpart'⟩)
      (not_differ_iff.mpr hlevels)

end Conflict

namespace Compilation

variable {text text₁ text₂ name old new first second : String}

/-- A reading is accepted after respelling exactly if it is complete and its elements obey the rules of
a manifest but for the two texts. -/
theorem exists_ofReading_respelled_iff (reading : Reading) :
    (∃ c, ofReading (reading.respelled name old new) = .ok c) ↔
      reading.fault? = none ∧ IsPartwiseManifest (placements reading.events) ∧
        AgreeBut name old new (placements reading.events) ∧
          Agree Placement.level? (placements reading.events) := by
  have hrespells : List.Forall₂ (Placement.Respells name old new) (placements reading.events)
      (placements (reading.respelled name old new).events) := forall₂_respells reading.events rfl
  rw [exists_ofReading_iff, isManifest_iff_agree, isPartwiseManifest_respelled_iff hrespells,
    agree_baseText?_respelled_iff hrespells, agree_level?_respelled_iff hrespells]
  rfl

/-- A text is read like another one in which the parts of a class give the new base text instead of
the old one. -/
def Respelled (name old new text text' : String) : Prop :=
  (Reading.ofText text').cleaned = ((Reading.ofText text).respelled name old new).cleaned

theorem Respelled.exists_ofManifest_iff {text' : String}
    (h : Respelled name old new text text') :
    (∃ c, ofManifest text' = .ok c) ↔
      (Reading.ofText text).fault? = none ∧ IsPartwiseManifest (elementsOf text) ∧
        AgreeBut name old new (elementsOf text) ∧ Agree Placement.level? (elementsOf text) := by
  rw [ofManifest, ← ofReading_cleaned, h, ofReading_cleaned, exists_ofReading_respelled_iff]
  rfl

/-- Let parts of a class give two base texts.  Take the manifest in which they give the first one
instead of the second, and the manifest in which it is the other way round.  Both are accepted or
both are refused.  If they are accepted, whatever they link the class to, then the manifest itself is
accepted exactly if the two texts are the same.  If they are not, the error gives both texts, in the
order in which they come. -/
theorem respelling_spec
    (hfirst : ∃ e ∈ partsOf (elementsOf text) name, e.baseText? = some first)
    (hsecond : ∃ e ∈ partsOf (elementsOf text) name, e.baseText? = some second)
    (h₁ : Respelled name second first text text₁) (h₂ : Respelled name first second text text₂) :
    ((∃ c, ofManifest text₁ = .ok c) ↔ ∃ c, ofManifest text₂ = .ok c) ∧
    ((∃ c, ofManifest text₁ = .ok c) →
      ((∃ c, ofManifest text = .ok c) ↔ first = second) ∧
      (first ≠ second → ∃ a b, ofManifest text = .error (.conflictingBases a b name) ∧
        (partsOf (elementsOf text) name).findSome? Placement.baseText? = some a ∧
          (a = first ∧ b = second ∨ a = second ∧ b = first))) := by
  refine ⟨?_, ?_⟩
  · rw [h₁.exists_ofManifest_iff, h₂.exists_ofManifest_iff, agreeBut_comm]
  · rw [h₁.exists_ofManifest_iff, agreeBut_comm]
    intro hall
    obtain ⟨hread, m, hbases, hlevels⟩ := hall
    have haccepted : (∃ c, ofManifest text = .ok c) ↔ first = second := by
      rw [exists_ofManifest_iff hread m, not_or, not_differ_iff, not_differ_iff,
        and_iff_left hlevels]
      constructor
      · intro hagree
        obtain ⟨e, he, hgiven⟩ := hfirst
        have hfound := findSome?_of_agree hagree he hgiven
        obtain ⟨e', he', hgiven'⟩ := hsecond
        rw [findSome?_of_agree hagree he' hgiven', Option.some.injEq] at hfound
        exact hfound.symm
      · rintro rfl e he e' he' hclass hclass' hname a ha b hb
        rcases hbases e he e' he' hclass hclass' hname a ha b hb with heq | ⟨-, ha', hb'⟩
        · exact heq
        · simp only [List.mem_cons, List.not_mem_nil, or_false, or_self] at ha' hb'
          rw [ha', hb']
    refine ⟨haccepted, ?_⟩
    intro hne
    rw [← not_iff_not, ← exists_error_iff] at haccepted
    obtain ⟨problem, hproblem⟩ := haccepted.mpr hne
    obtain ⟨a, b, rfl, hgiven, horder⟩ :=
      m.conflictingBases hbases hlevels (firstOffence_of_ofManifest hread hproblem)
    exact ⟨a, b, hproblem, hgiven, horder⟩

/-- A class in two parts with a base each, in the namespace of the class `B`. -/
def twoPartManifest (base base' : String) : String :=
  "<compilation><namespace name=\"A\"><class name=\"B\"/>" ++
    "<class name=\"C\" partial=\"true\" base=\"" ++ base ++ "\"/>" ++
      "<class name=\"C\" partial=\"true\" base=\"" ++ base' ++ "\"/></namespace></compilation>"

/-- How it is read. -/
def twoPartReading (base base' : String) : Reading where
  events :=
    let part (text : String) : Event :=
      .emptyTag ⟨"class", [.ok ⟨"name", "C"⟩, .ok ⟨"partial", "true"⟩, .ok ⟨"base", text⟩]⟩
    [.openTag ⟨"compilation", []⟩, .openTag ⟨"namespace", [.ok ⟨"name", "A"⟩]⟩,
      .emptyTag ⟨"class", [.ok ⟨"name", "B"⟩]⟩, part base, part base', .closeTag "namespace",
      .closeTag "compilation"]
  fault? := none

/-- What it comes to if the base of the class is `B`. -/
def twoPartCompilation : Compilation where
  namespaces := [⟨"A", none⟩]
  types := [⟨"A.B", { name := "B", scope := some ⟨0⟩ }⟩,
    ⟨"A.C", { name := "C", scope := some ⟨0⟩, base := some ⟨0⟩ }⟩]
  declarations := [⟨⟨0⟩, false⟩, ⟨⟨1⟩, true⟩, ⟨⟨1⟩, true⟩]

theorem ofText_twoPartManifest :
    Reading.ofText (twoPartManifest "B" "A.B") = twoPartReading "B" "A.B" ∧
      Reading.ofText (twoPartManifest "B" "B") = twoPartReading "B" "B" ∧
        Reading.ofText (twoPartManifest "A.B" "A.B") = twoPartReading "A.B" "A.B" := by
  refine ⟨?_, ?_, ?_⟩
  · decide +kernel
  · decide +kernel
  · decide +kernel

theorem exists_part_twoPartManifest :
    (∃ e ∈ partsOf (elementsOf (twoPartManifest "B" "A.B")) "A.C", e.baseText? = some "B") ∧
      ∃ e ∈ partsOf (elementsOf (twoPartManifest "B" "A.B")) "A.C",
        e.baseText? = some "A.B" := by
  have hbases : (partsOf (elementsOf (twoPartManifest "B" "A.B")) "A.C").map Placement.baseText? =
      [some "B", some "A.B"] := by
    rw [elementsOf, ofText_twoPartManifest.1]
    decide +kernel
  refine ⟨List.mem_map.mp ?_, List.mem_map.mp ?_⟩
  · rw [hbases]
    exact List.mem_cons_self
  · rw [hbases]
    exact List.mem_cons_of_mem _ List.mem_cons_self

theorem respelled_twoPartManifest :
    Respelled "A.C" "A.B" "B" (twoPartManifest "B" "A.B") (twoPartManifest "B" "B") ∧
      Respelled "A.C" "B" "A.B" (twoPartManifest "B" "A.B") (twoPartManifest "A.B" "A.B") := by
  obtain ⟨hread, hread₁, hread₂⟩ := ofText_twoPartManifest
  refine ⟨?_, ?_⟩
  · rw [Respelled, hread, hread₁]
    decide +kernel
  · rw [Respelled, hread, hread₂]
    decide +kernel

theorem ofManifest_twoPartManifest :
    ofManifest (twoPartManifest "B" "B") = .ok twoPartCompilation ∧
      ofManifest (twoPartManifest "A.B" "A.B") = .ok twoPartCompilation := by
  obtain ⟨-, hread₁, hread₂⟩ := ofText_twoPartManifest
  refine ⟨?_, ?_⟩
  · rw [ofManifest, hread₁]
    decide +kernel
  · rw [ofManifest, hread₂]
    decide +kernel

/-- A simple and a qualified name of one base are different texts. -/
theorem respelling_spec_twoPartManifest :
    (∃ c, ofManifest (twoPartManifest "B" "B") = .ok c) ∧
      (∃ c, ofManifest (twoPartManifest "A.B" "A.B") = .ok c) ∧
      ¬ ∃ c, ofManifest (twoPartManifest "B" "A.B") = .ok c := by
  obtain ⟨hfirst, hsecond⟩ := exists_part_twoPartManifest
  obtain ⟨h₁, h₂⟩ := respelled_twoPartManifest
  obtain ⟨hboth, hconflict⟩ := respelling_spec hfirst hsecond h₁ h₂
  have hok : ∃ c, ofManifest (twoPartManifest "B" "B") = .ok c :=
    ⟨twoPartCompilation, ofManifest_twoPartManifest.1⟩
  refine ⟨hok, hboth.mp hok, ?_⟩
  rw [(hconflict hok).1]
  decide

/-- With either text in both parts the class has the same base, and with one in each part the manifest
is refused. -/
theorem conflictingBases_twoPartManifest :
    ((∃ e ∈ partsOf (elementsOf (twoPartManifest "B" "A.B")) "A.C", e.baseText? = some "B") ∧
      ∃ e ∈ partsOf (elementsOf (twoPartManifest "B" "A.B")) "A.C",
        e.baseText? = some "A.B") ∧
    (Respelled "A.C" "A.B" "B" (twoPartManifest "B" "A.B") (twoPartManifest "B" "B") ∧
      Respelled "A.C" "B" "A.B" (twoPartManifest "B" "A.B") (twoPartManifest "A.B" "A.B")) ∧
    (ofManifest (twoPartManifest "B" "B") = .ok twoPartCompilation ∧
      ofManifest (twoPartManifest "A.B" "A.B") = .ok twoPartCompilation) ∧
    (twoPartCompilation.base? ⟨1⟩).map twoPartCompilation.fullName = some "A.B" ∧
    ofManifest (twoPartManifest "B" "A.B") = .error (.conflictingBases "B" "A.B" "A.C") := by
  refine ⟨exists_part_twoPartManifest, respelled_twoPartManifest, ofManifest_twoPartManifest,
    by decide +kernel, ?_⟩
  rw [ofManifest, ofText_twoPartManifest.1]
  decide +kernel

end Compilation

end Companion
