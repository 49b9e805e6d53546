import Companion.Proofs.Manifest.Acceptance

/-!
# Parts of a class that disagree

Agreement between the parts of a class is apart from the other rules of a manifest.

* `IsPartwiseManifest`: the rules of a manifest, except that parts of a class may disagree.
* `Placement.headings`: all that tells what an element is and where it stands.
* `IsPartwiseManifest.of_headings`: these rules ask for nothing else but values that fit.
* `Differ`: two parts of a class give different values.
* `IsPartwiseManifest.isManifest_iff`: nothing else is asked for than that parts do not differ.
* `IsPartwiseManifest.exists_disagreement`: the first rule that is broken is broken by such a part.
* `IsPartwiseManifest.reportsDifference`: the first rule that is broken says how parts differ.
-/

namespace Companion

open Markup (Attribute Tag)

/-! ### What an element is and where it stands -/

/-- The kind of an element and the attributes that give its name. -/
def Markup.Tag.heading (tag : Tag) : String × List Attribute :=
  (tag.name, tag.attributes.filter (·.key = "name"))

theorem nameAttribute?_eq_heading (tag : Tag) :
    nameAttribute? tag = tag.heading.2.head?.map (·.value) := by
  rw [nameAttribute?, Tag.heading, List.head?_filter]

theorem scopeNames_eq_of_headings {around around' : List Tag}
    (h : around'.map Tag.heading = around.map Tag.heading) :
    scopeNames around' = scopeNames around := by
  have hscopes : ∀ tags : List Tag, scopeNames tags =
      ((tags.map Tag.heading).reverse.filter (·.1 = "namespace")).filterMap
        fun heading => heading.2.head?.map (·.value) := by
    intro tags
    rw [← List.map_reverse, List.filter_map, List.filterMap_map, scopeNames]
    exact List.filterMap_congr fun tag _ => nameAttribute?_eq_heading tag
  rw [hscopes, hscopes, h]

namespace Placement

/-- The headings of an element and of those around it. -/
def headings (e : Placement) : List (String × List Attribute) :=
  (e.tag :: e.around).map Tag.heading

variable {e e' : Placement}

theorem heading_of_headings (h : e'.headings = e.headings) :
    e'.tag.heading = e.tag.heading := (List.cons.inj h).1

theorem around_of_headings (h : e'.headings = e.headings) :
    e'.around.map Tag.heading = e.around.map Tag.heading := (List.cons.inj h).2

theorem kind_of_headings (h : e'.headings = e.headings) : e'.tag.name = e.tag.name :=
  congrArg Prod.fst (heading_of_headings h)

theorem isClass_of_headings (h : e'.headings = e.headings) : e'.isClass = e.isClass := by
  rw [isClass, isClass, kind_of_headings h]

theorem isScope_of_headings (h : e'.headings = e.headings) : e'.isScope = e.isScope := by
  rw [isScope, isScope, kind_of_headings h]

theorem isOutermost_eq_headings (e : Placement) : e.isOutermost = e.headings.tail.isEmpty := by
  rw [isOutermost, headings, List.map_cons, List.tail_cons, List.isEmpty_map]

theorem isNamed_of_headings (h : e'.headings = e.headings) : e'.isNamed = e.isNamed := by
  have hnamed : ∀ x : Placement, x.isNamed = !x.tag.heading.2.isEmpty := by
    intro x
    rw [isNamed, Tag.heading, Bool.eq_iff_iff]
    simp [List.filter_eq_nil_iff]
  rw [hnamed, hnamed, heading_of_headings h]

theorem className_of_headings (h : e'.headings = e.headings) : e'.className = e.className := by
  have hname : ∀ x : Placement,
      x.className = (x.tag.heading.2.reverse.head?.map (·.value)).getD "" := by
    intro x
    rw [className, lastValue?, Tag.heading, ← List.filter_reverse, List.head?_filter]
  rw [hname, hname, heading_of_headings h]

theorem fullName_of_headings (h : e'.headings = e.headings) : e'.fullName = e.fullName := by
  rw [fullName, fullName, nameWithin, nameWithin, className_of_headings h,
    scopeNames_eq_of_headings (around_of_headings h)]

end Placement

/-! ### Agreement and the other rules -/

/-- The rules that the elements of a manifest obey, except that parts of a class may disagree. -/
structure IsPartwiseManifest (elements : List Placement) : Prop where
  /-- One element stands in no other one, and it is named `compilation`. -/
  oneRoot : ∃ root, elements.filter Placement.isOutermost = [root] ∧ root.tag.name = "compilation"
  /-- Every other one is a namespace or class element in a compilation or namespace. -/
  nested : ∀ e ∈ elements, ∀ parent ∈ e.around.head?,
    (e.isScope = true ∨ e.isClass = true) ∧
      (parent.name = "compilation" ∨ parent.name = "namespace")
  named : ∀ e ∈ elements, e.isScope = true ∨ e.isClass = true → e.isNamed = true
  valued : ∀ e ∈ elements, e.isClass = true → ∀ given ∈ e.tag.attributes, fitsClass given = true

/-- The rules other than agreement ask for headings and for values that fit. -/
theorem IsPartwiseManifest.of_headings {elements elements' : List Placement}
    (m : IsPartwiseManifest elements)
    (h : elements'.map Placement.headings = elements.map Placement.headings)
    (hvalued : ∀ e ∈ elements', e.isClass = true → ∀ given ∈ e.tag.attributes,
      fitsClass given = true) : IsPartwiseManifest elements' := by
  have hmem : ∀ e' ∈ elements', ∃ e ∈ elements, e'.headings = e.headings := by
    intro e' he'
    have hin := List.mem_map_of_mem (f := Placement.headings) he'
    rw [h] at hin
    obtain ⟨e, he, heq⟩ := List.mem_map.mp hin
    exact ⟨e, he, heq.symm⟩
  refine ⟨?_, ?_, ?_, hvalued⟩
  · obtain ⟨root, hroot, hname⟩ := m.oneRoot
    have houter : ∀ l : List Placement, (l.filter Placement.isOutermost).map Placement.headings =
        (l.map Placement.headings).filter (·.tail.isEmpty) := by
      intro l
      rw [List.filter_map]
      exact congrArg (List.map _)
        (List.filter_congr fun e _ => e.isOutermost_eq_headings)
    have hroots : (elements'.filter Placement.isOutermost).map Placement.headings =
        [root.headings] := by
      rw [houter, h, ← houter, hroot, List.map_singleton]
    obtain ⟨root', hroot', heq⟩ := List.map_eq_singleton_iff.mp hroots
    exact ⟨root', hroot', (Placement.kind_of_headings heq).trans hname⟩
  · intro e' he' parent' hparent'
    obtain ⟨e, he, heq⟩ := hmem e' he'
    have hheads := congrArg List.head? (Placement.around_of_headings heq)
    rw [List.head?_map, List.head?_map, Option.mem_def.mp hparent', Option.map_some, eq_comm,
      Option.map_eq_some_iff] at hheads
    obtain ⟨parent, hparent, hsame⟩ := hheads
    have hkind : parent.name = parent'.name := congrArg Prod.fst hsame
    rw [Placement.isScope_of_headings heq, Placement.isClass_of_headings heq, ← hkind]
    exact m.nested e he parent hparent
  · intro e' he'
    obtain ⟨e, he, heq⟩ := hmem e' he'
    rw [Placement.isScope_of_headings heq, Placement.isClass_of_headings heq,
      Placement.isNamed_of_headings heq]
    exact m.named e he

/-- Two parts of one class give different values. -/
def Differ {α : Type} (given : Placement → Option α) (elements : List Placement) : Prop :=
  ∃ e ∈ elements, ∃ e' ∈ elements, e.isClass = true ∧ e'.isClass = true ∧
    e.fullName = e'.fullName ∧ ∃ value ∈ given e, ∃ value' ∈ given e', value ≠ value'

theorem not_differ_iff {α : Type} {given : Placement → Option α} {elements : List Placement} :
    ¬ Differ given elements ↔ Agree given elements := by
  constructor
  · intro h e he e' he' hclass hclass' hname value hvalue value' hvalue'
    by_contra hne
    exact h ⟨e, he, e', he', hclass, hclass', hname, value, hvalue, value', hvalue', hne⟩
  · intro h hdiffer
    obtain ⟨e, he, e', he', hclass, hclass', hname, value, hvalue, value', hvalue', hne⟩ := hdiffer
    exact hne (h e he e' he' hclass hclass' hname value hvalue value' hvalue')

theorem differ_iff {α : Type} {given : Placement → Option α} {elements : List Placement} :
    Differ given elements ↔ ∃ name value value', value ≠ value' ∧
      (∃ e ∈ partsOf elements name, given e = some value) ∧
        ∃ e' ∈ partsOf elements name, given e' = some value' := by
  constructor
  · intro h
    obtain ⟨e, he, e', he', hclass, hclass', hname, value, hvalue, value', hvalue', hne⟩ := h
    exact ⟨e.fullName, value, value', hne, ⟨e, mem_partsOf.mpr ⟨he, hclass, rfl⟩, hvalue⟩,
      e', mem_partsOf.mpr ⟨he', hclass', hname.symm⟩, hvalue'⟩
  · intro h
    obtain ⟨name, value, value', hne, ⟨e, he, hvalue⟩, e', he', hvalue'⟩ := h
    obtain ⟨hmem, hclass, hname⟩ := mem_partsOf.mp he
    obtain ⟨hmem', hclass', hname'⟩ := mem_partsOf.mp he'
    exact ⟨e, hmem, e', hmem', hclass, hclass', hname.trans hname'.symm, value, hvalue, value',
      hvalue', hne⟩

/-- The rules of a manifest are agreement and the others. -/
theorem isManifest_iff_agree {elements : List Placement} :
    IsManifest elements ↔ IsPartwiseManifest elements ∧
      Agree Placement.baseText? elements ∧ Agree Placement.level? elements := by
  constructor
  · intro h
    exact ⟨⟨h.oneRoot, h.nested, h.named, h.valued⟩, h.basesAgree, h.levelsAgree⟩
  · intro hall
    obtain ⟨m, hbases, hlevels⟩ := hall
    exact ⟨m.oneRoot, m.nested, m.named, m.valued, hbases, hlevels⟩

theorem IsPartwiseManifest.isManifest_iff {elements : List Placement}
    (h : IsPartwiseManifest elements) :
    IsManifest elements ↔
      ¬ (Differ Placement.baseText? elements ∨ Differ Placement.level? elements) := by
  rw [not_or, not_differ_iff, not_differ_iff, isManifest_iff_agree, and_iff_right h]

/-! ### How parts differ -/

/-- The error says which values two parts of a class give. -/
def ReportsDifference (elements : List Placement) (problem : ManifestError) : Prop :=
  ∃ name,
    (∃ a b, problem = .conflictingBases a b name ∧ a ≠ b ∧
      (∃ e ∈ partsOf elements name, e.baseText? = some a) ∧
        ∃ e ∈ partsOf elements name, e.baseText? = some b) ∨
    ∃ a b, problem = .conflictingAccessibilities a b name ∧ a ≠ b ∧
      (∃ e ∈ partsOf elements name, e.level? = some a) ∧
        ∃ e ∈ partsOf elements name, e.level? = some b

theorem conflict?_eq_some_iff {α : Type} [DecidableEq α] {error : α → α → ManifestError}
    {previous value : Option α} {problem : ManifestError} :
    conflict? error previous value = some problem ↔
      ∃ a ∈ previous, ∃ b ∈ value, problem = error a b ∧ a ≠ b := by
  cases previous with
  | none => simp [conflict?]
  | some a =>
    cases value with
    | none => simp [conflict?]
    | some b =>
      by_cases hab : a = b
      · simp [conflict?, hab]
      · simp [conflict?, hab, eq_comm]

/-- A conflict is one between an earlier part of the class and the part at hand. -/
theorem exists_parts_of_conflict {α : Type} [DecidableEq α] {given : Placement → Option α}
    {error : α → α → ManifestError} {problem : ManifestError} {elements before after : List Placement}
    {e : Placement} (hsplit : elements = before ++ e :: after) (hclass : e.isClass = true)
    (h : conflict? error ((partsOf before e.fullName).findSome? given) (given e) = some problem) :
    ∃ a b, problem = error a b ∧ a ≠ b ∧ (∃ x ∈ partsOf elements e.fullName, given x = some a) ∧
      ∃ x ∈ partsOf elements e.fullName, given x = some b := by
  obtain ⟨a, ha, b, hb, hproblem, hne⟩ := conflict?_eq_some_iff.mp h
  obtain ⟨x, hx, hgiven⟩ := List.exists_of_findSome?_eq_some ha
  obtain ⟨hmem, hclass', hname⟩ := mem_partsOf.mp hx
  refine ⟨a, b, hproblem, hne, ⟨x, mem_partsOf.mpr ⟨?_, hclass', hname⟩, hgiven⟩,
    e, mem_partsOf.mpr ⟨?_, hclass, rfl⟩, hb⟩
  · rw [hsplit]
    exact List.mem_append_left _ hmem
  · rw [hsplit]
    exact List.mem_append_right _ List.mem_cons_self

namespace IsPartwiseManifest

variable {elements before after : List Placement} {e : Placement}

/-- The outermost element comes first. -/
theorem any_isOutermost_eq_false (m : IsPartwiseManifest elements)
    (hsplit : elements = before ++ e :: after) (houter : e.isOutermost = true) :
    e.tag.name = "compilation" ∧ before.any Placement.isOutermost = false := by
  obtain ⟨root, hroot, hname⟩ := m.oneRoot
  rw [hsplit, List.filter_append, List.filter_cons_of_pos houter, List.append_eq_singleton_iff] at hroot
  rcases hroot with ⟨hbefore, heq⟩ | ⟨-, hnil⟩
  · obtain ⟨rfl, -⟩ := List.cons.inj heq
    refine ⟨hname, ?_⟩
    rw [← Bool.not_eq_true, List.any_eq_true]
    intro hany
    obtain ⟨x, hx, hxouter⟩ := hany
    exact List.filter_eq_nil_iff.mp hbefore x hx hxouter
  · exact absurd hnil (List.cons_ne_nil _ _)

/-- Only a part of a class can break a rule, when it disagrees with an earlier one. -/
theorem offence?_eq (m : IsPartwiseManifest elements) (hsplit : elements = before ++ e :: after) :
    e.offence? before = if e.isClass then e.disagreement? before else none := by
  have hmem : e ∈ elements := by
    rw [hsplit]
    exact List.mem_append_right _ List.mem_cons_self
  cases haround : e.around with
  | nil =>
    have houter : e.isOutermost = true := by rw [Placement.isOutermost, haround, List.isEmpty_nil]
    obtain ⟨hname, hany⟩ := m.any_isOutermost_eq_false hsplit houter
    have hclass : e.isClass = false := by simp [Placement.isClass, hname]
    rw [(Placement.offence?_outermost_iff haround).mpr ⟨hname, hany⟩, hclass]
    rfl
  | cons parent outer =>
    obtain ⟨hkind, hparent⟩ := m.nested e hmem parent (by simp [haround])
    have hnamed := m.named e hmem hkind
    cases hclass : e.isClass with
    | true =>
      have hscope : e.isScope = false := by
        have hname : e.tag.name = "class" := of_decide_eq_true hclass
        simp [Placement.isScope, hname]
      have hfind : e.tag.attributes.find? (!fitsClass ·) = none := by
        simpa using m.valued e hmem hclass
      rw [Placement.offence?, haround]
      dsimp only
      cases hcontainer : containerOf? parent with
      | none => exact absurd hparent (containerOf?_eq_none_iff.mp hcontainer)
      | some container =>
        dsimp only
        rw [hscope, hclass, Placement.classOffence?, hfind, hnamed]
        rfl
    | false =>
      have hscope : e.isScope = true := by simpa [hclass] using hkind
      exact (Placement.offence?_inner_iff haround).mpr ⟨hparent, Or.inl ⟨hscope, hnamed⟩⟩

/-- The first offence is that of a part which disagrees with an earlier one. -/
theorem exists_disagreement (m : IsPartwiseManifest elements) {problem : ManifestError}
    (h : FirstOffence elements problem) :
    ∃ before e after, elements = before ++ e :: after ∧ e.isClass = true ∧
      e.disagreement? before = some problem := by
  rcases h with ⟨before, e, after, hsplit, -, hoffence⟩ | ⟨hnil, -⟩
  · rw [m.offence?_eq hsplit] at hoffence
    cases hclass : e.isClass with
    | false =>
      rw [hclass] at hoffence
      exact absurd hoffence (by simp)
    | true =>
      rw [hclass, if_pos rfl] at hoffence
      exact ⟨before, e, after, hsplit, hclass, hoffence⟩
  · obtain ⟨root, hroot, -⟩ := m.oneRoot
    rw [hnil] at hroot
    exact absurd hroot (by simp)

/-- The first offence is that of two parts that differ. -/
theorem reportsDifference (m : IsPartwiseManifest elements) {problem : ManifestError}
    (h : FirstOffence elements problem) : ReportsDifference elements problem := by
  obtain ⟨before, e, after, hsplit, hclass, hdisagreement⟩ := m.exists_disagreement h
  rw [Placement.disagreement?, Option.or_eq_some_iff] at hdisagreement
  rcases hdisagreement with hbases | ⟨-, hlevels⟩
  · exact ⟨e.fullName, Or.inl (exists_parts_of_conflict hsplit hclass hbases)⟩
  · exact ⟨e.fullName, Or.inr (exists_parts_of_conflict hsplit hclass hlevels)⟩

end IsPartwiseManifest

end Companion
