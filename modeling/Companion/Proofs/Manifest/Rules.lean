import Companion.Proofs.Collections.Entries
import Companion.Proofs.Manifest.Notes

/-!
# The rules of a manifest, element by element

The rules are stated for all elements at once and are checked as the elements come.  Both come to
the same thing.

* `firstOffence?`: the first rule that is broken as elements come.
* `KeepsRules`: the rules, except that an outermost element may be missing.
* `keepsRules_concat`: one more element keeps them exactly if it breaks none by itself.
* `isManifest_placements_iff`: the elements of a run of events are those of a manifest exactly if
  there are any and none of them breaks a rule.
-/

namespace Companion

open Markup (Tag Event)
open Entries FirstOccurrences

/-! ### The first offence -/

/-- The first rule that is broken by elements that come after others. -/
def firstOffence? (before : List Placement) : List Placement → Option ManifestError
  | [] => none
  | e :: rest => (e.offence? before).or (firstOffence? (before ++ [e]) rest)

/-- The elements that come after others break no rule. -/
def InOrder (before elements : List Placement) : Prop :=
  ∀ front e back, elements = front ++ e :: back → e.offence? (before ++ front) = none

theorem inOrder_nil (before : List Placement) : InOrder before [] := forall_split_nil

theorem inOrder_cons {before rest : List Placement} {e : Placement} :
    InOrder before (e :: rest) ↔ e.offence? before = none ∧ InOrder (before ++ [e]) rest := by
  rw [InOrder, forall_split_cons, List.append_nil]
  simp only [InOrder, List.append_assoc, List.singleton_append]

theorem inOrder_concat {before elements : List Placement} {e : Placement} :
    InOrder before (elements ++ [e]) ↔
      InOrder before elements ∧ e.offence? (before ++ elements) = none := by
  rw [InOrder, forall_split_concat]
  rfl

/-- The first of some elements break no rule if all of them break none. -/
theorem InOrder.front {before elements later : List Placement}
    (h : InOrder before (elements ++ later)) : InOrder before elements := by
  intro front e back hsplit
  apply h front e (back ++ later)
  rw [hsplit, List.append_assoc, List.cons_append]

theorem firstOffence?_eq_none_iff {before elements : List Placement} :
    firstOffence? before elements = none ↔ InOrder before elements := by
  induction elements generalizing before with
  | nil => simp [firstOffence?, inOrder_nil]
  | cons e rest ih => rw [firstOffence?, Option.or_eq_none_iff, ih, inOrder_cons]

theorem firstOffence?_eq_some_iff {before elements : List Placement} {problem : ManifestError} :
    firstOffence? before elements = some problem ↔
      ∃ front e back, elements = front ++ e :: back ∧ InOrder before front ∧
        e.offence? (before ++ front) = some problem := by
  induction elements generalizing before with
  | nil => simp [firstOffence?]
  | cons e rest ih =>
    cases hoff : e.offence? before with
    | some found =>
      rw [firstOffence?, hoff]
      constructor
      · intro h
        refine ⟨[], e, rest, rfl, inOrder_nil before, ?_⟩
        rw [List.append_nil, hoff]
        exact h
      · intro hall
        obtain ⟨front, x, back, hsplit, hfront, hx⟩ := hall
        cases front with
        | nil =>
          obtain ⟨rfl, rfl⟩ := List.cons.inj hsplit
          rw [List.append_nil, hoff] at hx
          exact hx
        | cons y front =>
          obtain ⟨rfl, rfl⟩ := List.cons.inj hsplit
          rw [inOrder_cons, hoff] at hfront
          exact absurd hfront.1 (by simp)
    | none =>
      rw [firstOffence?, hoff, Option.none_or, ih]
      constructor
      · intro hall
        obtain ⟨front, x, back, rfl, hfront, hx⟩ := hall
        rw [List.append_assoc] at hx
        exact ⟨e :: front, x, back, rfl, inOrder_cons.mpr ⟨hoff, hfront⟩, hx⟩
      · intro hall
        obtain ⟨front, x, back, hsplit, hfront, hx⟩ := hall
        cases front with
        | nil =>
          obtain ⟨rfl, rfl⟩ := List.cons.inj hsplit
          rw [List.append_nil, hoff] at hx
          exact absurd hx (by simp)
        | cons y front =>
          obtain ⟨rfl, rfl⟩ := List.cons.inj hsplit
          refine ⟨front, x, back, rfl, (inOrder_cons.mp hfront).2, ?_⟩
          rw [List.append_assoc]
          exact hx

theorem firstOffence_iff {elements : List Placement} {problem : ManifestError} :
    FirstOffence elements problem ↔
      firstOffence? [] elements = some problem ∨ elements = [] ∧ problem = .missingRoot := by
  rw [firstOffence?_eq_some_iff]
  simp only [FirstOffence, InOrder, List.nil_append]

/-! ### Parts that agree -/

section Agree

variable {α : Type} {given : Placement → Option α} {elements : List Placement}

/-- Parts of one class give no different values. -/
def Agree (given : Placement → Option α) (elements : List Placement) : Prop :=
  ∀ e ∈ elements, ∀ e' ∈ elements, e.isClass = true → e'.isClass = true →
    e.fullName = e'.fullName → ∀ value ∈ given e, ∀ value' ∈ given e', value = value'

theorem conflict?_eq_none_iff [DecidableEq α] {error : α → α → ManifestError} {previous value : Option α} :
    conflict? error previous value = none ↔ ∀ a ∈ previous, ∀ b ∈ value, a = b := by
  cases previous with
  | none => simp [conflict?]
  | some a =>
    cases value with
    | none => simp [conflict?]
    | some b => simp [conflict?]

theorem agree_concat_of_not {e : Placement} (he : e.isClass = false) :
    Agree given (elements ++ [e]) ↔ Agree given elements := by
  constructor
  · intro h x hx y hy
    exact h x (List.mem_append_left _ hx) y (List.mem_append_left _ hy)
  · intro h x hx y hy hxc hyc
    have hmem : ∀ z ∈ elements ++ [e], z.isClass = true → z ∈ elements := by
      intro z hz hzc
      rcases List.mem_append.mp hz with hz | hz
      · exact hz
      · rw [List.mem_singleton.mp hz, he] at hzc
        exact absurd hzc (by simp)
    exact h x (hmem x hx hxc) y (hmem y hy hyc) hxc hyc

/-- Where parts agree the first of them that gives a value gives that of all. -/
theorem findSome?_of_agree (h : Agree given elements) {name : String} {e : Placement}
    (he : e ∈ partsOf elements name) {value : α} (hvalue : value ∈ given e) :
    (partsOf elements name).findSome? given = some value := by
  have hsome : ((partsOf elements name).findSome? given).isSome = true := by
    rw [List.findSome?_isSome_iff]
    exact ⟨e, he, by rw [Option.mem_def.mp hvalue, Option.isSome_some]⟩
  obtain ⟨first, hfirst⟩ := Option.isSome_iff_exists.mp hsome
  obtain ⟨x, hx, hgiven⟩ := List.exists_of_findSome?_eq_some hfirst
  obtain ⟨hmem, hclass, hname⟩ := mem_partsOf.mp he
  obtain ⟨hmem', hclass', hname'⟩ := mem_partsOf.mp hx
  rw [hfirst, h x hmem' e hmem hclass' hclass (hname'.trans hname.symm) first hgiven value hvalue]

/-- A further part agrees with the others if it agrees with the first of them that says
something. -/
theorem agree_concat [DecidableEq α] {e : Placement} (he : e.isClass = true)
    {error : α → α → ManifestError} :
    Agree given (elements ++ [e]) ↔ Agree given elements ∧
      conflict? error ((partsOf elements e.fullName).findSome? given) (given e) = none := by
  rw [conflict?_eq_none_iff]
  constructor
  · intro h
    refine ⟨?_, ?_⟩
    · intro x hx y hy
      exact h x (List.mem_append_left _ hx) y (List.mem_append_left _ hy)
    · intro a ha b hb
      obtain ⟨x, hx, hxa⟩ := List.exists_of_findSome?_eq_some ha
      obtain ⟨hmem, hclass, hname⟩ := mem_partsOf.mp hx
      exact h x (List.mem_append_left _ hmem) e (by simp) hclass he hname a hxa b hb
  · intro hall
    obtain ⟨hold, hnew⟩ := hall
    have hlast : ∀ x ∈ elements, x.isClass = true → x.fullName = e.fullName →
        ∀ a ∈ given x, ∀ b ∈ given e, a = b := by
      intro x hx hclass hname a ha b hb
      have hpart : x ∈ partsOf elements e.fullName := mem_partsOf.mpr ⟨hx, hclass, hname⟩
      exact hnew a (findSome?_of_agree hold hpart ha) b hb
    intro x hx y hy hxc hyc hxy a ha b hb
    rw [List.mem_append, List.mem_singleton] at hx hy
    rcases hx with hx | rfl
    · rcases hy with hy | rfl
      · exact hold x hx y hy hxc hyc hxy a ha b hb
      · exact hlast x hx hxc hxy a ha b hb
    · rcases hy with hy | rfl
      · exact (hlast y hy hyc hxy.symm b hb a ha).symm
      · rw [Option.mem_def] at ha hb
        rw [ha] at hb
        exact Option.some.inj hb

/-- Where parts agree they give one value for a class. -/
theorem eq_of_mem_givenBy (h : Agree given elements) {a b : String × α}
    (ha : a ∈ givenBy given elements) (hb : b ∈ givenBy given elements) (hab : a.1 = b.1) :
    a = b := by
  have hfrom : ∀ p ∈ givenBy given elements, ∃ e ∈ elements, e.isClass = true ∧
      e.fullName = p.1 ∧ given e = some p.2 := by
    intro p hp
    obtain ⟨e, he, hvalue⟩ := List.mem_filterMap.mp hp
    obtain ⟨value, hgiven, rfl⟩ := Option.map_eq_some_iff.mp hvalue
    obtain ⟨hmem, hclass⟩ := List.mem_filter.mp he
    exact ⟨e, hmem, hclass, rfl, hgiven⟩
  obtain ⟨e, he, hclass, hname, hvalue⟩ := hfrom a ha
  obtain ⟨e', he', hclass', hname', hvalue'⟩ := hfrom b hb
  have hsame : e.fullName = e'.fullName := by rw [hname, hname', hab]
  exact Prod.ext hab (h e he e' he' hclass hclass' hsame _ hvalue _ hvalue')

theorem nodup_names_givenBy [DecidableEq α] (h : Agree given elements) :
    ((givenBy given elements).eraseDups.map (·.1)).Nodup := by
  apply List.Nodup.map_on
  · intro a ha b hb hab
    rw [List.mem_eraseDups] at ha hb
    exact eq_of_mem_givenBy h ha hb hab
  · exact nodup_eraseDups _

end Agree

/-! ### The rules -/

/-- The rules that an element obeys by itself. -/
structure Placement.Fits (e : Placement) : Prop where
  root : e.isOutermost = true → e.tag.name = "compilation"
  nested : ∀ parent ∈ e.around.head?, (e.isScope = true ∨ e.isClass = true) ∧
    (parent.name = "compilation" ∨ parent.name = "namespace")
  named : e.isScope = true ∨ e.isClass = true → e.isNamed = true
  valued : e.isClass = true → ∀ given ∈ e.tag.attributes, fitsClass given = true

/-- The rules, except that an outermost element may be missing. -/
structure KeepsRules (elements : List Placement) : Prop where
  fits : ∀ e ∈ elements, e.Fits
  single : (elements.filter Placement.isOutermost).length ≤ 1
  basesAgree : Agree Placement.baseText? elements
  levelsAgree : Agree Placement.level? elements

theorem isManifest_iff_keepsRules {elements : List Placement} :
    IsManifest elements ↔ elements.any Placement.isOutermost = true ∧ KeepsRules elements := by
  constructor
  · intro h
    obtain ⟨root, hroot, hname⟩ := h.oneRoot
    have hmem : root ∈ elements.filter Placement.isOutermost := by simp [hroot]
    obtain ⟨hin, houter⟩ := List.mem_filter.mp hmem
    refine ⟨List.any_eq_true.mpr ⟨root, hin, houter⟩, ?_, by simp [hroot], h.basesAgree,
      h.levelsAgree⟩
    intro e he
    refine ⟨?_, h.nested e he, h.named e he, h.valued e he⟩
    intro heouter
    have hefilter : e ∈ elements.filter Placement.isOutermost := List.mem_filter.mpr ⟨he, heouter⟩
    rw [hroot, List.mem_singleton] at hefilter
    rw [hefilter, hname]
  · intro hall
    obtain ⟨hany, h⟩ := hall
    refine ⟨?_, fun e he => (h.fits e he).nested, fun e he => (h.fits e he).named,
      fun e he => (h.fits e he).valued, h.basesAgree, h.levelsAgree⟩
    obtain ⟨root, hin, houter⟩ := List.any_eq_true.mp hany
    have hmem : root ∈ elements.filter Placement.isOutermost := List.mem_filter.mpr ⟨hin, houter⟩
    have hpos := List.length_pos_of_mem hmem
    have hone : (elements.filter Placement.isOutermost).length = 1 := by
      have hsingle := h.single
      omega
    obtain ⟨root', hroot'⟩ := List.length_eq_one_iff.mp hone
    rw [hroot', List.mem_singleton] at hmem
    refine ⟨root, by rw [hroot', hmem], (h.fits root hin).root houter⟩

theorem keepsRules_nil : KeepsRules [] :=
  ⟨by simp, by simp, by simp [Agree], by simp [Agree]⟩

theorem containerOf?_eq_none_iff {tag : Tag} :
    containerOf? tag = none ↔ ¬ (tag.name = "compilation" ∨ tag.name = "namespace") := by
  unfold containerOf?
  split
  · next h => simp [h]
  · next h => simp [h]

namespace Placement

variable {before : List Placement} {e : Placement}

theorem classOffence?_eq_none_iff :
    e.classOffence? before = none ↔
      (∀ given ∈ e.tag.attributes, fitsClass given = true) ∧ e.isNamed = true ∧
        e.disagreement? before = none := by
  have hfind : e.tag.attributes.find? (!fitsClass ·) = none ↔
      ∀ given ∈ e.tag.attributes, fitsClass given = true := by
    simp
  rw [← hfind, classOffence?]
  cases e.tag.attributes.find? (!fitsClass ·) with
  | some given => simp
  | none =>
    cases e.isNamed with
    | false => simp
    | true => simp

theorem offence?_outermost_iff (h : e.around = []) :
    e.offence? before = none ↔ e.tag.name = "compilation" ∧ before.any isOutermost = false := by
  rw [offence?, h]
  dsimp only
  split
  · next hname => simp [hname]
  · next hname =>
    rw [ne_eq, not_not] at hname
    split
    · next hany => simp [hany]
    · next hany => simp [hname, hany]

theorem offence?_inner_iff {parent : Tag} {outer : List Tag} (h : e.around = parent :: outer) :
    e.offence? before = none ↔
      (parent.name = "compilation" ∨ parent.name = "namespace") ∧
        (e.isScope = true ∧ e.isNamed = true ∨
          e.isClass = true ∧ e.classOffence? before = none) := by
  rw [offence?, h]
  dsimp only
  cases hc : containerOf? parent with
  | none =>
    have hparent := containerOf?_eq_none_iff.mp hc
    simp [hparent]
  | some container =>
    have hparent : parent.name = "compilation" ∨ parent.name = "namespace" := by
      by_contra hnot
      rw [containerOf?_eq_none_iff.mpr hnot] at hc
      exact absurd hc (by simp)
    dsimp only
    cases hs : e.isScope with
    | true =>
      have hclass : e.isClass = false := by
        have hname : e.tag.name = "namespace" := of_decide_eq_true hs
        simp [isClass, hname]
      simp [hparent, hclass]
    | false =>
      cases hclass : e.isClass with
      | true => simp [hparent]
      | false => simp

/-- An element breaks no rule exactly if it fits by itself, is no second root, and disagrees with no
earlier part of its class. -/
theorem offence?_eq_none_iff :
    e.offence? before = none ↔ e.Fits ∧
      (e.isOutermost = true → before.any isOutermost = false) ∧
        (e.isClass = true → e.disagreement? before = none) := by
  cases h : e.around with
  | nil =>
    have houter : e.isOutermost = true := by rw [isOutermost, h, List.isEmpty_nil]
    rw [offence?_outermost_iff h]
    constructor
    · intro hall
      obtain ⟨hname, hany⟩ := hall
      have hscope : e.isScope = false := by simp [isScope, hname]
      have hclass : e.isClass = false := by simp [isClass, hname]
      exact ⟨⟨fun _ => hname, by simp [h], by simp [hscope, hclass], by simp [hclass]⟩,
        fun _ => hany, by simp [hclass]⟩
    · intro hall
      obtain ⟨hfits, hany, -⟩ := hall
      exact ⟨hfits.root houter, hany houter⟩
  | cons parent outer =>
    have houter : e.isOutermost = false := by rw [isOutermost, h, List.isEmpty_cons]
    rw [offence?_inner_iff h, classOffence?_eq_none_iff]
    constructor
    · intro hall
      obtain ⟨hparent, ⟨hscope, hnamed⟩ | ⟨hclass, hvalued, hnamed, hagrees⟩⟩ := hall
      · have hclass : e.isClass = false := by
          have hname : e.tag.name = "namespace" := of_decide_eq_true hscope
          simp [isClass, hname]
        refine ⟨⟨by simp [houter], ?_, fun _ => hnamed, by simp [hclass]⟩, by simp [houter],
          by simp [hclass]⟩
        intro parent' hp
        rw [h, List.head?_cons, Option.mem_some] at hp
        rw [← hp]
        exact ⟨Or.inl hscope, hparent⟩
      · refine ⟨⟨by simp [houter], ?_, fun _ => hnamed, fun _ => hvalued⟩, by simp [houter],
          fun _ => hagrees⟩
        intro parent' hp
        rw [h, List.head?_cons, Option.mem_some] at hp
        rw [← hp]
        exact ⟨Or.inr hclass, hparent⟩
    · intro hall
      obtain ⟨hfits, -, hagrees⟩ := hall
      obtain ⟨hkind, hparent⟩ := hfits.nested parent (by simp [h])
      refine ⟨hparent, ?_⟩
      rcases hkind with hscope | hclass
      · exact Or.inl ⟨hscope, hfits.named (Or.inl hscope)⟩
      · exact Or.inr ⟨hclass, hfits.valued hclass, hfits.named (Or.inr hclass), hagrees hclass⟩

end Placement

/-- One more element keeps the rules exactly if it breaks none by itself. -/
theorem keepsRules_concat {elements : List Placement} {e : Placement} :
    KeepsRules (elements ++ [e]) ↔ KeepsRules elements ∧ e.offence? elements = none := by
  have hagree : Agree Placement.baseText? (elements ++ [e]) ∧
        Agree Placement.level? (elements ++ [e]) ↔
      (Agree Placement.baseText? elements ∧ Agree Placement.level? elements) ∧
        (e.isClass = true → e.disagreement? elements = none) := by
    cases hclass : e.isClass with
    | false => simp [agree_concat_of_not hclass]
    | true =>
      rw [agree_concat hclass, agree_concat hclass, Placement.disagreement?, Option.or_eq_none_iff]
      tauto
  have hsingle : ((elements ++ [e]).filter Placement.isOutermost).length ≤ 1 ↔
      (elements.filter Placement.isOutermost).length ≤ 1 ∧
        (e.isOutermost = true → elements.any Placement.isOutermost = false) := by
    rw [List.filter_append, List.length_append]
    cases houter : e.isOutermost with
    | false => simp [houter]
    | true =>
      have hnone : elements.any Placement.isOutermost = false ↔
          (elements.filter Placement.isOutermost).length = 0 := by
        simp
      rw [hnone, List.filter_singleton, houter, cond_true, List.length_singleton]
      constructor
      · intro h
        exact ⟨by omega, fun _ => by omega⟩
      · intro hall
        obtain ⟨-, h⟩ := hall
        have hzero := h rfl
        omega
  have hfits : (∀ x ∈ elements ++ [e], x.Fits) ↔ (∀ x ∈ elements, x.Fits) ∧ e.Fits := by
    simp [or_imp, forall_and]
  rw [Placement.offence?_eq_none_iff]
  constructor
  · intro h
    obtain ⟨hold, hnew⟩ := hfits.mp h.fits
    obtain ⟨hone, hfirst⟩ := hsingle.mp h.single
    obtain ⟨⟨hbases, hlevels⟩, hagrees⟩ := hagree.mp ⟨h.basesAgree, h.levelsAgree⟩
    exact ⟨⟨hold, hone, hbases, hlevels⟩, hnew, hfirst, hagrees⟩
  · intro hall
    obtain ⟨h, hnew, hfirst, hagrees⟩ := hall
    obtain ⟨hbases, hlevels⟩ := hagree.mpr ⟨⟨h.basesAgree, h.levelsAgree⟩, hagrees⟩
    exact ⟨hfits.mpr ⟨h.fits, hnew⟩, hsingle.mpr ⟨h.single, hfirst⟩, hbases, hlevels⟩

/-- Elements keep the rules exactly if none of them breaks one as it comes. -/
theorem inOrder_iff_keepsRules {elements : List Placement} :
    InOrder [] elements ↔ KeepsRules elements := by
  induction elements using List.reverseRecOn with
  | nil => simp [inOrder_nil, keepsRules_nil]
  | append_singleton elements e ih => rw [inOrder_concat, ih, keepsRules_concat, List.nil_append]

/-! ### Elements of events -/

/-- The first element stands in no other one. -/
theorem any_isOutermost_placements (events : List Event) :
    (placements events).any Placement.isOutermost = !(placements events).isEmpty := by
  unfold placements
  induction events with
  | nil => rfl
  | cons event rest ih =>
    cases event with
    | openTag tag => rfl
    | emptyTag tag => rfl
    | closeTag name => exact ih
    | filler content => exact ih

/-- The elements of events are those of a manifest exactly if there are any and none of them breaks
a rule as it comes. -/
theorem isManifest_placements_iff (events : List Event) :
    IsManifest (placements events) ↔
      placements events ≠ [] ∧ firstOffence? [] (placements events) = none := by
  rw [isManifest_iff_keepsRules, any_isOutermost_placements, firstOffence?_eq_none_iff,
    inOrder_iff_keepsRules]
  simp

end Companion
