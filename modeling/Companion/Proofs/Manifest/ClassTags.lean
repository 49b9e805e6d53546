import Companion.Proofs.Manifest.Elements
import Mathlib.Data.List.Induction

/-!
# What reading the tag of a class comes to

The attributes are taken in one by one.  The outcome is told here of all of them together.

* `ofAttributes_eq`: the attributes are refused for the first one with an invalid value, else each
  key counts with its value.
* `ofTag_eq`: the element is refused for that attribute, or else for a missing name.
-/

namespace Companion

open Markup (Attribute Tag)

/-! ### Values by their keys -/

theorem lastValue?_concat (attributes : List Attribute) (given : Attribute) (key : String) :
    lastValue? (attributes ++ [given]) key =
      if given.key = key then some given.value else lastValue? attributes key := by
  by_cases h : given.key = key
  · simp [lastValue?, h]
  · simp [lastValue?, h]

theorem isSome_lastValue?_iff {attributes : List Attribute} {key : String} :
    (lastValue? attributes key).isSome = true ↔ ∃ given ∈ attributes, given.key = key := by
  simp [lastValue?]

theorem isSome_nameAttribute?_iff {tag : Tag} :
    (nameAttribute? tag).isSome = true ↔ ∃ given ∈ tag.attributes, given.key = "name" := by
  simp [nameAttribute?]

theorem Placement.isNamed_iff {e : Placement} :
    e.isNamed = true ↔ ∃ given ∈ e.tag.attributes, given.key = "name" := by
  simp [Placement.isNamed]

/-! ### The attributes of a class -/

namespace ClassAttributes

/-- What attributes say together. -/
def summary (attributes : List Attribute) : ClassAttributes where
  name := lastValue? attributes "name"
  base := lastValue? attributes "base"
  isPartial := lastValue? attributes "partial" = some "true"
  isAbstract := lastValue? attributes "abstract" = some "true"
  accessibility := (lastValue? attributes "accessibility").bind Accessibility.parse?

theorem parseFlag?_eq (text : String) :
    parseFlag? text =
      if text = "true" || text = "false" then some (decide (text = "true")) else none := by
  unfold parseFlag?
  by_cases ht : text = "true"
  · simp [ht]
  · by_cases hf : text = "false" <;> simp [ht, hf]

theorem add_flag (given : Attribute) (change : Bool → ClassAttributes) :
    (valueOf given (parseFlag? given.value)).map change =
      if given.value = "true" || given.value = "false" then
        .ok (change (decide (given.value = "true")))
      else .error (.invalidAttribute .classPart given.key given.value) := by
  rw [parseFlag?_eq]
  split <;> rfl

/-- One more attribute is taken in if its value is one that it may have. -/
theorem add_summary (attributes : List Attribute) (given : Attribute) :
    add (summary attributes) given =
      if fitsClass given then .ok (summary (attributes ++ [given]))
      else .error (.invalidAttribute .classPart given.key given.value) := by
  unfold add
  split
  · next h => simp [fitsClass, summary, lastValue?_concat, h]
  · next h => simp [fitsClass, summary, lastValue?_concat, h]
  · next h =>
    rw [add_flag]
    simp [fitsClass, summary, lastValue?_concat, h]
  · next h =>
    rw [add_flag]
    simp [fitsClass, summary, lastValue?_concat, h]
  · next h =>
    cases hp : Accessibility.parse? given.value with
    | none => simp [fitsClass, h, hp, valueOf, Except.map]
    | some level => simp [fitsClass, summary, lastValue?_concat, h, hp, valueOf, Except.map]
  · next hname hbase hpartial habstract haccess =>
    replace hname : given.key ≠ "name" := hname
    replace hbase : given.key ≠ "base" := hbase
    replace hpartial : given.key ≠ "partial" := hpartial
    replace habstract : given.key ≠ "abstract" := habstract
    replace haccess : given.key ≠ "accessibility" := haccess
    have hfits : fitsClass given = true := by
      simp [fitsClass, hpartial, habstract, haccess]
    simp [hfits, summary, lastValue?_concat, hname, hbase, hpartial, habstract, haccess]

theorem ofAttributes_eq (attributes : List Attribute) :
    ofAttributes attributes =
      match attributes.find? (!fitsClass ·) with
      | some given => .error (.invalidAttribute .classPart given.key given.value)
      | none => .ok (summary attributes) := by
  unfold ofAttributes
  induction attributes using List.reverseRecOn with
  | nil => rfl
  | append_singleton attributes given ih =>
    rw [List.foldlM_append, ih, List.find?_append]
    cases hf : attributes.find? (!fitsClass ·) with
    | some invalid => rfl
    | none =>
      change List.foldlM add (summary attributes) [given] = _
      rw [List.foldlM_cons, add_summary]
      cases hg : fitsClass given with
      | true => simp [hg]
      | false => simp [hg]

end ClassAttributes

/-! ### The whole tag -/

/-- What a class element says, if it says it properly. -/
def Placement.part (e : Placement) : ClassPart where
  name := e.className
  base := e.baseText?
  isPartial := e.isPartial
  isAbstract := e.isAbstract
  accessibility := e.level?

theorem ofTag_eq (e : Placement) :
    ClassPart.ofTag e.tag =
      match e.tag.attributes.find? (!fitsClass ·) with
      | some given => .error (.invalidAttribute .classPart given.key given.value)
      | none =>
        if e.isNamed then .ok e.part else .error (.missingAttribute .classPart "name") := by
  rw [ClassPart.ofTag, ClassAttributes.ofAttributes_eq]
  cases hf : e.tag.attributes.find? (!fitsClass ·) with
  | some given => rfl
  | none =>
    dsimp only
    cases hn : (ClassAttributes.summary e.tag.attributes).name with
    | none =>
      have hunnamed : ¬ e.isNamed = true := by
        rw [Placement.isNamed_iff, ← isSome_lastValue?_iff]
        change ¬ (ClassAttributes.summary e.tag.attributes).name.isSome = true
        simp [hn]
      simp [hunnamed]
    | some name =>
      have hnamed : e.isNamed = true := by
        rw [Placement.isNamed_iff, ← isSome_lastValue?_iff]
        change (ClassAttributes.summary e.tag.attributes).name.isSome = true
        simp [hn]
      have hname : e.className = name := by
        change (ClassAttributes.summary e.tag.attributes).name.getD "" = name
        rw [hn, Option.getD_some]
      rw [if_pos hnamed, ← hname]
      rfl

end Companion
