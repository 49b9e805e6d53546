import Companion.Proofs.Collections.FirstOccurrences
import Companion.Proofs.Manifest.Elements

/-!
# What is noted of the parts of classes

While a manifest is read, base texts and levels are noted for each class, and a part is refused if
it disagrees with what is noted.

* `Notes`: a list of notes holds the first value that the elements give for each class, in the order
  of the elements.
* `Notes.lookup_eq`: the note on a class is what the first of its parts gives.
* `Notes.note_spec`: a further part is refused if it disagrees with an earlier one, and is noted
  otherwise.
-/

namespace Companion

open FirstOccurrences

/-! ### Parts among the elements -/

theorem classElements_concat (elements : List Placement) (e : Placement) :
    classElements (elements ++ [e]) =
      if e.isClass then classElements elements ++ [e] else classElements elements := by
  rw [classElements, List.filter_append]
  cases h : e.isClass with
  | true => simp [classElements, h]
  | false => simp [classElements, h]

theorem partsOf_append (elements more : List Placement) (name : String) :
    partsOf (elements ++ more) name = partsOf elements name ++ partsOf more name := by
  rw [partsOf, classElements, List.filter_append, List.filter_append]
  rfl

theorem partsOf_concat {e : Placement} (h : e.isClass = true) (elements : List Placement)
    (name : String) :
    partsOf (elements ++ [e]) name =
      partsOf elements name ++ if e.fullName = name then [e] else [] := by
  rw [partsOf, classElements_concat, if_pos h, List.filter_append]
  by_cases hn : e.fullName = name
  · simp [partsOf, hn]
  · simp [partsOf, hn]

theorem partsOf_concat_of_not {e : Placement} (h : e.isClass = false) (elements : List Placement)
    (name : String) : partsOf (elements ++ [e]) name = partsOf elements name := by
  rw [partsOf, classElements_concat, h]
  rfl

theorem mem_partsOf {elements : List Placement} {name : String} {e : Placement} :
    e ∈ partsOf elements name ↔ e ∈ elements ∧ e.isClass = true ∧ e.fullName = name := by
  simp only [partsOf, classElements, List.mem_filter, decide_eq_true_eq, and_assoc]

/-- The values that elements give for classes, by full names. -/
def givenBy {α : Type} (given : Placement → Option α) (elements : List Placement) :
    List (String × α) :=
  (classElements elements).filterMap fun e => (given e).map (e.fullName, ·)

variable {α : Type}

theorem lookup_givenBy (given : Placement → Option α) (elements : List Placement) (name : String) :
    (givenBy given elements).lookup name = (partsOf elements name).findSome? given := by
  rw [givenBy, partsOf]
  induction classElements elements with
  | nil => rfl
  | cons e rest ih =>
    by_cases hn : e.fullName = name
    · cases hg : given e with
      | none => simpa [hn, hg] using ih
      | some value => simp [hn, hg]
    · have hne : (name == e.fullName) = false := beq_false_of_ne fun he => hn he.symm
      cases hg : given e with
      | none => simpa [hn, hg] using ih
      | some value => simpa [hn, hg, List.lookup_cons, hne] using ih

/-! ### Notes -/

variable [DecidableEq α]

/-- The notes hold the first value that the elements give for each class, in the order of the
elements. -/
structure Compilation.Notes (c : Compilation) (elements : List Placement)
    (given : Placement → Option α) (noted : List (TypeId × α)) : Prop where
  known : ∀ p ∈ noted, p.1 ∈ c.typeIds
  values : noted.map (fun p => (c.fullName p.1, p.2)) = (givenBy given elements).eraseDups

namespace Compilation.Notes

variable {c c' : Compilation} {elements : List Placement} {given : Placement → Option α}
  {noted : List (TypeId × α)} {id : TypeId}

theorem empty (c : Compilation) (given : Placement → Option α) : c.Notes [] given [] :=
  ⟨by simp, rfl⟩

/-- Notes stay what they are in a compilation that holds more. -/
theorem extend (n : c.Notes elements given noted) (h : c.Interned) (hx : c.Extends c') :
    c'.Notes elements given noted := by
  refine ⟨fun p hp => hx.mem_typeIds (n.known p hp), ?_⟩
  rw [← n.values]
  apply List.map_congr_left
  intro p hp
  rw [hx.fullName_eq h (n.known p hp)]

/-- Elements that are no classes are not noted. -/
theorem concat_of_not {e : Placement} (n : c.Notes elements given noted)
    (he : e.isClass = false) : c.Notes (elements ++ [e]) given noted := by
  refine ⟨n.known, ?_⟩
  rw [n.values, givenBy, givenBy, classElements_concat, he]
  rfl

/-- The note on a class is what the first of its parts gives. -/
theorem lookup_eq (n : c.Notes elements given noted) (h : c.Interned) (hid : id ∈ c.typeIds) :
    noted.lookup id = (partsOf elements (c.fullName id)).findSome? given := by
  rw [← lookup_givenBy, ← lookup_eraseDups (givenBy given elements), ← n.values]
  -- Full names tell the classes of the notes apart.
  have hknown := n.known
  clear n
  induction noted with
  | nil => rfl
  | cons p rest ih =>
    rw [List.forall_mem_cons] at hknown
    have hkey : (id == p.1) = (c.fullName id == c.fullName p.1) := by
      rw [Bool.eq_iff_iff, beq_iff_eq, beq_iff_eq]
      exact ⟨fun he => congrArg c.fullName he, fun he => h.fullName_inj hid hknown.1 he⟩
    rw [List.map_cons, List.lookup_cons, List.lookup_cons, hkey, ih hknown.2]

/-- A further part is refused if it disagrees with an earlier one, and is noted otherwise. -/
theorem note_spec (n : c.Notes elements given noted) (h : c.Interned) (hid : id ∈ c.typeIds)
    {e : Placement} (he : e.isClass = true) (hname : c.fullName id = e.fullName)
    (error : α → α → ManifestError) :
    match conflict? error ((partsOf elements e.fullName).findSome? given) (given e) with
    | some problem => Draft.note noted id error (given e) = .error problem
    | none => ∃ noted', Draft.note noted id error (given e) = .ok noted' ∧
        c.Notes (elements ++ [e]) given noted' := by
  have hlookup : noted.lookup id = (givenBy given elements).lookup e.fullName := by
    rw [n.lookup_eq h hid, hname, lookup_givenBy]
  have hgiven : givenBy given (elements ++ [e]) =
      givenBy given elements ++ ((given e).map (e.fullName, ·)).toList := by
    rw [givenBy, classElements_concat, if_pos he, List.filterMap_append]
    cases hg : given e with
    | none => simp [givenBy, hg]
    | some value => simp [givenBy, hg]
  rw [← lookup_givenBy, ← hlookup]
  cases hg : given e with
  | none =>
    have hnone : conflict? error (noted.lookup id) none = none := by
      cases noted.lookup id <;> rfl
    rw [hnone]
    refine ⟨noted, rfl, n.known, ?_⟩
    rw [n.values, hgiven, hg]
    simp
  | some value =>
    rw [hg, Option.map_some, Option.toList_some] at hgiven
    cases hl : noted.lookup id with
    | none =>
      rw [hl] at hlookup
      refine ⟨noted ++ [(id, value)], by rw [Draft.note, hl], ?_, ?_⟩
      · intro p hp
        rw [List.mem_append, List.mem_singleton] at hp
        rcases hp with hp | hp
        · exact n.known p hp
        · rw [hp]
          exact hid
      · have hnew : (e.fullName, value) ∉ givenBy given elements := by
          intro hmem
          have hkey := List.lookup_eq_none_iff.mp hlookup.symm _ hmem
          simp at hkey
        rw [hgiven, eraseDups_concat, if_neg hnew, List.map_append, n.values, List.map_singleton,
          hname]
    | some previous =>
      rw [hl] at hlookup
      by_cases hsame : previous = value
      · rw [conflict?, if_pos hsame]
        refine ⟨noted, by rw [Draft.note, hl]; exact if_pos hsame, n.known, ?_⟩
        have hold : (e.fullName, value) ∈ givenBy given elements := by
          obtain ⟨front, back, hsplit, -⟩ := List.lookup_eq_some_iff.mp hlookup.symm
          rw [hsplit, hsame]
          exact List.mem_append_right _ List.mem_cons_self
        rw [n.values, hgiven, eraseDups_concat, if_pos hold]
      · rw [conflict?, if_neg hsame]
        show Draft.note noted id error (some value) = .error (error previous value)
        rw [Draft.note, hl]
        exact if_neg hsame

end Compilation.Notes

end Companion
