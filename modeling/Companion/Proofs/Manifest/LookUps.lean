import Companion.Proofs.Manifest.BaseNames
import Mathlib.Data.List.TakeWhile

/-!
# Looking up base texts

What a reference comes to depends on the names that have been added before it and on the classes.

* `lookUp_ne_of_mem`, `lookUp_of_subset`: which names may be added without a reference coming to
  another base.
* `OneHome`, `DistinctNames`: classes that stand in one scope each and that simple names tell apart.
* `lookUp_of_perm`: with such classes the order of the elements matters only by the names added.
-/

namespace Companion

open Entries

/-! ### Names that are in the way -/

section InTheWay

variable {elements : List Placement} {added added' : List String} {reference : String × String}

theorem length_externalName_le (name : String) :
    (Compilation.externalName name).length ≤ name.length := by
  unfold Compilation.externalName
  cases hs : Text.Dotted.splitLast? name with
  | none => exact Nat.le_refl _
  | some parts =>
    have hlength := congrArg String.length (Text.Dotted.append_of_splitLast? hs)
    rw [String.length_append, String.length_append] at hlength
    dsimp only
    split
    · omega
    · rw [String.length_append, String.length_append]
      omega

/-- The text itself is tried last, and the names before it are longer. -/
theorem tried_eq (h : tried elements reference ≠ []) :
    ∃ longer, tried elements reference = longer ++ [reference.2] ∧
      ∀ name ∈ longer, reference.2.length < name.length := by
  rw [tried] at h ⊢
  cases hf : firstPart? elements reference.1 with
  | none =>
    rw [hf] at h
    exact absurd rfl h
  | some first =>
    refine ⟨_, rfl, ?_⟩
    intro name hname
    obtain ⟨path, -, rfl⟩ := List.mem_map.mp hname
    have hdot : ".".length = 1 := rfl
    simp only [String.length_append, hdot]
    omega

/-- A name that has been added is in the way of all that is tried after it. -/
theorem lookUp_ne_of_mem {base name : String}
    (hname : name ∈ (tried elements reference).takeWhile (· ≠ base)) (hadded : name ∈ added) :
    lookUp elements added reference ≠ base := by
  rw [lookUp, ← List.takeWhile_append_dropWhile (p := fun x => decide (x ≠ base))
    (l := tried elements reference), List.find?_append]
  cases hf : ((tried elements reference).takeWhile fun x => decide (x ≠ base)).find?
      fun name => decide (name ∈ classNames elements ∨ name ∈ added) with
  | some found =>
    rw [Option.some_or, Option.getD_some]
    have hbefore := List.mem_takeWhile_imp (List.mem_of_find?_eq_some hf)
    exact of_decide_eq_true hbefore
  | none =>
    have hnot := List.find?_eq_none.mp hf name hname
    exact absurd (decide_eq_true (Or.inr hadded)) hnot

/-- A base that nothing tried comes to has all that is tried before it. -/
theorem before_or_eq_of_otherwise {base : String} (h : otherwise elements reference.2 = base)
    (hnew : ∀ name ∈ tried elements reference, name ∉ classNames elements) {name : String}
    (hname : name ∈ tried elements reference) :
    name ∈ (tried elements reference).takeWhile (· ≠ base) ∨ name = base := by
  by_cases hmem : base ∈ tried elements reference
  · -- Only the text itself is short enough.
    have hexternal : base = Compilation.externalName reference.2 := by
      rw [otherwise] at h
      cases hn : namedSimply? elements reference.2 with
      | some found =>
        rw [hn, Option.getD_some] at h
        rw [namedSimply?] at hn
        exact absurd (h ▸ List.mem_of_find?_eq_some hn) (hnew base hmem)
      | none =>
        rw [hn, Option.getD_none] at h
        exact h.symm
    have hlength : base.length ≤ reference.2.length := by
      rw [hexternal]
      exact length_externalName_le reference.2
    obtain ⟨longer, hlonger, hlength'⟩ := tried_eq (List.ne_nil_of_mem hmem)
    have hbefore : ∀ name ∈ longer, decide (name ≠ base) = true := by
      intro name hname
      have hlt := hlength' name hname
      rw [decide_eq_true_iff]
      intro heq
      rw [heq] at hlt
      omega
    rw [hlonger] at hmem hname ⊢
    rw [List.takeWhile_append_of_pos hbefore]
    rw [List.mem_append, List.mem_singleton] at hmem hname
    rcases hname with hname | hname
    · exact Or.inl (List.mem_append_left _ hname)
    · rcases hmem with hmem | hmem
      · exact absurd rfl (of_decide_eq_true (hbefore base hmem))
      · exact Or.inr (hname.trans hmem.symm)
  · left
    have hall : ∀ name ∈ tried elements reference, decide (name ≠ base) = true := by
      intro name hname
      rw [decide_eq_true_iff]
      intro heq
      exact hmem (heq ▸ hname)
    rw [List.takeWhile_eq_self_iff.mpr hall]
    exact hname

/-- Names that are not in the way may be added. -/
theorem lookUp_of_subset {base : String} (h : lookUp elements added reference = base)
    (hsub : ∀ name ∈ added, name ∈ added')
    (hnew : ∀ name ∈ added', name ∈ added ∨
      name ∉ (tried elements reference).takeWhile (· ≠ base)) :
    lookUp elements added' reference = base := by
  -- Before the base nothing else is known now.
  have hbefore : ∀ name ∈ (tried elements reference).takeWhile (· ≠ base),
      name ∈ classNames elements ∨ name ∈ added' → name ∈ classNames elements ∨ name ∈ added := by
    intro name hname hknown
    rcases hknown with hclass | hadded
    · exact Or.inl hclass
    · rcases hnew name hadded with hold | hway
      · exact Or.inr hold
      · exact absurd hname hway
  rw [lookUp] at h ⊢
  cases hf : (tried elements reference).find? fun name =>
      decide (name ∈ classNames elements ∨ name ∈ added) with
  | some found =>
    rw [hf, Option.getD_some] at h
    subst h
    have hknown := List.find?_some hf
    rw [decide_eq_true_iff] at hknown
    rw [find?_eq_some_of_before hf, Option.getD_some]
    · exact decide_eq_true (hknown.imp_right (hsub found))
    · simpa using hbefore
  | none =>
    rw [hf, Option.getD_none] at h
    have hunknown : ∀ name ∈ tried elements reference,
        ¬ (name ∈ classNames elements ∨ name ∈ added) := by
      intro name hname
      simpa using List.find?_eq_none.mp hf name hname
    cases hf' : (tried elements reference).find? fun name =>
        decide (name ∈ classNames elements ∨ name ∈ added') with
    | none => rw [Option.getD_none, h]
    | some found =>
      -- What is found now is not before the base, so it is the base.
      have hin := List.mem_of_find?_eq_some hf'
      have hknown := List.find?_some hf'
      rw [decide_eq_true_iff] at hknown
      have hnot : found ∉ (tried elements reference).takeWhile (· ≠ base) := by
        intro hway
        exact hunknown found hin (hbefore found hway hknown)
      have hclass : ∀ name ∈ tried elements reference, name ∉ classNames elements := by
        intro name hname hclass
        exact hunknown name hname (Or.inl hclass)
      rw [Option.getD_some]
      exact (before_or_eq_of_otherwise h hclass hin).resolve_left hnot

end InTheWay

/-! ### Classes with one home -/

/-- All parts of a class stand in the same scope and give the same simple name. -/
def OneHome (elements : List Placement) : Prop :=
  ∀ e ∈ elements, ∀ e' ∈ elements, e.isClass = true → e'.isClass = true →
    e.fullName = e'.fullName →
      segmentsAround e.around = segmentsAround e'.around ∧ e.className = e'.className

/-- No two classes have the same simple name. -/
def DistinctNames (elements : List Placement) : Prop :=
  ∀ e ∈ elements, ∀ e' ∈ elements, e.isClass = true → e'.isClass = true →
    e.className = e'.className → e.fullName = e'.fullName

section OneHome

variable {elements elements' : List Placement}

theorem mem_classNames_of_perm (hp : elements'.Perm elements) {name : String} :
    name ∈ classNames elements' ↔ name ∈ classNames elements := by
  simp only [mem_classNames, hp.mem_iff]

theorem mem_of_firstPart? {name : String} {e : Placement}
    (h : firstPart? elements name = some e) :
    e ∈ elements ∧ e.isClass = true ∧ e.fullName = name :=
  mem_partsOf.mp (List.mem_of_head? h)

theorem exists_firstPart? {name : String} (h : name ∈ classNames elements) :
    ∃ e, firstPart? elements name = some e := by
  obtain ⟨e, he, hclass, hname⟩ := mem_classNames.mp h
  rw [firstPart?, ← Option.isSome_iff_exists, List.isSome_head?]
  exact List.ne_nil_of_mem (mem_partsOf.mpr ⟨he, hclass, hname⟩)

/-- In another order a class begins with another part, which says the same of its home. -/
theorem firstPart?_of_perm (hp : elements'.Perm elements) (h : OneHome elements) {name : String}
    {e : Placement} (he : firstPart? elements name = some e) :
    ∃ e', firstPart? elements' name = some e' ∧
      segmentsAround e'.around = segmentsAround e.around ∧ e'.className = e.className := by
  obtain ⟨hin, hclass, hname⟩ := mem_of_firstPart? he
  obtain ⟨e', he'⟩ := exists_firstPart?
    ((mem_classNames_of_perm hp).mpr (mem_classNames.mpr ⟨e, hin, hclass, hname⟩))
  obtain ⟨hin', hclass', hname'⟩ := mem_of_firstPart? he'
  exact ⟨e', he', h e' (hp.mem_iff.mp hin') e hin hclass' hclass (hname'.trans hname.symm)⟩

theorem tried_of_perm (hp : elements'.Perm elements) (h : OneHome elements)
    (reference : String × String) : tried elements' reference = tried elements reference := by
  rw [tried, tried]
  cases he : firstPart? elements reference.1 with
  | some e =>
    obtain ⟨e', he', hsegments, -⟩ := firstPart?_of_perm hp h he
    rw [he', Option.map_some, Option.map_some, scopedNames, scopedNames, hsegments]
  | none =>
    cases he' : firstPart? elements' reference.1 with
    | none => rfl
    | some e' =>
      obtain ⟨hin', hclass', hname'⟩ := mem_of_firstPart? he'
      obtain ⟨e, hsome⟩ := exists_firstPart?
        (mem_classNames.mpr ⟨e', hp.mem_iff.mp hin', hclass', hname'⟩)
      rw [he] at hsome
      exact absurd hsome (by simp)

theorem exists_of_namedSimply? {text name : String} (h : namedSimply? elements text = some name) :
    ∃ e ∈ elements, e.isClass = true ∧ e.className = text ∧ e.fullName = name := by
  have hfits := List.find?_some h
  cases he : firstPart? elements name with
  | none =>
    rw [he, Option.any_none] at hfits
    exact absurd hfits (by simp)
  | some e =>
    rw [he, Option.any_some, decide_eq_true_iff] at hfits
    obtain ⟨hin, hclass, hname⟩ := mem_of_firstPart? he
    exact ⟨e, hin, hclass, hfits, hname⟩

/-- The class with a simple name is the only one. -/
theorem namedSimply?_eq_some_iff (hh : OneHome elements) (hd : DistinctNames elements)
    {text name : String} :
    namedSimply? elements text = some name ↔
      ∃ e ∈ elements, e.isClass = true ∧ e.className = text ∧ e.fullName = name := by
  constructor
  · exact exists_of_namedSimply?
  · intro h
    obtain ⟨e, hin, hclass, htext, rfl⟩ := h
    have hname : e.fullName ∈ classNames elements := mem_classNames.mpr ⟨e, hin, hclass, rfl⟩
    obtain ⟨first, hfirst⟩ := exists_firstPart? hname
    obtain ⟨hin', hclass', hname'⟩ := mem_of_firstPart? hfirst
    have hsome : (namedSimply? elements text).isSome = true := by
      rw [namedSimply?, List.find?_isSome]
      refine ⟨e.fullName, hname, ?_⟩
      rw [hfirst, Option.any_some, decide_eq_true_iff, ← htext]
      exact (hh first hin' e hin hclass' hclass hname').2
    obtain ⟨found, hfound⟩ := Option.isSome_iff_exists.mp hsome
    obtain ⟨e', he', hc', htext', rfl⟩ := exists_of_namedSimply? hfound
    rw [hfound, hd e' he' e hin hc' hclass (htext'.trans htext.symm)]

theorem OneHome.perm (h : OneHome elements) (hp : elements'.Perm elements) : OneHome elements' :=
  fun e he e' he' => h e (hp.mem_iff.mp he) e' (hp.mem_iff.mp he')

theorem DistinctNames.perm (h : DistinctNames elements) (hp : elements'.Perm elements) :
    DistinctNames elements' :=
  fun e he e' he' => h e (hp.mem_iff.mp he) e' (hp.mem_iff.mp he')

/-- What a reference comes to depends on the order only by the names added before it. -/
theorem lookUp_of_perm (hp : elements'.Perm elements) (hh : OneHome elements)
    (hd : DistinctNames elements) (added : List String) (reference : String × String) :
    lookUp elements' added reference = lookUp elements added reference := by
  have hnamed : namedSimply? elements' reference.2 = namedSimply? elements reference.2 := by
    apply Option.ext
    intro name
    rw [namedSimply?_eq_some_iff (hh.perm hp) (hd.perm hp), namedSimply?_eq_some_iff hh hd]
    simp only [hp.mem_iff]
  rw [lookUp, lookUp, tried_of_perm hp hh, otherwise, otherwise, hnamed]
  simp only [mem_classNames_of_perm hp]

end OneHome

end Companion
