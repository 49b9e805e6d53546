import Companion.Proofs.Manifest.DocumentOrder

/-!
# Documents whose order does not matter

Where each class has one home and simple names tell classes apart, the order of the children can
matter in one way only: a base that has been added is among the names that another class tries before
its own base.

* `Document.Undisturbed`: bases come out within each child by themselves, and no child adds a name
  that is in the way in another one.
* `Document.reordered_spec`: when the bases of an accepted document are the same in every order.
-/

namespace Companion

open FirstOccurrences Entries
open Markup (Tag Event)

/-! ### References in children -/

namespace Document

variable {d d' : Document} {c : Compilation}

/-- The base texts that the parts in a child of the document give. -/
def givenIn (d : Document) (child : List Event) : List (String × String) :=
  givenBy Placement.baseText? (d.elementsIn child)

/-- The references in a child of the document. -/
def referencesIn (d : Document) (child : List Event) : List (String × String) :=
  references (d.elementsIn child)

theorem references_eq (h : IsManifest d.elements) :
    references d.elements = (d.children.flatMap d.givenIn).eraseDups := by
  have hroot : (Placement.mk d.root []).isClass = false := by
    obtain ⟨root, hfilter, hname⟩ := h.oneRoot
    have hmem : Placement.mk d.root [] ∈ d.elements.filter Placement.isOutermost := by
      rw [List.mem_filter, elements_eq]
      exact ⟨List.mem_cons_self, rfl⟩
    rw [hfilter, List.mem_singleton] at hmem
    have hroot : d.root.name = "compilation" := by rw [← hname, ← hmem]
    simp [Placement.isClass, hroot]
  have hgiven : givenBy Placement.baseText? d.elements = d.children.flatMap d.givenIn := by
    rw [elements_eq, givenBy, classElements, List.filter_cons_of_neg (by simp [hroot]),
      List.filter_flatMap, List.filterMap_flatMap]
    rfl
  rw [references, hgiven]

theorem Reordered.givenIn (hr : d.Reordered d') : d'.givenIn = d.givenIn := by
  funext child
  rw [Document.givenIn, Document.givenIn, elementsIn, elementsIn, hr.root]

theorem mem_references_of_mem_givenIn (h : IsManifest d.elements) {child : List Event}
    (hc : child ∈ d.children) {reference : String × String} (hr : reference ∈ d.givenIn child) :
    reference ∈ references d.elements := by
  rw [references_eq h, List.mem_eraseDups, List.mem_flatMap]
  exact ⟨child, hc, hr⟩

/-! ### When the order does not matter -/

/-- Bases come out within each child by themselves, and no child adds a name that another one tries
before the base of a class that it does not know. -/
structure Undisturbed (d : Document) : Prop where
  within : ∀ child ∈ d.children, ∀ front reference back,
    d.referencesIn child = front ++ reference :: back →
      lookUp d.elements (front.map fun r => baseNameOf d.elements r.1) reference =
        baseNameOf d.elements reference.1
  across : ∀ child ∈ d.children, ∀ other ∈ d.children, ∀ reference ∈ d.referencesIn child,
    (∀ r ∈ d.referencesIn other, r.1 ≠ reference.1) →
      ∀ r ∈ d.referencesIn other, baseNameOf d.elements r.1 ∉
        (tried d.elements reference).takeWhile (· ≠ baseNameOf d.elements reference.1)

theorem Undisturbed.stable (hu : d.Undisturbed) (h : IsManifest d.elements)
    (hh : OneHome d.elements) (hd : DistinctNames d.elements) : d.Stable := by
  intro d' hr front reference back hreferences
  have h' := h.perm hr.perm_elements
  rw [lookUp_of_perm hr.perm_elements hh hd]
  rw [references_eq h', hr.givenIn] at hreferences
  obtain ⟨before, after, hgiven, hnew, rfl⟩ := eraseDups_eq_append_cons hreferences
  -- The reference comes up in a child, behind others of that child and behind other children.
  obtain ⟨others, child, rest, inner, more, hchildren, hchild, rfl⟩ :=
    flatMap_eq_append_cons hgiven
  have hmem : ∀ other ∈ others ++ [child], other ∈ d.children := by
    intro other hother
    rw [← hr.children.mem_iff, hchildren, List.append_cons]
    exact List.mem_append_left _ hother
  have hinner : reference ∉ inner := fun hin => hnew (List.mem_append_right _ hin)
  obtain ⟨last, hlast⟩ := eraseDups_append_cons hinner more
  have hin : reference ∈ d.referencesIn child := by
    rw [referencesIn, references, List.mem_eraseDups]
    show reference ∈ d.givenIn child
    rw [hchild]
    exact List.mem_append_right _ List.mem_cons_self
  have hown : lookUp d.elements (inner.eraseDups.map fun r => baseNameOf d.elements r.1) reference =
      baseNameOf d.elements reference.1 := by
    refine hu.within child (hmem child (by simp)) _ reference last ?_
    rw [referencesIn, references, ← hlast, ← hchild]
    rfl
  apply lookUp_of_subset hown
  · intro name hname
    obtain ⟨r, hr', rfl⟩ := List.mem_map.mp hname
    rw [List.mem_eraseDups] at hr'
    exact List.mem_map.mpr ⟨r, List.mem_eraseDups.mpr (List.mem_append_right _ hr'), rfl⟩
  · intro name hname
    obtain ⟨r, hr', rfl⟩ := List.mem_map.mp hname
    rw [List.mem_eraseDups, List.mem_append, List.mem_flatMap] at hr'
    rcases hr' with ⟨other, hother, hr'⟩ | hr'
    · right
      refine hu.across child (hmem child (by simp)) other (hmem other (by simp [hother])) reference
        hin ?_ r (List.mem_eraseDups.mpr hr')
      intro r' hr'' heq
      -- The class would have come up before.
      have hsame : r' = reference := by
        refine eq_of_mem_references h.basesAgree
          (mem_references_of_mem_givenIn h (hmem other (by simp [hother]))
            (List.mem_eraseDups.mp hr'')) ?_ heq
        exact mem_references_of_mem_givenIn h (hmem child (by simp)) (List.mem_eraseDups.mp hin)
      apply hnew
      rw [List.mem_append, List.mem_flatMap]
      exact Or.inl ⟨other, hother, hsame ▸ List.mem_eraseDups.mp hr''⟩
    · left
      exact List.mem_map.mpr ⟨r, List.mem_eraseDups.mpr hr', rfl⟩

/-- What stability says of a reference that comes up behind others in some order of the children. -/
theorem Stable.lookUp_eq (hs : d.Stable) (h : IsManifest d.elements) (hh : OneHome d.elements)
    (hd : DistinctNames d.elements) {children : List (List Event)}
    (hp : children.Perm d.children) {before after : List (String × String)}
    {reference : String × String}
    (hgiven : children.flatMap d.givenIn = before ++ reference :: after)
    (hnew : reference ∉ before) :
    lookUp d.elements (before.eraseDups.map fun r => baseNameOf d.elements r.1) reference =
      baseNameOf d.elements reference.1 := by
  have hr := d.reordered_reorder hp
  obtain ⟨more, hmore⟩ := eraseDups_append_cons hnew after
  have hreferences : references (d.reorder children hp).elements =
      before.eraseDups ++ reference :: more := by
    rw [references_eq (h.perm hr.perm_elements), hr.givenIn, ← hmore, ← hgiven]
    rfl
  rw [← lookUp_of_perm hr.perm_elements hh hd]
  exact hs _ hr _ reference more hreferences

theorem Stable.undisturbed (hs : d.Stable) (h : IsManifest d.elements) (hh : OneHome d.elements)
    (hd : DistinctNames d.elements) : d.Undisturbed := by
  constructor
  · -- The child may come first.
    intro child hc front reference back hreferences
    obtain ⟨before, after, hgiven, hnew, rfl⟩ := eraseDups_eq_append_cons hreferences
    obtain ⟨front, back, hsplit⟩ := List.append_of_mem hc
    have hp : (child :: (front ++ back)).Perm d.children := by
      rw [hsplit]
      exact List.perm_middle.symm
    apply hs.lookUp_eq h hh hd hp
    · rw [List.flatMap_cons, show d.givenIn child = before ++ reference :: after from hgiven,
        List.append_assoc, List.cons_append]
    · exact hnew
  · -- The other child may come first, and then this one.
    intro child hc other hother reference hin hunknown r hr hway
    rw [referencesIn, references, List.mem_eraseDups] at hin hr
    have hne : reference ∉ d.givenIn other := by
      intro hmem
      exact hunknown reference (List.mem_eraseDups.mpr hmem) rfl
    obtain ⟨before, after, hgiven, hnew⟩ := List.eq_append_cons_of_mem hin
    obtain ⟨front, back, hsplit⟩ := List.append_of_mem hc
    have hrest : other ∈ front ++ back := by
      rw [hsplit, List.mem_append, List.mem_cons] at hother
      rcases hother with hother | rfl | hother
      · exact List.mem_append_left _ hother
      · exact absurd hin hne
      · exact List.mem_append_right _ hother
    obtain ⟨front', back', hsplit'⟩ := List.append_of_mem hrest
    have hfirst : (other :: child :: (front' ++ back')).Perm (child :: other :: (front' ++ back')) :=
      List.Perm.swap _ _ _
    have hsecond : (child :: other :: (front' ++ back')).Perm (child :: (front ++ back)) := by
      rw [hsplit']
      exact List.perm_middle.symm.cons child
    have hthird : (child :: (front ++ back)).Perm d.children := by
      rw [hsplit]
      exact List.perm_middle.symm
    have hgiven' : (other :: child :: (front' ++ back')).flatMap d.givenIn =
        (d.givenIn other ++ before) ++
          reference :: (after ++ (front' ++ back').flatMap d.givenIn) := by
      rw [List.flatMap_cons, List.flatMap_cons,
        show d.givenIn child = before ++ reference :: after from hgiven]
      simp
    have hnew' : reference ∉ d.givenIn other ++ before := by
      rw [List.mem_append]
      exact fun hmem => hmem.elim hne hnew
    have hlook := hs.lookUp_eq h hh hd ((hfirst.trans hsecond).trans hthird) hgiven' hnew'
    refine lookUp_ne_of_mem hway (List.mem_map.mpr ⟨r, ?_, rfl⟩) hlook
    rw [List.mem_eraseDups]
    exact List.mem_append_left _ hr

/-! ### The whole document -/

/-- In every order of the children the declared classes have bases of the same names. -/
def KeepsBases (d : Document) (c : Compilation) : Prop :=
  ∀ d' c', d.Reordered d' → Compilation.ofReading ⟨d'.events, none⟩ = .ok c' → c.SameBases c'

/-- An accepted document is accepted in every order of its children.  Its classes have the same bases
in every order exactly if it is stable, and where each class has one home and simple names tell
classes apart, exactly if no base that is added is in the way of another one. -/
theorem reordered_spec (h : Compilation.ofReading ⟨d.events, none⟩ = .ok c) :
    (∀ d', d.Reordered d' → ∃ c', Compilation.ofReading ⟨d'.events, none⟩ = .ok c') ∧
      (d.KeepsBases c ↔ d.Stable) ∧
        (OneHome d.elements → DistinctNames d.elements → (d.KeepsBases c ↔ d.Undisturbed)) := by
  have hmanifest : IsManifest d.elements := Compilation.isManifest_of_ofReading h
  refine ⟨fun d' hr => hr.accepted h, sameBases_iff_stable h, ?_⟩
  intro hh hd
  show (∀ d' c', _) ↔ _
  rw [sameBases_iff_stable h]
  constructor
  · intro hs
    exact hs.undisturbed hmanifest hh hd
  · intro hu
    exact hu.stable hmanifest hh hd

/-! ### Two documents -/

/-- A class in a namespace and a class outside, both with a base that is nowhere declared. -/
def twoClasses (base outerBase : String) : Document where
  root := ⟨"compilation", []⟩
  children :=
    [[.openTag ⟨"namespace", [.ok ⟨"name", "N"⟩]⟩,
        .emptyTag ⟨"class", [.ok ⟨"name", "A"⟩, .ok ⟨"base", base⟩]⟩, .closeTag "namespace"],
      [.emptyTag ⟨"class", [.ok ⟨"name", "B"⟩, .ok ⟨"base", outerBase⟩]⟩]]
  balanced := by
    intro child hc
    rw [List.mem_cons, List.mem_singleton] at hc
    rcases hc with rfl | rfl
    · exact .element _ _ (.emptyTag _ .nil) .nil
    · exact .emptyTag _ .nil

/-- Bases that are not in each other's way are the same in both orders. -/
theorem reordered_spec_twoClasses :
    ∃ c, Compilation.ofReading ⟨(twoClasses "X" "Y").events, none⟩ = .ok c ∧
      (twoClasses "X" "Y").KeepsBases c := by
  refine ⟨_, rfl, ((reordered_spec rfl).2.2 ?_ ?_).mpr ⟨?_, ?_⟩⟩
  · unfold OneHome
    decide +kernel
  · unfold DistinctNames
    decide +kernel
  · intro child hc
    rw [twoClasses, List.mem_cons, List.mem_singleton] at hc
    rcases hc with rfl | rfl
    · rw [show referencesIn _ _ = [("N.A", "X")] from rfl]
      exact forall_split_cons.mpr ⟨by decide +kernel, forall_split_nil⟩
    · rw [show referencesIn _ _ = [("B", "Y")] from rfl]
      exact forall_split_cons.mpr ⟨by decide +kernel, forall_split_nil⟩
  · decide +kernel

/-- The base `N.X` of the one class is in the way of the base `X` of the other one.  If it is linked
first both classes have the same base. -/
theorem not_keepsBases_twoClasses :
    ∃ c, Compilation.ofReading ⟨(twoClasses "X" "N.X").events, none⟩ = .ok c ∧
      DistinctNames (twoClasses "X" "N.X").elements ∧ ¬ (twoClasses "X" "N.X").KeepsBases c := by
  refine ⟨_, rfl, ?_, ?_⟩
  · unfold DistinctNames
    decide +kernel
  · intro hkeeps
    have hp := List.reverse_perm (twoClasses "X" "N.X").children
    obtain ⟨id, hid, hbase⟩ := hkeeps _ _ (reordered_reorder _ hp) rfl ⟨0⟩ (by decide +kernel)
    have hsecond := hid.symm.trans (by decide +kernel : _ = some (⟨1⟩ : TypeId))
    rw [Option.some.injEq] at hsecond
    subst hsecond
    exact absurd hbase (by decide +kernel)

end Document

end Companion
