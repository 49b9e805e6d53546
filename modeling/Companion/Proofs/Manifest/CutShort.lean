import Companion.Proofs.Manifest.Declarations
import Companion.Proofs.Markup.Nesting

/-!
# Manifests that are cut short

A manifest that is cut between two pieces of markup is read to its end, and that elements are still
open there is not seen.  It comes to the compilation of what has been read.

* `placementsWithin_append`: the elements of a run of events that goes on.
* `IsManifest.cutShort`: a manifest that is cut behind its first element breaks no rule.
* `Compilation.ofReading_closers`: the close tags that are missing would change nothing.
* `Compilation.ofManifest_cutShort`: which cuts are accepted, and what they come to.
* `Compilation.not_wellNested_halfManifest`: an accepted manifest that leaves elements open.
-/

namespace Companion

open Markup

variable {around : List Tag} {events more : List Event} {elements : List Placement}

/-! ### Elements of a cut -/

/-- What follows events lies inside of the elements that they leave open. -/
theorem placementsWithin_append (around : List Tag) (events more : List Event) :
    placementsWithin around (events ++ more) =
      placementsWithin around events ++ placementsWithin (openBehind around events) more := by
  induction events generalizing around with
  | nil => rfl
  | cons event rest ih =>
    cases event with
    | openTag tag => exact congrArg (_ :: ·) (ih _)
    | emptyTag tag => exact congrArg (_ :: ·) (ih _)
    | closeTag name => exact ih _
    | filler kind => exact ih _

/-- What is open behind events was open in front of them or is one of their elements. -/
theorem mem_openBehind {tag : Tag} (h : tag ∈ openBehind around events) :
    tag ∈ around ∨ ∃ e ∈ placementsWithin around events, e.tag = tag := by
  induction events generalizing around with
  | nil => exact Or.inl h
  | cons event rest ih =>
    cases event with
    | openTag opening =>
      rcases ih h with hin | ⟨e, he, htag⟩
      · rcases List.mem_cons.mp hin with rfl | hin
        · exact Or.inr ⟨_, List.mem_cons_self, rfl⟩
        · exact Or.inl hin
      · exact Or.inr ⟨e, List.mem_cons_of_mem _ he, htag⟩
    | emptyTag empty =>
      rcases ih h with hin | ⟨e, he, htag⟩
      · exact Or.inl hin
      · exact Or.inr ⟨e, List.mem_cons_of_mem _ he, htag⟩
    | closeTag name =>
      rcases ih h with hin | hin
      · exact Or.inl (List.mem_of_mem_tail hin)
      · exact Or.inr hin
    | filler kind => exact ih h

/-- A manifest that is cut behind its first element is a manifest. -/
theorem IsManifest.cutShort (h : IsManifest (placements (events ++ more)))
    (hne : placements events ≠ []) : IsManifest (placements events) := by
  rw [isManifest_placements_iff, firstOffence?_eq_none_iff] at h ⊢
  refine ⟨hne, ?_⟩
  have horder := h.2
  rw [placements, placementsWithin_append] at horder
  exact horder.front

theorem IsManifest.tagName_mem (h : IsManifest elements) {e : Placement} (he : e ∈ elements) :
    e.tag.name ∈ ["compilation", "namespace", "class"] := by
  have hfits := (isManifest_iff_keepsRules.mp h).2.fits e he
  cases haround : e.around with
  | nil =>
    have hroot := hfits.root (by rw [Placement.isOutermost, haround, List.isEmpty_nil])
    simp [hroot]
  | cons parent outer =>
    obtain ⟨hscope | hclass, -⟩ := hfits.nested parent (by rw [haround, List.head?_cons]; rfl)
    · have hname : e.tag.name = "namespace" := of_decide_eq_true hscope
      simp [hname]
    · have hname : e.tag.name = "class" := of_decide_eq_true hclass
      simp [hname]

theorem isPlain_of_mem {name : String} (h : name ∈ ["compilation", "namespace", "class"]) :
    IsPlain name := by
  simp only [List.mem_cons, List.not_mem_nil, or_false] at h
  rcases h with rfl | rfl | rfl
  · simp [IsPlain, Quote.of?, isSpace]
  · simp [IsPlain, Quote.of?, isSpace]
  · simp [IsPlain, Quote.of?, isSpace]

/-- The elements that a manifest leaves open have names that a close tag can hold as they are. -/
theorem IsManifest.isPlain_of_mem_openBehind (h : IsManifest (placements events)) {tag : Tag}
    (ht : tag ∈ openBehind [] events) : IsPlain tag.name := by
  rcases mem_openBehind ht with hin | ⟨e, he, rfl⟩
  · exact absurd hin (by simp)
  · exact isPlain_of_mem (h.tagName_mem he)

/-! ### Missing close tags -/

/-- Close tags only change which elements are open. -/
theorem Draft.foldlM_advance_closers (draft : Draft) (around : List Tag) :
    ∃ opened, (closers around).foldlM advance draft = .ok { draft with opened } := by
  induction around generalizing draft with
  | nil => exact ⟨draft.opened, rfl⟩
  | cons tag outer ih => exact ih { draft with opened := draft.opened.tail }

namespace Compilation

variable {c c' : Compilation}

/-- Close tags at the end change nothing. -/
theorem ofReading_closers (events : List Event) (around : List Tag) :
    ofReading ⟨events ++ closers around, none⟩ = ofReading ⟨events, none⟩ := by
  rw [ofReading_eq_bind, ofReading_eq_bind, Draft.ofEvents, List.foldlM_append]
  change (Draft.ofEvents events >>= _).bind Draft.finish = _
  cases Draft.ofEvents events with
  | error problem => rfl
  | ok draft =>
    obtain ⟨opened, hclosed⟩ := draft.foldlM_advance_closers around
    show ((closers around).foldlM Draft.advance draft).bind Draft.finish = draft.finish
    rw [hclosed]
    rfl

/-- A text leaves no element open exactly if no close tag is missing at its end. -/
theorem wellNested_ofText_iff {text : String} (h : (Reading.ofText text).fault? = none) :
    WellNested (Reading.ofText text).events ↔ closing text = "" := by
  rw [wellNested_iff (ofText_matched h).2.2, closing]
  cases openBehind [] (Reading.ofText text).events with
  | nil => simp [closeTags]
  | cons tag outer => simp [closeTags]

/-- An accepted manifest comes to the same with the close tags that are missing at its end. -/
theorem ofManifest_closing {text : String} (h : ofManifest text = .ok c) :
    WellNested (Reading.ofText (text ++ closing text)).events ∧
      ofManifest (text ++ closing text) = .ok c := by
  obtain ⟨hfault, hmanifest⟩ := (exists_ofReading_iff _).mp ⟨c, h⟩
  have hne : text ≠ "" := by
    rintro rfl
    rw [ofText_empty] at hmanifest
    exact ((isManifest_placements_iff []).mp hmanifest).1 rfl
  obtain ⟨hread, hnested⟩ :=
    ofText_append_closing hne hfault fun tag => hmanifest.isPlain_of_mem_openBehind
  rw [ofManifest, hread, ofReading_closers, ← hfault]
  exact ⟨hnested, h⟩

/-- A manifest may be cut short anywhere behind its first tag, only not in a piece of markup.  What
is left declares the first classes of the whole, and it comes to the same as if all elements that it
leaves open were closed. -/
theorem ofManifest_cutShort {front rest : String} (h : ofManifest (front ++ rest) = .ok c) :
    ((∃ c', ofManifest front = .ok c') ↔
        (Reading.ofText front).fault? = none ∧ placements (Reading.ofText front).events ≠ []) ∧
      ∀ c', ofManifest front = .ok c' →
        c'.declared <+: c.declared ∧
          (WellNested (Reading.ofText front).events ↔ closing front = "") ∧
          WellNested (Reading.ofText (front ++ closing front)).events ∧
          ofManifest (front ++ closing front) = .ok c' := by
  obtain ⟨-, hwhole⟩ := (exists_ofReading_iff _).mp ⟨c, h⟩
  constructor
  · show (∃ c', ofReading (Reading.ofText front) = .ok c') ↔ _
    rw [exists_ofReading_iff]
    refine and_congr_right fun hfault => ?_
    constructor
    · intro hfront
      exact ((isManifest_placements_iff _).mp hfront).1
    · intro hne
      obtain ⟨more, hmore⟩ := events_ofText_append hfault rest
      rw [← hmore] at hwhole
      exact hwhole.cutShort hne
  · intro c' h'
    have hfault : (Reading.ofText front).fault? = none := fault?_eq_none_of_ofReading h'
    obtain ⟨more, hmore⟩ := events_ofText_append hfault rest
    refine ⟨?_, wellNested_ofText_iff hfault, ofManifest_closing h'⟩
    obtain ⟨-, -, hdeclared⟩ := declared_of_ofReading h
    obtain ⟨-, -, hdeclared'⟩ := declared_of_ofReading h'
    rw [hdeclared, hdeclared', ← hmore, placements, placements, placementsWithin_append]
    exact ((List.prefix_append _ _).filter _).map _

/-- A manifest that breaks off behind its first class. -/
def halfManifest : String := "<compilation><namespace name=\"N\"><class name=\"A\"/>"

/-- What breaks off. -/
def halfManifestRest : String := "<class name=\"B\"/></namespace></compilation>"

/-- The classes with the given names in one namespace. -/
def flatCompilation (names : List String) : Compilation where
  namespaces := [⟨"N", none⟩]
  types := names.map fun name => ⟨"N." ++ name, { name, scope := some ⟨0⟩ }⟩
  declarations := (List.range names.length).map fun index => ⟨⟨index⟩, false⟩

/-- The first class is all that is left. -/
theorem ofManifest_cutShort_halfManifest :
    ofManifest (halfManifest ++ halfManifestRest) = .ok (flatCompilation ["A", "B"]) ∧
      ((∃ c', ofManifest halfManifest = .ok c') ↔
        (Reading.ofText halfManifest).fault? = none ∧
          placements (Reading.ofText halfManifest).events ≠ []) ∧
      ∀ c', ofManifest halfManifest = .ok c' →
        c'.declared <+: (flatCompilation ["A", "B"]).declared ∧
          (WellNested (Reading.ofText halfManifest).events ↔ closing halfManifest = "") ∧
          WellNested (Reading.ofText (halfManifest ++ closing halfManifest)).events ∧
          ofManifest (halfManifest ++ closing halfManifest) = .ok c' := by
  have h : ofManifest (halfManifest ++ halfManifestRest) =
      .ok (flatCompilation ["A", "B"]) := by
    decide +kernel
  exact ⟨h, ofManifest_cutShort h⟩

/-- It is accepted with both of its outer elements open. -/
theorem not_wellNested_halfManifest :
    ofManifest halfManifest = .ok (flatCompilation ["A"]) ∧
      ¬ WellNested (Reading.ofText halfManifest).events := by
  have h : ofManifest halfManifest = .ok (flatCompilation ["A"]) := by decide +kernel
  have hclosing : closing halfManifest = "</namespace></compilation>" := by decide +kernel
  refine ⟨h, ?_⟩
  rw [wellNested_ofText_iff (fault?_eq_none_of_ofReading h), hclosing]
  decide

end Compilation

end Companion
