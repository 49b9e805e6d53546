import Companion.Proofs.Manifest.FilledIn
import Companion.Proofs.Manifest.Resolution
import Mathlib.Logic.Relation

/-!
# Linking step by step

While a draft is linked its levels are set in any order, and then each base text in turn is resolved
and what it comes to is set as the base.

* `LinkStep`: one of these steps.
* `Draft.linked_reached`: the steps lead to the linked compilation.
* `Draft.Arises`: the compilations in between, with the first and the last one.
* `Linking.step`: what a step needs of the compilation holds after it as well.
* `Draft.Arises.declaredNamed?_eq`: simple names of declared types can be gathered beforehand.
* `resolveBase_spec`: what the base text of a declared type is resolved to in any of them.
-/

namespace Companion

open Markup (Event)
open Relation (ReflTransGen)

/-- A compilation that is being linked. -/
structure LinkState where
  compilation : Compilation
  /-- The levels that are left to be set. -/
  levels : List (TypeId × Accessibility)
  /-- The bases that are left to be set. -/
  bases : List (TypeId × String)
  /-- What the first of these has been resolved to. -/
  found : Option TypeId := none

/-- One step of linking. -/
inductive LinkStep : LinkState → LinkState → Prop
  /-- Any of the levels is set. -/
  | level {c : Compilation} {id : TypeId} {level : Accessibility}
      {front back : List (TypeId × Accessibility)} {bases : List (TypeId × String)} :
      LinkStep ⟨c, front ++ (id, level) :: back, bases, none⟩
        ⟨c.setAccessibility id level, front ++ back, bases, none⟩
  /-- Behind the levels, the first of the bases is resolved. -/
  | resolve {c : Compilation} {id : TypeId} {text : String} {rest : List (TypeId × String)} :
      LinkStep ⟨c, [], (id, text) :: rest, none⟩
        ⟨(c.resolveBase id text).1, [], (id, text) :: rest, some (c.resolveBase id text).2⟩
  /-- And then it is set. -/
  | set {c : Compilation} {id base : TypeId} {text : String} {rest : List (TypeId × String)} :
      LinkStep ⟨c, [], (id, text) :: rest, some base⟩ ⟨c.setBase id (some base), [], rest, none⟩

/-! ### From the draft to the linked compilation -/

theorem levels_reached (c : Compilation) (levels : List (TypeId × Accessibility))
    (bases : List (TypeId × String)) :
    ReflTransGen LinkStep ⟨c, levels, bases, none⟩
      ⟨levels.foldl (fun c p => c.setAccessibility p.1 p.2) c, [], bases, none⟩ := by
  induction levels generalizing c with
  | nil => exact .refl
  | cons p rest ih => exact .head (@LinkStep.level c p.1 p.2 [] rest bases) (ih _)

theorem bases_reached (c : Compilation) (bases : List (TypeId × String)) :
    ReflTransGen LinkStep ⟨c, [], bases, none⟩
      ⟨bases.foldl (fun c p => c.linkBase p.1 p.2) c, [], [], none⟩ := by
  induction bases generalizing c with
  | nil => exact .refl
  | cons p rest ih => exact .head .resolve (.head .set (ih _))

namespace Draft

variable {draft : Draft} {c : Compilation}

/-- A draft of which nothing has been linked. -/
def linkStart (draft : Draft) : LinkState :=
  ⟨draft.compilation, draft.accessibilities, draft.bases, none⟩

/-- The steps lead to the linked compilation. -/
theorem linked_reached (draft : Draft) :
    ReflTransGen LinkStep draft.linkStart ⟨draft.link, [], [], none⟩ :=
  (levels_reached _ _ _).trans (bases_reached _ _)

/-- A compilation that there is at some time while a draft is linked. -/
def Arises (draft : Draft) (c : Compilation) : Prop :=
  ∃ s, ReflTransGen LinkStep draft.linkStart s ∧ s.compilation = c

end Draft

/-! ### What each step needs -/

namespace Compilation

variable {origin : Compilation} {elements : List Placement}

/-- What is so at any time while a compilation is linked. -/
structure Linking (origin : Compilation) (s : LinkState) : Prop where
  links : ∃ added linked, Links origin s.compilation added linked ∧
    ∀ p ∈ s.bases, linked.lookup (origin.fullName p.1) = none
  known : ∀ p ∈ s.bases, p.1 ∈ origin.typeIds
  once : (s.bases.map (·.1)).Nodup
  found : ∀ base ∈ s.found, base ∈ s.compilation.typeIds

theorem Linking.step {s s' : LinkState} (h : Linking origin s) (d : origin.Declares elements)
    (hstep : LinkStep s s') : Linking origin s' := by
  obtain ⟨⟨added, linked, l, hfresh⟩, hknown, honce, hfound⟩ := h
  cases hstep with
  | @level c id level front back bases =>
    exact ⟨⟨added, linked, l.setAccessibility id level, hfresh⟩, hknown, honce, by simp⟩
  | @resolve c id text rest =>
    have hid : id ∈ origin.typeIds := hknown _ List.mem_cons_self
    have hresolved := l.resolveBase d hid text
    refine ⟨⟨_, linked, l.resolved hresolved, hfresh⟩, hknown, honce, ?_⟩
    rintro _ ⟨⟩
    exact hresolved.interned.known
  | @set c id base text rest =>
    rw [List.forall_mem_cons] at hfresh hknown
    rw [List.map_cons, List.nodup_cons] at honce
    refine ⟨⟨added, _, l.setBase d.interned hknown.1 hfresh.1 (hfound base rfl), ?_⟩, hknown.2,
      honce.2, by simp⟩
    intro p hp
    -- No other base is noted for the type whose base has been set.
    have hmem : p.1 ∈ rest.map (·.1) := List.mem_map_of_mem hp
    have hne : p.1 ≠ id := fun he => honce.1 (he ▸ hmem)
    have hname : (origin.fullName p.1 == origin.fullName id) = false := by
      rw [beq_eq_false_iff_ne]
      exact fun he => hne (d.interned.fullName_inj (hknown.2 p hp) hknown.1 he)
    rw [List.lookup_append, hfresh.2 p hp, Option.none_or, List.lookup_cons, hname, List.lookup_nil]

end Compilation

namespace Draft

variable {draft : Draft} {c : Compilation} {events : List Event}

theorem Reads.linking_linkStart {elements : List Placement} {around : List Markup.Tag}
    (r : draft.Reads elements around) (h : Agree Placement.baseText? elements) :
    Compilation.Linking draft.compilation draft.linkStart :=
  ⟨⟨[], [], .start r.declares, fun _ _ => rfl⟩, r.bases.known, r.bases.nodup h, by simp [linkStart]⟩

/-- What a compilation holds at any time while a draft of events is linked. -/
theorem Arises.exists_links (h : draft.Arises c) (hdraft : Draft.ofEvents events = .ok draft) :
    draft.compilation.Declares (placements events) ∧
      ∃ added linked, Compilation.Links draft.compilation c added linked := by
  obtain ⟨hrules, around, hreads⟩ := exists_reads_of_ofEvents hdraft
  obtain ⟨s, hsteps, rfl⟩ := h
  have hlinking : Compilation.Linking draft.compilation s := by
    induction hsteps with
    | refl => exact hreads.linking_linkStart hrules.basesAgree
    | tail _ hstep ih => exact ih.step hreads.declares hstep
  obtain ⟨added, linked, l, -⟩ := hlinking.links
  exact ⟨hreads.declares, added, linked, l⟩

/-- The types that are added while a draft is linked do not count where a simple name is looked up. -/
theorem Arises.declaredNamed?_eq (h : draft.Arises c) (hdraft : Draft.ofEvents events = .ok draft)
    (text : String) : c.declaredNamed? text = draft.compilation.declaredNamed? text := by
  obtain ⟨d, added, linked, l⟩ := h.exists_links hdraft
  rw [l.declaredNamed?_eq_find?, (Compilation.Links.start d).declaredNamed?_eq_find?]

end Draft

namespace Compilation

variable {draft : Draft} {c : Compilation} {events : List Event} {id : TypeId} {text : String}

/-- At any time while a draft is linked, the base text of a declared type comes to the type with the
first of the full names that it is short for in the scopes around, or to the first declared type with
that simple name, or adds an external type and nothing else. -/
theorem resolveBase_spec (h : Draft.ofEvents events = .ok draft) (arises : draft.Arises c)
    (declared : c.declarationsOf id ≠ []) (plain : text.toList.head? ≠ some '.') :
    ∃ symbol scopes, c.type? id = some symbol ∧
      (∀ around, c.Surround symbol.scope around ↔ around = scopes) ∧
        c.Resolves scopes text (c.resolveBase id text) := by
  obtain ⟨d, added, linked, l⟩ := arises.exists_links h
  have hid : id ∈ c.typeIds := by
    rw [ne_eq, l.declarationsOf_eq_nil_iff d, not_not] at declared
    exact l.extends_.mem_typeIds declared
  have htells : c.TellsExternals := fun id symbol hs => l.external_iff d hs
  obtain ⟨symbol, hs⟩ := exists_type?_of_mem hid
  have hknown := l.interned.knowsScope_of_type? hs
  have haround : ∀ around, c.Surround symbol.scope around ↔ around = _ :=
    fun around => surround_iff l.interned.parentsFirst hknown
  exact ⟨symbol, _, hs, haround, l.interned.resolves htells hs ((haround _).mpr rfl) plain⟩

/-- Two classes with one base, which is nowhere declared, and a class that derives from one of them. -/
def sharingEvents : List Event :=
  (Markup.Reading.ofText <|
    "<compilation><class name=\"B\" base=\"N.X\"/><namespace name=\"N.M\">" ++
      "<class name=\"A\" base=\"X\"/></namespace><class name=\"C\" base=\"A\"/></compilation>").events

/-- The three classes, with their base texts noted. -/
def sharingDraft : Draft where
  compilation :=
    { namespaces := [⟨"N", none⟩, ⟨"M", some ⟨0⟩⟩]
      types := [⟨"B", { name := "B", scope := none }⟩,
        ⟨"N.M.A", { name := "A", scope := some ⟨1⟩ }⟩, ⟨"C", { name := "C", scope := none }⟩]
      declarations := [⟨⟨0⟩, false⟩, ⟨⟨1⟩, false⟩, ⟨⟨2⟩, false⟩] }
  bases := [(⟨0⟩, "N.X"), (⟨1⟩, "X"), (⟨2⟩, "A")]
  hasRoot := true

/-- The classes when the first base has been linked. -/
def sharingHalfway : Compilation :=
  sharingDraft.compilation.linkBase ⟨0⟩ "N.X"

theorem arises_sharingHalfway : sharingDraft.Arises sharingHalfway :=
  ⟨⟨sharingHalfway, [], [(⟨1⟩, "X"), (⟨2⟩, "A")], none⟩, .head .resolve (.head .set .refl), rfl⟩

/-- The type that has been added for the first base is found for the second one in an outer scope. -/
theorem resolveBase_spec_sharingHalfway :
    Draft.ofEvents sharingEvents = .ok sharingDraft ∧ sharingDraft.Arises sharingHalfway ∧
      sharingHalfway.declarationsOf ⟨1⟩ ≠ [] ∧ "X".toList.head? ≠ some '.' ∧
        sharingHalfway.Resolves [⟨1⟩, ⟨0⟩] "X" (sharingHalfway, ⟨3⟩) := by
  have hdraft : Draft.ofEvents sharingEvents = .ok sharingDraft := by decide +kernel
  have hdeclared : sharingHalfway.declarationsOf ⟨1⟩ ≠ [] := by decide +kernel
  have hplain : "X".toList.head? ≠ some '.' := by decide +kernel
  obtain ⟨symbol, scopes, hs, haround, hresolves⟩ :=
    resolveBase_spec hdraft arises_sharingHalfway hdeclared hplain
  have hscope : symbol.scope = some ⟨1⟩ := by
    have hown : (sharingHalfway.type? ⟨1⟩).map (·.scope) = some (some ⟨1⟩) := by decide +kernel
    rw [hs] at hown
    exact Option.some.inj hown
  have hinner : sharingHalfway.namespace? ⟨1⟩ = some ⟨"M", some ⟨0⟩⟩ := by decide +kernel
  have houter : sharingHalfway.namespace? ⟨0⟩ = some ⟨"N", none⟩ := by decide +kernel
  have hscopes : [⟨1⟩, ⟨0⟩] = scopes := by
    rw [← haround, hscope]
    exact .inside hinner (.inside houter .nowhere)
  have hresult : sharingHalfway.resolveBase ⟨1⟩ "X" = (sharingHalfway, ⟨3⟩) := by decide +kernel
  rw [hscopes, ← hresult]
  exact ⟨hdraft, arises_sharingHalfway, hdeclared, hplain, hresolves⟩

end Compilation

end Companion
