import Companion.Proofs.Collections.FirstOccurrences
import Companion.Proofs.Collections.Results
import Companion.Proofs.Manifest.LinkSteps

/-!
# The order in which a draft is linked

Levels are noted by type, and the notes may be gone through in any order.  No two of them are on one
type, so that setting one does not interfere with setting another.  Bases are gone through in the order
in which they were first noted, whatever the order of the levels was.

* `setLevels_perm`: notes on different types may be gone through in any order.
* `LinksInOrder`: what there is at each time while levels are set in any order, and bases are linked in
  the order of the notes.
* `LinksInOrder.step`: a step of linking keeps to this order.
* `Joined`: the parts of classes that the notes of a draft come from.
* `NotedFrom`: notes hold each value once, in the order in which they were first given, and one for each
  type.
* `Joined.notedFrom`: so do the notes of a draft.
* `exists_joined_of_ofEvents`: the notes of a manifest come from the parts that are in it.
* `linkOrder_spec`: a draft comes to the same compilation in whatever order its levels are set, and its
  bases are linked in the order in which they were first seen.
-/

namespace Companion

open FirstOccurrences
open Markup (Event Tag)
open Relation (ReflTransGen)

namespace Compilation

/-! ### Levels in any order -/

/-- Gives types their levels, one after the other. -/
def setLevels (c : Compilation) (levels : List (TypeId × Accessibility)) : Compilation :=
  levels.foldl (fun c p => c.setAccessibility p.1 p.2) c

/-- Gives types the bases that they name, one after the other. -/
def linkBases (c : Compilation) (bases : List (TypeId × String)) : Compilation :=
  bases.foldl (fun c p => c.linkBase p.1 p.2) c

theorem linkBases_concat (c : Compilation) (bases : List (TypeId × String)) (p : TypeId × String) :
    c.linkBases (bases ++ [p]) = (c.linkBases bases).linkBase p.1 p.2 := by
  rw [linkBases, List.foldl_append]
  rfl

/-- Changes of different types do not interfere. -/
theorem updateType_comm {id other : TypeId} (h : id ≠ other) (c : Compilation)
    (change change' : TypeSymbol → TypeSymbol) :
    (c.updateType id change).updateType other change' =
      (c.updateType other change').updateType id change := by
  have hindex : id.index ≠ other.index := by
    intro he
    obtain ⟨i⟩ := id
    obtain ⟨j⟩ := other
    exact h (congrArg TypeId.mk he)
  unfold updateType
  dsimp only
  rw [List.modify_modify_ne _ _ _ hindex]

/-- Notes on different types may be gone through in any order. -/
theorem setLevels_perm {levels levels' : List (TypeId × Accessibility)} (hp : levels.Perm levels')
    (distinct : (levels.map (·.1)).Nodup) (c : Compilation) :
    c.setLevels levels = c.setLevels levels' := by
  apply hp.foldl_eq'
  intro p hp q hq c
  by_cases he : p = q
  · rw [he]
  · have hkeys : p.1 ≠ q.1 := fun hk => he (List.inj_on_of_nodup_map distinct hp hq hk)
    exact updateType_comm hkeys c _ _

end Compilation

/-! ### Steps in order -/

/-- A compilation at some time while the levels are set in any order and then the bases are linked in the
order of the notes.  With all levels set it is `levelled`. -/
inductive LinksInOrder (levelled : Compilation) (bases : List (TypeId × String)) (s : LinkState) :
    Prop
  /-- Levels are left to be set, in any order, and no base has been looked at. -/
  | levelling (distinct : (s.levels.map (·.1)).Nodup)
      (left : s.compilation.setLevels s.levels = levelled) (untouched : s.bases = bases)
      (found : s.found = none)
  /-- The bases up to some place have been linked. -/
  | between (done : List (TypeId × String)) (split : bases = done ++ s.bases)
      (levels : s.levels = []) (compilation : s.compilation = levelled.linkBases done)
      (found : s.found = none)
  /-- The one behind them has been resolved as well. -/
  | resolved (done rest : List (TypeId × String)) (id : TypeId) (text : String) (base : TypeId)
      (split : bases = done ++ s.bases) (next : s.bases = (id, text) :: rest)
      (levels : s.levels = [])
      (result : (levelled.linkBases done).resolveBase id text = (s.compilation, base))
      (found : s.found = some base)

namespace LinksInOrder

variable {levelled : Compilation} {bases : List (TypeId × String)} {s s' : LinkState}

theorem step (h : LinksInOrder levelled bases s) (hstep : LinkStep s s') :
    LinksInOrder levelled bases s' := by
  cases hstep with
  | @level c id level front back left =>
    cases h with
    | levelling distinct levelled untouched found =>
      -- The level may stand anywhere among those that are left, and might as well be the first one.
      have hp : (front ++ (id, level) :: back).Perm ((id, level) :: (front ++ back)) :=
        List.perm_middle
      have hkeys : (((id, level) :: (front ++ back)).map (·.1)).Nodup :=
        (hp.map _).nodup_iff.mp distinct
      refine .levelling (List.nodup_cons.mp hkeys).2 ?_ untouched found
      rw [← levelled, Compilation.setLevels_perm hp distinct]
      rfl
    | between done split levels compilation found =>
      exact absurd levels (by simp)
    | resolved done rest id text base split next levels result found =>
      exact absurd levels (by simp)
  | @resolve c id text rest =>
    -- No level is left, so that all are set and the bases up to here are linked.
    have hnext : ∃ done, bases = done ++ (id, text) :: rest ∧ c = levelled.linkBases done := by
      cases h with
      | levelling distinct left untouched found => exact ⟨[], untouched.symm, left⟩
      | between done split levels compilation found => exact ⟨done, split, compilation⟩
      | resolved done rest id text base split next levels result found =>
        exact absurd found (by simp)
    obtain ⟨done, hsplit, rfl⟩ := hnext
    exact .resolved done rest id text _ hsplit rfl rfl rfl rfl
  | @set c id base text rest =>
    cases h with
    | levelling distinct left untouched found => exact absurd found (by simp)
    | between done split levels compilation found => exact absurd found (by simp)
    | resolved done rest' id' text' base' split next levels result found =>
      obtain ⟨⟨rfl, rfl⟩, rfl⟩ : (id = id' ∧ text = text') ∧ rest = rest' := by simpa using next
      obtain rfl : base = base' := by simpa using found
      refine .between (done ++ [(id, text)]) ?_ rfl ?_ rfl
      · rw [split, List.append_assoc]
        rfl
      · rw [Compilation.linkBases_concat, Compilation.linkBase]
        dsimp only
        rw [result]

theorem steps (h : LinksInOrder levelled bases s) (hsteps : ReflTransGen LinkStep s s') :
    LinksInOrder levelled bases s' := by
  induction hsteps with
  | refl => exact h
  | tail _ hstep ih => exact ih.step hstep

/-- When nothing is left all bases have been linked in the order of the notes. -/
theorem compilation_eq (h : LinksInOrder levelled bases s) (levels : s.levels = [])
    (exhausted : s.bases = []) : s.compilation = levelled.linkBases bases := by
  cases h with
  | levelling distinct left untouched found =>
    rw [levels] at left
    rw [← untouched, exhausted]
    exact left
  | between done split levels compilation found =>
    rw [exhausted, List.append_nil] at split
    rw [split, compilation]
  | resolved done rest id text base split next levels result found =>
    rw [exhausted] at next
    exact absurd next (by simp)

end LinksInOrder

/-! ### Where notes come from -/

namespace Draft

/-- The values that parts give, each with the type that its part is joined to. -/
def valuesOf {α : Type} (value : ClassPart → Option α) (parts : List (TypeId × ClassPart)) :
    List (TypeId × α) :=
  parts.filterMap fun p => (value p.2).map (p.1, ·)

/-- The draft has joined these parts, each to the type that stands with it.  Between two of them all that
there is in the draft may become another, but for the notes. -/
inductive Joined : List (TypeId × ClassPart) → Draft → Prop
  | nothing : Joined [] {}
  | elsewhere {parts : List (TypeId × ClassPart)} {draft : Draft} (earlier : Joined parts draft)
      (compilation : Compilation) (opened : List OpenElement) (hasRoot : Bool) :
      Joined parts { draft with compilation, opened, hasRoot }
  | part {parts : List (TypeId × ClassPart)} {draft next : Draft} {scope : Option NamespaceId}
      {part : ClassPart} (earlier : Joined parts draft)
      (taken : draft.addPart scope part = .ok next) :
      Joined (parts ++ [((draft.compilation.internType scope part.name).2, part)]) next

/-- Notes hold each value once, in the order in which they were first given, and one for each type. -/
structure NotedFrom {α : Type} [DecidableEq α] (given noted : List (TypeId × α)) : Prop where
  firstSeen : noted = given.eraseDups
  once : (noted.map (·.1)).Nodup

section Notes

variable {α : Type} [DecidableEq α] {given noted noted' : List (TypeId × α)} {id : TypeId}
  {conflict : α → α → ManifestError} {value : Option α}

theorem notedFrom_nil : NotedFrom ([] : List (TypeId × α)) [] :=
  ⟨rfl, List.nodup_nil⟩

/-- A value that is not refused is noted behind the others, unless it has been noted before. -/
theorem NotedFrom.note (n : NotedFrom given noted)
    (h : Draft.note noted id conflict value = .ok noted') :
    NotedFrom (given ++ (value.map (id, ·)).toList) noted' := by
  cases value with
  | none =>
    obtain rfl : noted = noted' := Except.ok.inj h
    rw [Option.map_none, Option.toList_none, List.append_nil]
    exact n
  | some value =>
    rw [Option.map_some, Option.toList_some]
    rw [Draft.note] at h
    cases hl : noted.lookup id with
    | none =>
      rw [hl] at h
      obtain rfl : noted ++ [(id, value)] = noted' := Except.ok.inj h
      have hkey : id ∉ noted.map (·.1) := by
        intro hmem
        obtain ⟨p, hp, rfl⟩ := List.mem_map.mp hmem
        simpa using List.lookup_eq_none_iff.mp hl p hp
      have hnew : (id, value) ∉ given := by
        rw [← List.mem_eraseDups, ← n.firstSeen]
        exact fun hmem => hkey (List.mem_map_of_mem hmem)
      refine ⟨by rw [eraseDups_concat, if_neg hnew, n.firstSeen], ?_⟩
      rw [List.map_append, List.map_singleton, ← List.concat_eq_append, List.nodup_concat]
      exact ⟨hkey, n.once⟩
    | some previous =>
      rw [hl] at h
      by_cases hsame : previous = value
      · subst hsame
        obtain rfl : noted = noted' := by simpa using h
        have hold : (id, previous) ∈ given := by
          obtain ⟨front, back, hsplit, -⟩ := List.lookup_eq_some_iff.mp hl
          rw [← List.mem_eraseDups, ← n.firstSeen, hsplit]
          exact List.mem_append_right _ List.mem_cons_self
        exact ⟨by rw [eraseDups_concat, if_pos hold, n.firstSeen], n.once⟩
      · simp [hsame] at h

end Notes

theorem valuesOf_concat {α : Type} (value : ClassPart → Option α)
    (parts : List (TypeId × ClassPart)) (p : TypeId × ClassPart) :
    valuesOf value (parts ++ [p]) = valuesOf value parts ++ ((value p.2).map (p.1, ·)).toList := by
  rw [valuesOf, List.filterMap_append]
  cases hv : value p.2 with
  | none => simp [valuesOf, hv]
  | some a => simp [valuesOf, hv]

variable {parts : List (TypeId × ClassPart)} {draft next : Draft}

/-- The notes of a draft are the base texts and the levels that its parts give. -/
theorem Joined.notedFrom (j : Joined parts draft) :
    NotedFrom (valuesOf ClassPart.base parts) draft.bases ∧
      NotedFrom (valuesOf ClassPart.accessibility parts) draft.accessibilities := by
  induction j with
  | nothing => exact ⟨notedFrom_nil, notedFrom_nil⟩
  | elsewhere _ compilation opened hasRoot ih => exact ih
  | @part parts draft next scope part _ taken ih =>
    rw [addPart_eq draft scope part rfl rfl] at taken
    obtain ⟨bases, hbases, hrest⟩ := exists_of_bind_eq_ok taken
    obtain ⟨levels, hlevels, hnext⟩ := exists_of_bind_eq_ok hrest
    obtain rfl := Except.ok.inj hnext
    rw [valuesOf_concat, valuesOf_concat]
    exact ⟨ih.1.note hbases, ih.2.note hlevels⟩

/-! ### Drafts of manifests -/

/-- An element either leaves the notes alone or is one more part. -/
theorem Joined.beginElement (j : Joined parts draft) {tag : Tag} {element : OpenElement}
    (h : draft.beginElement tag = .ok (next, element)) : ∃ parts', Joined parts' next := by
  unfold Draft.beginElement at h
  split at h
  · rw [beginRoot_eq] at h
    split at h
    · cases h
    · split at h
      · cases h
      · cases h
        exact ⟨parts, j.elsewhere draft.compilation draft.opened true⟩
  · split at h
    · cases h
    · split at h
      · unfold beginScope at h
        split at h
        · cases h
        · cases h
          exact ⟨parts, j.elsewhere _ draft.opened draft.hasRoot⟩
      · split at h
        · obtain ⟨part, -, hrest⟩ := exists_of_bind_eq_ok h
          obtain ⟨joined, htaken, hnext⟩ := exists_of_bind_eq_ok hrest
          cases hnext
          exact ⟨_, j.part htaken⟩
        · cases h

/-- And so does an event. -/
theorem Joined.advance (j : Joined parts draft) {event : Event}
    (h : draft.advance event = .ok next) : ∃ parts', Joined parts' next := by
  cases event with
  | openTag tag =>
    obtain ⟨⟨begun, element⟩, hbegin, rfl⟩ := exists_of_map_eq_ok h
    obtain ⟨parts', j'⟩ := j.beginElement hbegin
    exact ⟨parts', j'.elsewhere begun.compilation _ begun.hasRoot⟩
  | emptyTag tag =>
    obtain ⟨⟨begun, element⟩, hbegin, rfl⟩ := exists_of_map_eq_ok h
    exact j.beginElement hbegin
  | closeTag name =>
    cases h
    exact ⟨parts, j.elsewhere draft.compilation _ draft.hasRoot⟩
  | filler kind =>
    cases h
    exact ⟨parts, j⟩

/-- And so does a row of events, by induction on it. -/
theorem Joined.foldlM (j : Joined parts draft) {events : List Event}
    (h : events.foldlM Draft.advance draft = .ok next) : ∃ parts', Joined parts' next := by
  induction events generalizing parts draft with
  | nil =>
    cases h
    exact ⟨parts, j⟩
  | cons event rest ih =>
    rw [List.foldlM_cons] at h
    obtain ⟨following, hstep, hrest⟩ := exists_of_bind_eq_ok h
    obtain ⟨parts', j'⟩ := j.advance hstep
    exact ih j' hrest

/-- The notes of a manifest come from its parts. -/
theorem exists_joined_of_ofEvents {events : List Event} (h : Draft.ofEvents events = .ok draft) :
    ∃ parts, Joined parts draft :=
  Joined.nothing.foldlM h

/-! ### The order of linking -/

/-- Whatever compilation it is that the notes of a draft are linked in, they come to the same one in
whatever order the levels are set.  The bases are linked in the order in which the parts first gave them,
one for each type, and before each of them there is the same compilation for all orders of the levels. -/
theorem linkOrder_spec (joined : Joined parts draft) (c : Compilation) :
    (draft.bases = (valuesOf ClassPart.base parts).eraseDups ∧ (draft.bases.map (·.1)).Nodup) ∧
      (∀ levels : List (TypeId × Accessibility), levels.Perm draft.accessibilities →
        Draft.link { draft with compilation := c, accessibilities := levels } =
          Draft.link { draft with compilation := c }) ∧
      ∀ s, ReflTransGen LinkStep ⟨c, draft.accessibilities, draft.bases, none⟩ s →
        LinksInOrder (c.setLevels draft.accessibilities) draft.bases s ∧
          (s.levels = [] → s.bases = [] →
            s.compilation = Draft.link { draft with compilation := c }) := by
  obtain ⟨hbases, hlevels⟩ := joined.notedFrom
  refine ⟨⟨hbases.firstSeen, hbases.once⟩, ?_, ?_⟩
  · intro levels hp
    show (c.setLevels levels).linkBases draft.bases =
      (c.setLevels draft.accessibilities).linkBases draft.bases
    rw [Compilation.setLevels_perm hp.symm hlevels.once]
  · intro s hsteps
    have hstart : LinksInOrder (c.setLevels draft.accessibilities) draft.bases
        ⟨c, draft.accessibilities, draft.bases, none⟩ :=
      .levelling hlevels.once rfl rfl rfl
    have horder := hstart.steps hsteps
    exact ⟨horder, fun levels exhausted => horder.compilation_eq levels exhausted⟩

/-- Two classes with their levels, the first of them in two parts that say the same. -/
def repeatingEvents : List Event :=
  (Markup.Reading.ofText <|
    "<compilation><class name=\"A\" base=\"X\" accessibility=\"public\"/>" ++
      "<class name=\"B\" base=\"A\" accessibility=\"protected\"/>" ++
      "<class name=\"A\" base=\"X\" accessibility=\"public\"/></compilation>").events

/-- The two classes, with one note of each kind for each of them. -/
def repeatingDraft : Draft where
  compilation :=
    { types := [⟨"A", { name := "A", scope := none }⟩, ⟨"B", { name := "B", scope := none }⟩]
      declarations := [⟨⟨0⟩, false⟩, ⟨⟨1⟩, false⟩, ⟨⟨0⟩, false⟩] }
  bases := [(⟨0⟩, "X"), (⟨1⟩, "A")]
  accessibilities := [(⟨0⟩, .publicAccess), (⟨1⟩, .protectedAccess)]
  hasRoot := true

/-- The level of the second class may be set first. -/
theorem linkOrder_spec_repeatingDraft :
    (∃ parts, Joined parts repeatingDraft ∧
      [(⟨0⟩, "X"), (⟨1⟩, "A")] = (valuesOf ClassPart.base parts).eraseDups) ∧
      ([(⟨1⟩, .protectedAccess), (⟨0⟩, .publicAccess)] : List (TypeId × Accessibility)).Perm
        repeatingDraft.accessibilities ∧
      Draft.link { repeatingDraft with
        accessibilities := [(⟨1⟩, .protectedAccess), (⟨0⟩, .publicAccess)] } =
        Draft.link repeatingDraft := by
  have hdraft : Draft.ofEvents repeatingEvents = .ok repeatingDraft := by decide +kernel
  have hperm : ([(⟨1⟩, .protectedAccess), (⟨0⟩, .publicAccess)] :
      List (TypeId × Accessibility)).Perm repeatingDraft.accessibilities := .swap _ _ _
  obtain ⟨parts, hjoined⟩ := exists_joined_of_ofEvents hdraft
  obtain ⟨⟨hbases, -⟩, hlink, -⟩ := linkOrder_spec hjoined repeatingDraft.compilation
  exact ⟨⟨parts, hjoined, hbases⟩, hperm, hlink _ hperm⟩

end Draft

end Companion
