import Companion.Proofs.Manifest.Declared
import Companion.Proofs.Manifest.Rules

/-!
# Which manifests are accepted

* `Draft.Reads`: a draft holds what the elements up to here say.
* `Draft.beginElement_spec`: one more element is taken in exactly if it breaks no rule.
* `Draft.foldlM_advance_spec`: a run of events is taken in up to the first offence.
* `Compilation.exists_ofReading_iff`: a reading is accepted exactly if it comes to its end with the
  elements of a manifest.
* `Compilation.ofReading_spec`: a reading gives a compilation exactly if its elements are those of a
  manifest, and otherwise the first offence.
-/

namespace Companion

open Markup (Event Tag Reading)

namespace Draft

/-- A draft holds what the elements up to here say. -/
structure Reads (draft : Draft) (elements : List Placement) (around : List Tag) : Prop where
  declares : draft.compilation.Declares elements
  mirrors : draft.compilation.Mirrors draft.opened around
  hasRoot : draft.hasRoot = elements.any Placement.isOutermost
  bases : draft.compilation.Notes elements Placement.baseText? draft.bases
  levels : draft.compilation.Notes elements Placement.level? draft.accessibilities

theorem reads_empty : ({} : Draft).Reads [] [] :=
  ⟨Compilation.declares_empty, .nil, rfl, .empty _ _, .empty _ _⟩

variable {draft : Draft} {elements : List Placement} {e : Placement}

/-! ### One element -/

/-- What beginning an element comes to if it breaks no rule. -/
structure Begun (draft : Draft) (elements : List Placement) (e : Placement) (next : Draft)
    (element : OpenElement) : Prop where
  reads : next.Reads (elements ++ [e]) e.around
  opened : next.opened = draft.opened
  mirrors : next.compilation.Mirrors (element :: draft.opened) (e.tag :: e.around)

/-- The result is the rule that is broken, or else the element has been taken in. -/
def Takes (draft : Draft) (elements : List Placement) (e : Placement)
    (offence : Option ManifestError) (result : Except ManifestError (Draft × OpenElement)) : Prop :=
  match offence with
  | some problem => result = .error problem
  | none => ∃ next element, result = .ok (next, element) ∧ draft.Begun elements e next element

theorem begun_root (r : draft.Reads elements e.around) (houter : e.around = [])
    (hname : e.tag.name = "compilation") :
    draft.Begun elements e { draft with hasRoot := true } .compilation := by
  have hclass : e.isClass = false := by simp [Placement.isClass, hname]
  refine ⟨⟨r.declares.concat_of_not hclass, r.mirrors, ?_, r.bases.concat_of_not hclass,
    r.levels.concat_of_not hclass⟩, rfl, .compilation hname r.mirrors⟩
  simp [Placement.isOutermost, houter]

theorem begun_scope (r : draft.Reads elements e.around) (houter : e.around ≠ [])
    (h : e.tag.name = "namespace") {name : String} (hn : nameAttribute? e.tag = some name) :
    ∃ next element, draft.beginScope e.tag = .ok (next, element) ∧
      draft.Begun elements e next element := by
  have known := r.mirrors.knowsScope_innermostScope?
  have hinterned := r.declares.interned
  have hspec := Compilation.internScope_spec hinterned.parentsFirst known name
  obtain ⟨hinterned', hx⟩ := hinterned.internScope known name
  have hmirrors := r.mirrors.keep hinterned.parentsFirst hspec.keepsScopes
  have hclass : e.isClass = false := by simp [Placement.isClass, h]
  refine ⟨{ draft with compilation :=
      (draft.compilation.internScope (innermostScope? draft.opened) name).1 },
    .scope (draft.compilation.internScope (innermostScope? draft.opened) name).2,
    by rw [beginScope, hn], ⟨?_, hmirrors, ?_, ?_, ?_⟩, rfl, ?_⟩
  · exact (r.declares.of_scopes hinterned' hx (Compilation.types_internScope _ _ _)
      hspec.declarations).concat_of_not hclass
  · show draft.hasRoot = _
    rw [r.hasRoot]
    simp [Placement.isOutermost, houter]
  · exact (r.bases.extend hinterned hx).concat_of_not hclass
  · exact (r.levels.extend hinterned hx).concat_of_not hclass
  · refine .scope h hspec.knowsScope ?_ hmirrors
    rw [segmentsAround_cons_scope h hn, ← r.mirrors.segmentsOf?_innermostScope?]
    exact hspec.segments

/-- A part of a class is noted and joined to its type. -/
theorem addPart_eq (draft : Draft) (scope : Option NamespaceId) (part : ClassPart) {id : TypeId}
    {name : String} (hid : (draft.compilation.internType scope part.name).2 = id)
    (hname : (draft.compilation.internType scope part.name).1.fullName id = name) :
    draft.addPart scope part =
      (note draft.bases id (.conflictingBases · · name) part.base).bind fun bases =>
        (note draft.accessibilities id (.conflictingAccessibilities · · name)
            part.accessibility).bind fun accessibilities =>
          .ok { draft with
            compilation := draft.compilation.joinPart scope part, bases, accessibilities } := by
  subst hid hname
  rfl

/-- A part of a class is refused if it disagrees with an earlier one, and is joined to its type
otherwise. -/
theorem addPart_spec (r : draft.Reads elements e.around) (houter : e.around ≠ [])
    (h : e.tag.name = "class") :
    draft.Takes elements e (e.disagreement? elements)
      ((draft.addPart (innermostScope? draft.opened) e.part).map (·, .classPart)) := by
  have hclass : e.isClass = true := by simp [Placement.isClass, h]
  have known := r.mirrors.knowsScope_innermostScope?
  have hinterned := r.declares.interned
  have hqualify : draft.compilation.qualify (innermostScope? draft.opened) e.className =
      e.fullName := r.mirrors.qualify_eq e.className
  have htype := Compilation.internType_spec hinterned known e.className
  obtain ⟨hinterned', hx, hid, hfull⟩ := Compilation.joinPart_spec hinterned known e.part
  have hadd := addPart_eq draft _ e.part rfl (htype.fullName.trans hqualify)
  have hdeclares := r.declares.joinPart hclass known r.mirrors.segmentsOf?_innermostScope? hqualify
  have hmirrors := r.mirrors.keep hinterned.parentsFirst hx.scopes
  rw [show draft.compilation.qualify _ e.part.name = e.fullName from hqualify] at hfull
  generalize (draft.compilation.internType (innermostScope? draft.opened) e.part.name).2 = id
    at hadd hid hfull
  generalize draft.compilation.joinPart (innermostScope? draft.opened) e.part = joined
    at hadd hinterned' hx hid hfull hdeclares hmirrors
  have hbases := (r.bases.extend hinterned hx).note_spec hinterned' hid hclass hfull
    (.conflictingBases · · e.fullName)
  have hlevels := (r.levels.extend hinterned hx).note_spec hinterned' hid hclass hfull
    (.conflictingAccessibilities · · e.fullName)
  rw [hadd, Placement.disagreement?]
  show draft.Takes elements e _
    (((note draft.bases id _ e.baseText?).bind fun bases =>
      (note draft.accessibilities id _ e.level?).bind fun accessibilities =>
        .ok (Draft.mk joined bases accessibilities draft.opened draft.hasRoot)).map _)
  -- The base is noted before the level.
  split at hbases
  · next problem hb =>
    rw [hb, hbases]
    rfl
  · next hb =>
    obtain ⟨bases, hnote, hbases'⟩ := hbases
    rw [hb, hnote, Option.none_or]
    split at hlevels
    · next problem hl =>
      rw [hl]
      show Except.map _ (Except.bind (note _ _ _ e.level?) _) = _
      rw [hlevels]
      rfl
    · next hl =>
      obtain ⟨levels, hnote', hlevels'⟩ := hlevels
      rw [hl]
      refine ⟨Draft.mk joined bases levels draft.opened draft.hasRoot, .classPart, ?_,
        ⟨hdeclares, hmirrors, ?_, hbases', hlevels'⟩, rfl, .classPart h hmirrors⟩
      · show Except.map _ (Except.bind (note _ _ _ e.level?) _) = _
        rw [hnote']
        rfl
      · show draft.hasRoot = _
        rw [r.hasRoot]
        simp [Placement.isOutermost, houter]

/-- A class element breaks the rule that its offence says, or is taken in. -/
theorem beginPart_spec (r : draft.Reads elements e.around) (houter : e.around ≠ [])
    (h : e.tag.name = "class") :
    draft.Takes elements e (e.classOffence? elements) (draft.beginPart e.tag) := by
  have hbegin : draft.beginPart e.tag = (ClassPart.ofTag e.tag).bind fun part =>
      (draft.addPart (innermostScope? draft.opened) part).map (·, .classPart) := rfl
  rw [hbegin, ofTag_eq, Placement.classOffence?]
  cases e.tag.attributes.find? (!fitsClass ·) with
  | some given => rfl
  | none =>
    dsimp only
    cases e.isNamed with
    | true => exact addPart_spec r houter h
    | false => rfl

theorem beginRoot_eq (draft : Draft) (tag : Tag) :
    draft.beginRoot tag =
      if tag.name ≠ "compilation" then .error (.unexpectedRoot tag.name)
      else if draft.hasRoot then .error .secondRoot
      else .ok ({ draft with hasRoot := true }, .compilation) := rfl

/-- An outermost element is taken in if it is the first one and is named `compilation`. -/
theorem beginRoot_spec (r : draft.Reads elements e.around) (houter : e.around = []) :
    draft.Takes elements e (e.offence? elements) (draft.beginRoot e.tag) := by
  rw [beginRoot_eq, Placement.offence?, houter, r.hasRoot]
  dsimp only
  by_cases hname : e.tag.name = "compilation"
  · rw [if_neg (not_not.mpr hname), if_neg (not_not.mpr hname)]
    by_cases hany : elements.any Placement.isOutermost = true
    · rw [if_pos hany, if_pos hany]
      rfl
    · rw [if_neg hany, if_neg hany]
      exact ⟨_, _, rfl, begun_root r houter hname⟩
  · rw [if_pos hname, if_pos hname]
    rfl

/-- An element in a container is taken in if it is a namespace with a name or a proper part of a
class. -/
theorem beginInner_spec (r : draft.Reads elements e.around) (houter : e.around ≠ [])
    (container : Element) :
    draft.Takes elements e
      (if e.isScope then
        if e.isNamed then none else some (.missingAttribute .namespaceScope "name")
      else if e.isClass then e.classOffence? elements
      else some (.unknownElement e.tag.name container))
      (if e.tag.name = "namespace" then draft.beginScope e.tag
      else if e.tag.name = "class" then draft.beginPart e.tag
      else .error (.unknownElement e.tag.name container)) := by
  by_cases hscope : e.tag.name = "namespace"
  · have hs : e.isScope = true := decide_eq_true hscope
    rw [if_pos hs, if_pos hscope]
    cases hn : nameAttribute? e.tag with
    | none =>
      have hunnamed : ¬ e.isNamed = true := by
        rw [Placement.isNamed_iff, ← isSome_nameAttribute?_iff]
        simp [hn]
      rw [if_neg hunnamed, beginScope, hn]
      rfl
    | some name =>
      have hnamed : e.isNamed = true := by
        rw [Placement.isNamed_iff, ← isSome_nameAttribute?_iff]
        simp [hn]
      rw [if_pos hnamed]
      exact begun_scope r houter hscope hn
  · have hs : ¬ e.isScope = true := by simpa [Placement.isScope] using hscope
    rw [if_neg hs, if_neg hscope]
    by_cases hclass : e.tag.name = "class"
    · have hc : e.isClass = true := decide_eq_true hclass
      rw [if_pos hc, if_pos hclass]
      exact beginPart_spec r houter hclass
    · have hc : ¬ e.isClass = true := by simpa [Placement.isClass] using hclass
      rw [if_neg hc, if_neg hclass]
      rfl

/-- One more element is taken in exactly if it breaks no rule. -/
theorem beginElement_spec (r : draft.Reads elements e.around) :
    draft.Takes elements e (e.offence? elements) (draft.beginElement e.tag) := by
  have hmirrors := r.mirrors
  cases houter : e.around with
  | nil =>
    rw [houter] at hmirrors
    have hopened : draft.opened = [] := by
      generalize draft.opened = opened at hmirrors
      cases hmirrors
      rfl
    rw [beginElement, hopened]
    exact beginRoot_spec r houter
  | cons tag outer =>
    rw [houter] at hmirrors
    obtain ⟨parent, rest, hopened⟩ : ∃ parent rest, draft.opened = parent :: rest := by
      generalize draft.opened = opened at hmirrors
      cases hmirrors <;> exact ⟨_, _, rfl⟩
    rw [hopened] at hmirrors
    rw [beginElement, hopened, Placement.offence?, houter]
    dsimp only
    rw [hmirrors.containerOf?_eq]
    by_cases hparent : parent = .classPart
    · rw [if_pos hparent, if_pos hparent]
      rfl
    · rw [if_neg hparent, if_neg hparent]
      exact beginInner_spec r (by simp [houter]) parent.element

/-! ### A run of events -/

/-- Events are taken in up to the first offence among their elements. -/
def TakesAll (draft : Draft) (elements : List Placement) (around : List Tag)
    (events : List Event) : Prop :=
  match firstOffence? elements (placementsWithin around events) with
  | some problem => events.foldlM advance draft = .error problem
  | none => ∃ final around', events.foldlM advance draft = .ok final ∧
      final.Reads (elements ++ placementsWithin around events) around'

/-- An element is taken in, and then the events behind its tag are. -/
theorem takesAll_cons (r : draft.Reads elements e.around) {event : Event} {rest : List Event}
    {around : List Tag} {finish : Draft × OpenElement → Draft}
    (hstep : draft.advance event = (draft.beginElement e.tag).map finish)
    (hplaced : placementsWithin e.around (event :: rest) = e :: placementsWithin around rest)
    (hreads : ∀ next element, draft.Begun elements e next element →
      (finish (next, element)).Reads (elements ++ [e]) around)
    (hrest : ∀ next : Draft, next.Reads (elements ++ [e]) around →
      next.TakesAll (elements ++ [e]) around rest) :
    draft.TakesAll elements e.around (event :: rest) := by
  have hbegin := beginElement_spec r
  rw [TakesAll, hplaced, firstOffence?, List.foldlM_cons, hstep]
  cases ho : e.offence? elements with
  | some problem =>
    rw [ho] at hbegin
    rw [show draft.beginElement e.tag = .error problem from hbegin]
    rfl
  | none =>
    rw [ho] at hbegin
    obtain ⟨next, element, hok, hbegun⟩ := hbegin
    have hall := hrest _ (hreads next element hbegun)
    rw [TakesAll, List.append_assoc] at hall
    rw [hok]
    exact hall

theorem takesAll {around : List Tag} (r : draft.Reads elements around) (events : List Event) :
    draft.TakesAll elements around events := by
  induction events generalizing draft elements around with
  | nil => exact ⟨draft, around, rfl, by rwa [placementsWithin, List.append_nil]⟩
  | cons event rest ih =>
    cases event with
    | openTag tag =>
      apply takesAll_cons (e := ⟨tag, around⟩) r rfl rfl
      · intro next element h
        refine ⟨h.reads.declares, ?_, h.reads.hasRoot, h.reads.bases, h.reads.levels⟩
        show next.compilation.Mirrors (element :: next.opened) (tag :: around)
        rw [h.opened]
        exact h.mirrors
      · intro next h
        exact ih h
    | emptyTag tag =>
      apply takesAll_cons (e := ⟨tag, around⟩) r rfl rfl
      · intro next element h
        exact h.reads
      · intro next h
        exact ih h
    | closeTag name =>
      have hclosed : ({ draft with opened := draft.opened.tail } : Draft).Reads elements
          around.tail := ⟨r.declares, r.mirrors.tail, r.hasRoot, r.bases, r.levels⟩
      exact ih hclosed
    | filler content => exact ih r

/-- All that a draft of events holds, or the first rule that they break. -/
theorem ofEvents_spec (events : List Event) :
    match firstOffence? [] (placements events) with
    | some problem => ofEvents events = .error problem
    | none => ∃ draft around, ofEvents events = .ok draft ∧
        draft.Reads (placements events) around :=
  takesAll reads_empty events

/-- Events that are taken in obey the rules, and the draft holds what they say. -/
theorem exists_reads_of_ofEvents {events : List Event} (h : ofEvents events = .ok draft) :
    KeepsRules (placements events) ∧ ∃ around, draft.Reads (placements events) around := by
  have hspec := ofEvents_spec events
  cases hoff : firstOffence? [] (placements events) with
  | some problem =>
    rw [hoff] at hspec
    rw [show ofEvents events = .error problem from hspec] at h
    cases h
  | none =>
    rw [hoff] at hspec
    obtain ⟨draft', around, hok, hreads⟩ := hspec
    rw [h, Except.ok.injEq] at hok
    rw [hok]
    exact ⟨inOrder_iff_keepsRules.mp (firstOffence?_eq_none_iff.mp hoff), around, hreads⟩

end Draft

/-! ### The whole manifest -/

namespace Compilation

variable {events : List Event}

theorem ofReading_eq_bind (events : List Event) :
    ofReading ⟨events, none⟩ = (Draft.ofEvents events).bind Draft.finish := rfl

/-- The elements of a manifest are all read and then linked. -/
theorem exists_draft_of_isManifest (h : IsManifest (placements events)) :
    ∃ (draft : Draft) (around : List Tag), draft.Reads (placements events) around ∧
      ofReading ⟨events, none⟩ = .ok draft.link := by
  obtain ⟨hne, hoff⟩ := (isManifest_placements_iff events).mp h
  have hspec := Draft.ofEvents_spec events
  rw [hoff] at hspec
  obtain ⟨draft, around, hok, hreads⟩ := hspec
  have hroot : draft.hasRoot = true := by
    rw [hreads.hasRoot, any_isOutermost_placements]
    simpa using hne
  refine ⟨draft, around, hreads, ?_⟩
  rw [ofReading_eq_bind, hok]
  show draft.finish = _
  rw [Draft.finish, if_pos hroot]

/-- What is no manifest is refused with the first rule that is broken. -/
theorem ofReading_eq_error (h : ¬ IsManifest (placements events)) :
    ∃ problem, ofReading ⟨events, none⟩ = .error problem ∧
      ∀ problem', FirstOffence (placements events) problem' ↔ problem = problem' := by
  rw [isManifest_placements_iff, not_and] at h
  simp only [firstOffence_iff]
  have hspec := Draft.ofEvents_spec events
  rw [ofReading_eq_bind]
  cases hoff : firstOffence? [] (placements events) with
  | some problem =>
    rw [hoff] at hspec
    have hne : placements events ≠ [] := by
      intro hnil
      rw [hnil, firstOffence?] at hoff
      exact absurd hoff (by simp)
    refine ⟨problem, ?_, by simp [hne]⟩
    rw [show Draft.ofEvents events = .error problem from hspec]
    rfl
  | none =>
    rw [hoff] at hspec
    obtain ⟨draft, around, hok, hreads⟩ := hspec
    have hnil : placements events = [] := by
      by_contra hne
      exact h hne hoff
    have hroot : draft.hasRoot = false := by
      rw [hreads.hasRoot, any_isOutermost_placements, hnil]
      rfl
    refine ⟨.missingRoot, ?_, by simp [hnil, eq_comm]⟩
    rw [hok]
    show draft.finish = _
    rw [Draft.finish, hroot]
    rfl

theorem isManifest_of_ofReading {c : Compilation} (h : ofReading ⟨events, none⟩ = .ok c) :
    IsManifest (placements events) := by
  by_contra hnot
  obtain ⟨problem, hproblem, -⟩ := ofReading_eq_error hnot
  rw [h] at hproblem
  exact absurd hproblem (by simp)

/-- What is refused at its end breaks the rule that the error says. -/
theorem firstOffence_of_ofReading {problem : ManifestError}
    (h : ofReading ⟨events, none⟩ = .error problem) : FirstOffence (placements events) problem := by
  have hnot : ¬ IsManifest (placements events) := by
    intro hmanifest
    obtain ⟨draft, around, -, hok⟩ := exists_draft_of_isManifest hmanifest
    rw [h] at hok
    exact absurd hok (by simp)
  obtain ⟨found, hfound, hfirst⟩ := ofReading_eq_error hnot
  rw [h, Except.error.injEq] at hfound
  exact (hfirst problem).mpr hfound.symm

/-- What is accepted has been read to its end. -/
theorem fault?_eq_none_of_ofReading {reading : Reading} {c : Compilation}
    (h : ofReading reading = .ok c) : reading.fault? = none := by
  cases hfault : reading.fault? with
  | none => rfl
  | some fault =>
    rw [ofReading, hfault] at h
    cases hdraft : Draft.ofEvents reading.events with
    | error problem =>
      rw [hdraft] at h
      exact absurd h (by simp [bind, Except.bind])
    | ok draft =>
      rw [hdraft] at h
      exact absurd h (by simp [bind, Except.bind])

/-- What is accepted is linked from the draft of its events. -/
theorem exists_draft_of_ofReading {reading : Reading} {c : Compilation}
    (h : ofReading reading = .ok c) :
    ∃ (draft : Draft) (around : List Tag), Draft.ofEvents reading.events = .ok draft ∧
      draft.hasRoot = true ∧ draft.Reads (placements reading.events) around ∧ draft.link = c := by
  obtain ⟨events, fault?⟩ := reading
  obtain rfl : fault? = none := fault?_eq_none_of_ofReading h
  rw [ofReading_eq_bind] at h
  cases hok : Draft.ofEvents events with
  | error problem =>
    rw [hok] at h
    cases h
  | ok draft =>
    obtain ⟨-, around, hreads⟩ := Draft.exists_reads_of_ofEvents hok
    rw [hok] at h
    change draft.finish = _ at h
    unfold Draft.finish at h
    split at h
    · next hroot => exact ⟨draft, around, rfl, hroot, hreads, Except.ok.inj h⟩
    · cases h

/-- What is accepted are the elements of a manifest, all read and then linked. -/
theorem exists_reads_of_ofReading {reading : Reading} {c : Compilation}
    (h : ofReading reading = .ok c) :
    IsManifest (placements reading.events) ∧ ∃ (draft : Draft) (around : List Tag),
      draft.Reads (placements reading.events) around ∧ draft.link = c := by
  obtain ⟨draft, around, -, -, hreads, hlink⟩ := exists_draft_of_ofReading h
  obtain ⟨events, fault?⟩ := reading
  obtain rfl : fault? = none := fault?_eq_none_of_ofReading h
  exact ⟨isManifest_of_ofReading h, draft, around, hreads, hlink⟩

/-- A reading is accepted exactly if it comes to its end with the elements of a manifest. -/
theorem exists_ofReading_iff (reading : Reading) :
    (∃ c, ofReading reading = .ok c) ↔
      reading.fault? = none ∧ IsManifest (placements reading.events) := by
  constructor
  · intro h
    obtain ⟨c, hc⟩ := h
    have hfault := fault?_eq_none_of_ofReading hc
    obtain ⟨events, fault?⟩ := reading
    obtain rfl : fault? = none := hfault
    exact ⟨rfl, isManifest_of_ofReading hc⟩
  · intro hall
    obtain ⟨events, fault?⟩ := reading
    obtain ⟨rfl, h⟩ : fault? = none ∧ IsManifest (placements events) := hall
    obtain ⟨draft, around, -, hok⟩ := exists_draft_of_isManifest h
    exact ⟨draft.link, hok⟩

/-- A reading that comes to its end is accepted exactly if its elements are those of a manifest, and
it is refused with the first rule that one of them breaks. -/
theorem ofReading_spec (events : List Event) :
    ((∃ c, ofReading ⟨events, none⟩ = .ok c) ↔ IsManifest (placements events)) ∧
      ∀ problem, ofReading ⟨events, none⟩ = .error problem ↔
        FirstOffence (placements events) problem := by
  constructor
  · constructor
    · intro h
      obtain ⟨c, hc⟩ := h
      exact isManifest_of_ofReading hc
    · intro h
      obtain ⟨draft, around, -, hok⟩ := exists_draft_of_isManifest h
      exact ⟨draft.link, hok⟩
  · intro problem
    by_cases h : IsManifest (placements events)
    · obtain ⟨draft, around, -, hok⟩ := exists_draft_of_isManifest h
      obtain ⟨hne, hoff⟩ := (isManifest_placements_iff events).mp h
      rw [hok, firstOffence_iff, hoff]
      simp [hne]
    · obtain ⟨found, hfound, hfirst⟩ := ofReading_eq_error h
      rw [hfound, hfirst, Except.error.injEq]

end Compilation

end Companion
