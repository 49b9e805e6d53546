import Companion.Proofs.Manifest.Acceptance
import Companion.Proofs.Markup.Wrapping
import Companion.Proofs.Model.ScopePaths

/-!
# Dotted and nested namespaces

A namespace with a dot in its name is a namespace in a namespace.  A manifest comes to the same if
the inner one is written out, down to the positions in the lists and to the errors.

* `IsScopeTag`: the tag of a namespace with the given name.
* `Draft.beginElement_opened`: of the open elements only the innermost one and the innermost scope
  matter to an element.
* `Draft.foldlM_closedTwice`: a scope that is open around another one matters to nothing in the
  inner one.
* `Compilation.nestedScopes_spec`: the two ways to write a namespace come to the same.
-/

namespace Companion

open Markup

/-- The tag of a namespace with the given name. -/
def IsScopeTag (tag : Tag) (name : String) : Prop :=
  tag.name = "namespace" ∧ nameAttribute? tag = some name

namespace Draft

variable {draft next : Draft} {element : OpenElement} {opened : List OpenElement}

/-! ### Elements that are open -/

theorem addPart_opened (draft : Draft) (opened : List OpenElement) (scope : Option NamespaceId)
    (part : ClassPart) :
    ({ draft with opened } : Draft).addPart scope part =
      (draft.addPart scope part).map ({ · with opened }) := by
  rw [addPart_eq draft scope part rfl rfl, addPart_eq { draft with opened } scope part rfl rfl]
  cases note draft.bases _ _ part.base with
  | error problem => rfl
  | ok bases =>
    show Except.bind (note draft.accessibilities _ _ _) _ =
      (Except.bind (note draft.accessibilities _ _ _) _).map _
    cases note draft.accessibilities _ _ part.accessibility with
    | error problem => rfl
    | ok accessibilities => rfl

theorem beginScope_opened (hscope : innermostScope? opened = innermostScope? draft.opened)
    (tag : Tag) :
    ({ draft with opened } : Draft).beginScope tag =
      (draft.beginScope tag).map fun (next, element) => ({ next with opened }, element) := by
  unfold beginScope
  cases nameAttribute? tag with
  | none => rfl
  | some name =>
    dsimp only
    rw [hscope]
    rfl

theorem beginPart_opened (hscope : innermostScope? opened = innermostScope? draft.opened)
    (tag : Tag) :
    ({ draft with opened } : Draft).beginPart tag =
      (draft.beginPart tag).map fun (next, element) => ({ next with opened }, element) := by
  unfold beginPart
  cases ClassPart.ofTag tag with
  | error problem => rfl
  | ok part =>
    show Except.bind (addPart _ _ _) _ = (Except.bind (addPart _ _ _) _).map _
    rw [addPart_opened, hscope]
    cases draft.addPart (innermostScope? draft.opened) part with
    | error problem => rfl
    | ok next => rfl

/-- Of the open elements only the innermost one and the innermost scope matter to an element. -/
theorem beginElement_opened (hhead : opened.head? = draft.opened.head?)
    (hscope : innermostScope? opened = innermostScope? draft.opened) (tag : Tag) :
    ({ draft with opened } : Draft).beginElement tag =
      (draft.beginElement tag).map fun (next, element) => ({ next with opened }, element) := by
  have hinner := beginScope_opened hscope tag
  have hpart := beginPart_opened hscope tag
  unfold beginElement
  dsimp only
  cases ho : draft.opened with
  | nil =>
    rw [ho, List.head?_nil, List.head?_eq_none_iff] at hhead
    rw [hhead]
    show beginRoot _ tag = (draft.beginRoot tag).map _
    rw [beginRoot_eq, beginRoot_eq]
    split
    · rfl
    · split
      · rfl
      · rfl
  | cons parent outer =>
    rw [ho, List.head?_cons, List.head?_eq_some_iff] at hhead
    obtain ⟨rest, hrest⟩ := hhead
    rw [hrest] at hinner hpart ⊢
    dsimp only
    rw [hinner, hpart]
    split
    · rfl
    · split
      · rfl
      · split
        · rfl
        · rfl

/-- Beginning an element opens and closes nothing before it is done. -/
theorem opened_of_beginElement {tag : Tag} (h : draft.beginElement tag = .ok (next, element)) :
    next.opened = draft.opened := by
  have hsame : ({ draft with opened := draft.opened } : Draft).beginElement tag = _ :=
    beginElement_opened rfl rfl tag
  rw [h] at hsame
  exact congrArg (fun result => (Prod.fst result).opened) (Except.ok.inj hsame)

/-! ### A scope around another one -/

/-- What counts of a draft when all events have been taken in. -/
def settled (draft : Draft) : Draft := { draft with opened := [] }

/-- An element on top of two scopes sees what it sees on top of the inner one alone. -/
theorem beginElement_above (draft : Draft) {above base : List OpenElement} {id : NamespaceId}
    (mid : NamespaceId) (hopened : draft.opened = above ++ .scope id :: base) (tag : Tag) :
    ({ draft with opened := above ++ .scope id :: .scope mid :: base } : Draft).beginElement tag =
      (draft.beginElement tag).map fun (next, element) =>
        ({ next with opened := above ++ .scope id :: .scope mid :: base }, element) := by
  apply beginElement_opened
  · rw [hopened]
    cases above with
    | nil => rfl
    | cons top above => rfl
  · rw [hopened]
    induction above generalizing draft with
    | nil => rfl
    | cons top above ih =>
      cases top with
      | scope top => rfl
      | compilation => exact ih { draft with opened := _ } rfl
      | classPart => exact ih { draft with opened := _ } rfl

/-- A scope that is open around another one matters to nothing in the inner one, and is closed right
behind it. -/
theorem foldlM_closedTwice (draft : Draft) {base : List OpenElement} {id : NamespaceId}
    (mid : NamespaceId) (above : List OpenElement) (hopened : draft.opened = above ++ .scope id :: base)
    (events : List Event) :
    ((closedTwice above.length events).foldlM advance
        { draft with opened := above ++ .scope id :: .scope mid :: base }).map settled =
      (events.foldlM advance draft).map settled := by
  induction events generalizing draft above with
  | nil => rfl
  | cons event rest ih =>
    cases event with
    | openTag tag =>
      have hbegin := beginElement_above draft mid hopened tag
      rw [closedTwice, List.foldlM_cons, List.foldlM_cons, advance, advance, hbegin]
      cases hnext : draft.beginElement tag with
      | error problem => rfl
      | ok result =>
        obtain ⟨next, element⟩ := result
        have hsame := opened_of_beginElement hnext
        exact ih { next with opened := element :: next.opened } (element :: above)
          (by rw [hsame, hopened]; rfl)
    | emptyTag tag =>
      have hbegin := beginElement_above draft mid hopened tag
      rw [closedTwice, List.foldlM_cons, List.foldlM_cons, advance, advance, hbegin]
      cases hnext : draft.beginElement tag with
      | error problem => rfl
      | ok result =>
        obtain ⟨next, element⟩ := result
        exact ih next above ((opened_of_beginElement hnext).trans hopened)
    | closeTag name =>
      cases above with
      | nil =>
        -- Both tags of the one are what the tag of the other is.
        show Except.map settled (rest.foldlM advance { draft with opened := base }) =
          Except.map settled (rest.foldlM advance { draft with opened := draft.opened.tail })
        rw [hopened]
        rfl
      | cons top above =>
        exact ih { draft with opened := draft.opened.tail } above (by rw [hopened]; rfl)
    | filler kind => exact ih draft above hopened

/-! ### The two ways to write a namespace -/

variable {s t : String} {dotted outer inner : Tag}

/-- Why a namespace may not stand in the innermost open element. -/
def scopeRefusal? : List OpenElement → Option ManifestError
  | [] => some (.unexpectedRoot "namespace")
  | parent :: _ =>
    if parent = .classPart then some (.unknownElement "namespace" .classPart) else none

/-- A namespace is interned in the innermost scope, wherever one may stand. -/
theorem beginElement_scope {tag : Tag} {name : String} (h : IsScopeTag tag name) (draft : Draft) :
    draft.beginElement tag =
      match scopeRefusal? draft.opened with
      | some problem => .error problem
      | none => .ok
          ({ draft with compilation :=
              (draft.compilation.internScope (innermostScope? draft.opened) name).1 },
            .scope (draft.compilation.internScope (innermostScope? draft.opened) name).2) := by
  obtain ⟨htag, hname⟩ := h
  unfold beginElement
  cases hopened : draft.opened with
  | nil =>
    dsimp only
    rw [beginRoot_eq, htag, if_pos (by decide)]
    rfl
  | cons parent rest =>
    dsimp only
    rw [htag, scopeRefusal?]
    by_cases hparent : parent = .classPart
    · rw [if_pos hparent, if_pos hparent]
    · have hscope : "namespace" = Element.namespaceScope.tagName := rfl
      rw [if_neg hparent, if_neg hparent, if_pos hscope, beginScope, hname, hopened]

/-- The dotted namespace and the outer one of the two are both out of place, or else the inner one
is the scope of the dotted one. -/
theorem beginElement_nested (hdotted : IsScopeTag dotted (s ++ "." ++ t)) (houter : IsScopeTag outer s)
    (hinner : IsScopeTag inner t) (draft : Draft) :
    (∃ problem, draft.beginElement dotted = .error problem ∧
        draft.beginElement outer = .error problem) ∨
      ∃ whole half id mid,
        draft.beginElement dotted = .ok ({ draft with compilation := whole }, .scope id) ∧
        draft.beginElement outer = .ok ({ draft with compilation := half }, .scope mid) ∧
        ({ draft with compilation := half, opened := .scope mid :: draft.opened } :
            Draft).beginElement inner =
          .ok ({ draft with compilation := whole, opened := .scope mid :: draft.opened },
            .scope id) := by
  rw [beginElement_scope hdotted, beginElement_scope houter]
  cases scopeRefusal? draft.opened with
  | some problem => exact Or.inl ⟨problem, rfl, rfl⟩
  | none =>
    refine Or.inr ⟨_, _, _, _, rfl, rfl, ?_⟩
    rw [beginElement_scope hinner, Compilation.internScope_append]
    rfl

/-- Behind either way to open the namespace the same events come to the same. -/
theorem foldlM_nested (hdotted : IsScopeTag dotted (s ++ "." ++ t)) (houter : IsScopeTag outer s)
    (hinner : IsScopeTag inner t) (draft : Draft) (rest : List Event) :
    ((Event.openTag outer :: .openTag inner :: closedTwice 0 rest).foldlM advance draft).map
        settled =
      ((Event.openTag dotted :: rest).foldlM advance draft).map settled := by
  rw [List.foldlM_cons, List.foldlM_cons, advance, advance]
  rcases beginElement_nested hdotted houter hinner draft with
    ⟨problem, hwhole, hhalf⟩ | ⟨whole, half, id, mid, hwhole, hhalf, hboth⟩
  · rw [hwhole, hhalf]
    rfl
  · have hsecond : ({ draft with compilation := half, opened := .scope mid :: draft.opened } :
        Draft).advance (.openTag inner) =
          .ok { draft with
            compilation := whole, opened := .scope id :: .scope mid :: draft.opened } := by
      rw [advance, hboth]
      rfl
    rw [hwhole, hhalf]
    show Except.map settled (Except.bind (advance _ (.openTag inner)) _) = _
    rw [hsecond]
    exact foldlM_closedTwice { draft with compilation := whole, opened := .scope id :: draft.opened } mid
      [] rfl rest

/-- The same where the namespace has no content. -/
theorem foldlM_nested_empty (hdotted : IsScopeTag dotted (s ++ "." ++ t))
    (houter : IsScopeTag outer s) (hinner : IsScopeTag inner t) (name : String) (draft : Draft)
    (rest : List Event) :
    (Event.openTag outer :: .emptyTag inner :: .closeTag name :: rest).foldlM advance draft =
      (Event.emptyTag dotted :: rest).foldlM advance draft := by
  rw [List.foldlM_cons, List.foldlM_cons, advance, advance]
  rcases beginElement_nested hdotted houter hinner draft with
    ⟨problem, hwhole, hhalf⟩ | ⟨whole, half, id, mid, hwhole, hhalf, hboth⟩
  · rw [hwhole, hhalf]
    rfl
  · have hsecond : ({ draft with compilation := half, opened := .scope mid :: draft.opened } :
        Draft).advance (.emptyTag inner) =
          .ok { draft with compilation := whole, opened := .scope mid :: draft.opened } := by
      rw [advance, hboth]
      rfl
    rw [hwhole, hhalf]
    show Except.bind (advance _ (.emptyTag inner)) _ = _
    rw [hsecond]
    rfl

end Draft

/-! ### The whole manifest -/

namespace Compilation

/-- Which elements are left open does not matter to what is made of the events. -/
theorem ofReading_congr {events events' : List Event}
    (h : (Draft.ofEvents events').map Draft.settled = (Draft.ofEvents events).map Draft.settled)
    (fault? : Option Fault) : ofReading ⟨events', fault?⟩ = ofReading ⟨events, fault?⟩ := by
  unfold ofReading
  dsimp only
  cases hd : Draft.ofEvents events with
  | error problem =>
    cases hd' : Draft.ofEvents events' with
    | error problem' =>
      rw [hd, hd'] at h
      exact congrArg _ (Except.error.inj h)
    | ok draft' =>
      rw [hd, hd'] at h
      exact absurd h (by simp [Except.map])
  | ok draft =>
    cases hd' : Draft.ofEvents events' with
    | error problem' =>
      rw [hd, hd'] at h
      exact absurd h (by simp [Except.map])
    | ok draft' =>
      rw [hd, hd'] at h
      have hsettled : draft'.settled = draft.settled := Except.ok.inj h
      cases fault? with
      | some fault => rfl
      | none =>
        show draft'.settled.finish = draft.settled.finish
        rw [hsettled]

variable {s t : String}

theorem ofReading_nested {dotted outer inner : Tag} (hdotted : IsScopeTag dotted (s ++ "." ++ t))
    (houter : IsScopeTag outer s) (hinner : IsScopeTag inner t) (front rest : List Event)
    (fault? : Option Fault) :
    ofReading ⟨front ++ .openTag outer :: .openTag inner :: closedTwice 0 rest, fault?⟩ =
      ofReading ⟨front ++ .openTag dotted :: rest, fault?⟩ := by
  apply ofReading_congr
  rw [Draft.ofEvents, Draft.ofEvents, List.foldlM_append, List.foldlM_append]
  cases front.foldlM Draft.advance {} with
  | error problem => rfl
  | ok draft => exact Draft.foldlM_nested hdotted houter hinner draft rest

theorem ofReading_nested_empty {dotted outer inner : Tag}
    (hdotted : IsScopeTag dotted (s ++ "." ++ t)) (houter : IsScopeTag outer s)
    (hinner : IsScopeTag inner t) (front rest : List Event) (name : String)
    (fault? : Option Fault) :
    ofReading ⟨front ++ .openTag outer :: .emptyTag inner :: .closeTag name :: rest, fault?⟩ =
      ofReading ⟨front ++ .emptyTag dotted :: rest, fault?⟩ := by
  apply ofReading_congr
  rw [Draft.ofEvents, Draft.ofEvents, List.foldlM_append, List.foldlM_append]
  cases front.foldlM Draft.advance {} with
  | error problem => rfl
  | ok draft =>
    exact congrArg _ (Draft.foldlM_nested_empty hdotted houter hinner name draft rest)

/-! ### The whole text -/

/-- A text that is the tag which opens a namespace with the given name. -/
def OpensScope (text name : String) : Prop :=
  ∃ tag, Spells text (.openTag tag) ∧ IsScopeTag tag name

/-- A text that is the only tag of a namespace with the given name. -/
def IsEmptyScope (text name : String) : Prop :=
  ∃ tag, Spells text (.emptyTag tag) ∧ IsScopeTag tag name

/-- A text that is the tag which closes a namespace. -/
def ClosesScope (text : String) : Prop :=
  Spells text (.closeTag "namespace")

theorem ofManifest_nested {front outer close dotted inner content : String}
    (hfront : (Reading.ofText front).fault? = none) (houter : OpensScope outer s)
    (hclose : ClosesScope close) (hdotted : OpensScope dotted (s ++ "." ++ t))
    (hinner : OpensScope inner t) (hcontent : IsContent content) (back : String) :
    ofManifest (front ++ outer ++ inner ++ content ++ close ++ close ++ back) =
      ofManifest (front ++ dotted ++ content ++ close ++ back) := by
  obtain ⟨dottedTag, hdotted, hdottedTag⟩ := hdotted
  obtain ⟨outerTag, houter, houterTag⟩ := houter
  obtain ⟨innerTag, hinner, hinnerTag⟩ := hinner
  obtain ⟨rest, fault?, hwhole, hwrapped⟩ := ofText_wrapped hfront hcontent hdotted houter hinner
    hclose (houterTag.1.trans hdottedTag.1.symm) (hinnerTag.1.trans hdottedTag.1.symm) back
  rw [ofManifest, ofManifest, hwhole, hwrapped]
  exact ofReading_nested hdottedTag houterTag hinnerTag _ rest fault?

theorem ofManifest_nested_empty {front outer close dotted inner : String}
    (hfront : (Reading.ofText front).fault? = none) (houter : OpensScope outer s)
    (hclose : ClosesScope close) (hdotted : IsEmptyScope dotted (s ++ "." ++ t))
    (hinner : IsEmptyScope inner t) (back : String) :
    ofManifest (front ++ outer ++ inner ++ close ++ back) = ofManifest (front ++ dotted ++ back) := by
  obtain ⟨dottedTag, hdotted, hdottedTag⟩ := hdotted
  obtain ⟨outerTag, houter, houterTag⟩ := houter
  obtain ⟨innerTag, hinner, hinnerTag⟩ := hinner
  obtain ⟨rest, fault?, hwhole, hwrapped⟩ := ofText_wrapped_empty hfront hdotted houter hinner
    (by rw [houterTag.1]; exact hclose) back
  rw [ofManifest, ofManifest, hwhole, hwrapped]
  exact ofReading_nested_empty hdottedTag houterTag hinnerTag _ rest _ fault?

/-- A namespace named `s.t` and a namespace named `s` that holds nothing but one named `t` come to the
same compilation or the same error, whatever stands in them and around them. -/
theorem nestedScopes_spec (s t : String) :
    (∀ dotted outer inner : Tag, IsScopeTag dotted (s ++ "." ++ t) → IsScopeTag outer s →
      IsScopeTag inner t → ∀ (front rest : List Event) (fault? : Option Fault),
        ofReading ⟨front ++ .openTag outer :: .openTag inner :: closedTwice 0 rest, fault?⟩ =
            ofReading ⟨front ++ .openTag dotted :: rest, fault?⟩ ∧
          ∀ name,
            ofReading ⟨front ++ .openTag outer :: .emptyTag inner :: .closeTag name :: rest, fault?⟩ =
              ofReading ⟨front ++ .emptyTag dotted :: rest, fault?⟩) ∧
      ∀ front outer close back : String, (Reading.ofText front).fault? = none →
        OpensScope outer s → ClosesScope close →
        (∀ dotted inner content, OpensScope dotted (s ++ "." ++ t) → OpensScope inner t →
          IsContent content →
            ofManifest (front ++ outer ++ inner ++ content ++ close ++ close ++ back) =
              ofManifest (front ++ dotted ++ content ++ close ++ back)) ∧
        ∀ dotted inner, IsEmptyScope dotted (s ++ "." ++ t) → IsEmptyScope inner t →
          ofManifest (front ++ outer ++ inner ++ close ++ back) =
            ofManifest (front ++ dotted ++ back) := by
  refine ⟨?_, ?_⟩
  · intro dotted outer inner hdotted houter hinner front rest fault?
    refine ⟨ofReading_nested hdotted houter hinner front rest fault?, ?_⟩
    intro name
    exact ofReading_nested_empty hdotted houter hinner front rest name fault?
  · intro front outer close back hfront houter hclose
    refine ⟨?_, ?_⟩
    · intro dotted inner content hdotted hinner hcontent
      exact ofManifest_nested hfront houter hclose hdotted hinner hcontent back
    · intro dotted inner hdotted hinner
      exact ofManifest_nested_empty hfront houter hclose hdotted hinner back

/-- A class in the namespace `A..B`, and another one that has it for its base. -/
def gappedManifest : String :=
  "<compilation>" ++ "<namespace name=\"A..B\">" ++ "<class name=\"C\"/>" ++ "</namespace>" ++
    "<class name=\"D\" base=\"A..B.C\"/></compilation>"

/-- The same with the namespace `.B` written out in the namespace `A`. -/
def gappedManifestNested : String :=
  "<compilation>" ++ "<namespace name=\"A\">" ++ "<namespace name=\".B\">" ++
    "<class name=\"C\"/>" ++ "</namespace>" ++ "</namespace>" ++
      "<class name=\"D\" base=\"A..B.C\"/></compilation>"

/-- Both come to three scopes, of which the middle one has no name. -/
theorem nestedScopes_spec_gappedManifest :
    ofManifest gappedManifestNested = ofManifest gappedManifest ∧
      (ofManifest gappedManifest).map (·.namespaces) =
        .ok [⟨"A", none⟩, ⟨"", some ⟨0⟩⟩, ⟨"B", some ⟨1⟩⟩] := by
  have hclass : Spells "<class name=\"C\"/>" (.emptyTag ⟨"class", [.ok ⟨"name", "C"⟩]⟩) :=
    ⟨"class name=\"C\"/>".toList, by decide, by decide +kernel⟩
  have hcontent : IsContent "<class name=\"C\"/>" := by
    have hscan := hclass.scan_append []
    rw [List.append_nil, scan] at hscan
    rw [IsContent, hscan]
    exact ⟨rfl, .emptyTag _ .nil⟩
  have hdotted : OpensScope "<namespace name=\"A..B\">" ("A" ++ "." ++ ".B") :=
    ⟨⟨"namespace", [.ok ⟨"name", "A..B"⟩]⟩,
      ⟨"namespace name=\"A..B\">".toList, by decide, by decide +kernel⟩, rfl, by decide⟩
  have houter : OpensScope "<namespace name=\"A\">" "A" :=
    ⟨⟨"namespace", [.ok ⟨"name", "A"⟩]⟩,
      ⟨"namespace name=\"A\">".toList, by decide, by decide +kernel⟩, rfl, by decide⟩
  have hinner : OpensScope "<namespace name=\".B\">" ".B" :=
    ⟨⟨"namespace", [.ok ⟨"name", ".B"⟩]⟩,
      ⟨"namespace name=\".B\">".toList, by decide, by decide +kernel⟩, rfl, by decide⟩
  have hclose : ClosesScope "</namespace>" := ⟨"/namespace>".toList, by decide, by decide +kernel⟩
  have hfront : (Reading.ofText "<compilation>").fault? = none := by decide +kernel
  obtain ⟨-, htexts⟩ := nestedScopes_spec "A" ".B"
  obtain ⟨hwrapped, -⟩ := htexts _ _ _ "<class name=\"D\" base=\"A..B.C\"/></compilation>" hfront
    houter hclose
  exact ⟨hwrapped _ _ _ hdotted hinner hcontent, by decide +kernel⟩

end Compilation

end Companion
