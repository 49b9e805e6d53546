import Companion.Proofs.Markup.Nesting

/-!
# Elements that are wrapped in another one

An element is wrapped in another one by a second open tag in front of its content and a second close
tag where it is closed.  What stands in the element and behind it stays.

* `closedTwice`: the events in an element and behind it, with a second close tag for the element.
* `matchTags_closedTwice`: the close tags fit, or fail to, at the same places.
* `Spells`: a text that is the given piece of markup.
* `ofText_wrapped`: the events of a text in which an element is wrapped.
-/

namespace Companion.Markup

variable {fault? : Option Fault} {events inside : List Event}

/-! ### A second close tag -/

/-- The events in an element and behind it, with a second close tag where the element is closed.
So many elements are open in it. -/
def closedTwice : Nat → List Event → List Event
  | _, [] => []
  | depth, .openTag tag :: rest => .openTag tag :: closedTwice (depth + 1) rest
  | depth, .emptyTag tag :: rest => .emptyTag tag :: closedTwice depth rest
  | depth, .closeTag name :: rest =>
    .closeTag name ::
      match depth with
      | 0 => .closeTag name :: rest
      | outer + 1 => closedTwice outer rest
  | depth, .filler kind :: rest => .filler kind :: closedTwice depth rest

/-- Content that closes all that it opens does not close the element. -/
theorem WellNested.closedTwice_append (h : WellNested inside) (depth : Nat) (more : List Event) :
    closedTwice depth (inside ++ more) = inside ++ closedTwice depth more := by
  induction h generalizing depth more with
  | nil => rfl
  | filler kind after ih => exact congrArg (_ :: ·) (ih depth more)
  | emptyTag tag after ih => exact congrArg (_ :: ·) (ih depth more)
  | element tag within after ihWithin ihAfter =>
    rw [List.cons_append, List.append_assoc, List.cons_append, closedTwice, ihWithin, closedTwice,
      ihAfter, List.cons_append, List.append_assoc, List.cons_append]

/-- The close tags are checked against one more open element of the same name, and they fit, or fail
to, at the same places. -/
theorem matchTags_closedTwice (fault? : Option Fault) (name : String)
    (above opened : List String) (events : List Event) :
    matchTags fault? (above ++ name :: name :: opened) (closedTwice above.length events) =
      ⟨closedTwice above.length (matchTags fault? (above ++ name :: opened) events).events,
        (matchTags fault? (above ++ name :: opened) events).fault?⟩ := by
  induction events generalizing above with
  | nil => rfl
  | cons event rest ih =>
    cases event with
    | openTag tag => exact congrArg (Reading.cons _) (ih (tag.name :: above))
    | emptyTag tag => exact congrArg (Reading.cons _) (ih above)
    | filler kind => exact congrArg (Reading.cons _) (ih above)
    | closeTag found =>
      cases above with
      | nil =>
        show matchTags fault? (name :: name :: opened) (.closeTag found :: .closeTag found :: rest) = _
        rw [List.nil_append, matchTags, matchTags]
        by_cases hname : name = found
        · rw [if_pos hname, if_pos hname]
          rfl
        · rw [if_neg hname, if_neg hname]
          rfl
      | cons innermost above =>
        rw [List.cons_append, List.cons_append, List.length_cons, closedTwice, matchTags, matchTags]
        by_cases hname : innermost = found
        · rw [if_pos hname, if_pos hname, ih]
          rfl
        · rw [if_neg hname, if_neg hname]
          rfl

/-! ### Texts of tags -/

/-- A text that is the given piece of markup and nothing else. -/
def Spells (text : String) (event : Event) : Prop :=
  ∃ cs, text.toList = '<' :: cs ∧ readMarkup cs = .ok (event, [])

/-- A text that can stand in an element: it closes all that it opens. -/
def IsContent (text : String) : Prop :=
  (scan text.toList).fault? = none ∧ WellNested (scan text.toList).events

variable {text : String} {event : Event}

theorem Spells.scan_append (h : Spells text event) (more : List Char) :
    scan (text.toList ++ more) = (scan more).cons event := by
  obtain ⟨cs, htext, hread⟩ := h
  rw [htext, List.cons_append]
  have hmarkup : readEvent '<' (cs ++ more) = .ok (event, more) := readMarkup_continue hread more
  exact scan_of_readEvent hmarkup

/-- Markup belongs to no run of text. -/
theorem Spells.eq_of_follows (h : Spells text event) {tail more : List Char}
    (hf : Follows tail (text.toList ++ more)) : tail = text.toList ++ more := by
  obtain ⟨cs, htext, -⟩ := h
  rw [htext] at hf ⊢
  rcases hf with hf | hf
  · exact hf
  · exact hf

theorem IsContent.scan_append (h : IsContent text) {markup : String} (hm : Spells markup event)
    (more : List Char) :
    scan (text.toList ++ (markup.toList ++ more)) =
      ((scan more).cons event).behind (scan text.toList).events := by
  obtain ⟨tail, htail, hscan⟩ := scan_continue h.1 (markup.toList ++ more)
  rw [hscan, hm.eq_of_follows htail, hm.scan_append]

/-- What follows a text that is read without a fault is read from there, if it is markup. -/
theorem ofText_append_markup {front : String} (hf : (Reading.ofText front).fault? = none)
    (hm : Spells text event) (more : String) :
    Reading.ofText (front ++ (text ++ more)) =
      (matchTags (scan more.toList).fault?
        ((openBehind [] (Reading.ofText front).events).map Tag.name)
          (event :: (scan more.toList).events)).behind (Reading.ofText front).events := by
  have hscan : scan (text ++ more).toList = (scan more.toList).cons event := by
    rw [String.toList_append]
    exact hm.scan_append _
  by_cases hne : front = ""
  · have hmark : withoutMark (text ++ more).toList = (text ++ more).toList := by
      obtain ⟨cs, htext, -⟩ := hm
      rw [String.toList_append, htext]
      rfl
    rw [hne, String.empty_append, Reading.ofText, hmark, hscan, ofText_empty]
    rfl
  · obtain ⟨tail, htail, hread⟩ := ofText_append hne hf (text ++ more)
    rw [String.toList_append] at htail
    rw [hread, hm.eq_of_follows htail, ← String.toList_append, hscan]
    rfl

/-! ### A text with an element that is wrapped -/

variable {front opening outer inner content close : String} {tag outerTag innerTag : Tag}

/-- Wrapping an element in another one of the same name adds the two tags to the events, and nothing
else changes. -/
theorem ofText_wrapped (hf : (Reading.ofText front).fault? = none) (hc : IsContent content)
    (hopening : Spells opening (.openTag tag)) (houter : Spells outer (.openTag outerTag))
    (hinner : Spells inner (.openTag innerTag)) {name : String} (hclose : Spells close (.closeTag name))
    (houterName : outerTag.name = tag.name) (hinnerName : innerTag.name = tag.name)
    (back : String) :
    ∃ rest fault?,
      Reading.ofText (front ++ opening ++ content ++ close ++ back) =
          ⟨(Reading.ofText front).events ++ .openTag tag :: rest, fault?⟩ ∧
        Reading.ofText (front ++ outer ++ inner ++ content ++ close ++ close ++ back) =
          ⟨(Reading.ofText front).events ++
            .openTag outerTag :: .openTag innerTag :: closedTwice 0 rest, fault?⟩ := by
  let around := (openBehind [] (Reading.ofText front).events).map Tag.name
  let within := (scan content.toList).events ++ .closeTag name :: (scan back.toList).events
  let rest := matchTags (scan back.toList).fault? (tag.name :: around) within
  refine ⟨rest.events, rest.fault?, ?_, ?_⟩
  · have hscan : scan (content ++ (close ++ back)).toList =
        ⟨within, (scan back.toList).fault?⟩ := by
      rw [String.toList_append, String.toList_append, hc.scan_append hclose]
      rfl
    have hread := ofText_append_markup hf hopening (content ++ (close ++ back))
    rw [hscan] at hread
    rw [String.append_assoc, String.append_assoc, String.append_assoc, hread]
    rfl
  · have hscan : scan (inner ++ (content ++ (close ++ (close ++ back)))).toList =
        ⟨.openTag innerTag :: closedTwice 0 within, (scan back.toList).fault?⟩ := by
      rw [String.toList_append, hinner.scan_append, String.toList_append, String.toList_append,
        hc.scan_append hclose, String.toList_append, hclose.scan_append,
        hc.2.closedTwice_append 0 _]
      rfl
    have hread := ofText_append_markup hf houter (inner ++ (content ++ (close ++ (close ++ back))))
    have htwice := matchTags_closedTwice (scan back.toList).fault? tag.name [] around within
    rw [hscan] at hread
    rw [String.append_assoc, String.append_assoc, String.append_assoc, String.append_assoc,
      String.append_assoc, hread]
    show ((((matchTags (scan back.toList).fault? (innerTag.name :: outerTag.name :: around)
      (closedTwice 0 within)).cons _).cons _).behind _) = _
    rw [houterName, hinnerName]
    rw [List.nil_append, List.length_nil] at htwice
    rw [htwice]
    rfl

/-- The same of an element without content, which is wrapped as it is. -/
theorem ofText_wrapped_empty {empty innerEmpty : String}
    (hf : (Reading.ofText front).fault? = none) (hempty : Spells empty (.emptyTag tag))
    (houter : Spells outer (.openTag outerTag)) (hinner : Spells innerEmpty (.emptyTag innerTag))
    (hclose : Spells close (.closeTag outerTag.name)) (back : String) :
    ∃ rest fault?,
      Reading.ofText (front ++ empty ++ back) =
          ⟨(Reading.ofText front).events ++ .emptyTag tag :: rest, fault?⟩ ∧
        Reading.ofText (front ++ outer ++ innerEmpty ++ close ++ back) =
          ⟨(Reading.ofText front).events ++
            .openTag outerTag :: .emptyTag innerTag :: .closeTag outerTag.name :: rest, fault?⟩ := by
  let around := (openBehind [] (Reading.ofText front).events).map Tag.name
  let rest := matchTags (scan back.toList).fault? around (scan back.toList).events
  refine ⟨rest.events, rest.fault?, ?_, ?_⟩
  · rw [String.append_assoc, ofText_append_markup hf hempty]
    rfl
  · have hscan : scan (innerEmpty ++ (close ++ back)).toList =
        ⟨.emptyTag innerTag :: .closeTag outerTag.name :: (scan back.toList).events,
          (scan back.toList).fault?⟩ := by
      rw [String.toList_append, hinner.scan_append, String.toList_append, hclose.scan_append]
      rfl
    have hread := ofText_append_markup hf houter (innerEmpty ++ (close ++ back))
    rw [hscan, matchTags, matchTags, matchTags, if_pos rfl] at hread
    · rw [String.append_assoc, String.append_assoc, String.append_assoc, hread]
      rfl
    all_goals exact fun _ he => absurd he (by simp)

end Companion.Markup
