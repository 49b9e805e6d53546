import Companion.Proofs.Markup.Continuation

/-!
# Elements that are left open

Close tags are checked as they come, and that is all.  So the events of a text without a fault are
those of a well nested text up to close tags that are missing at its end.

* `openBehind`: the tags of the elements that are open behind events.
* `WellNested`: each element that is opened is closed under its name.
* `WellNested.matchTags_append`: the close tags of well nested events fit.
* `wellNested_iff`: events whose close tags fit are well nested exactly if they leave nothing open.
* `closing`: the close tags that are missing at the end of a text.
* `ofText_append`: a text without a fault may go on.
* `ofText_append_closing`: with the missing close tags it is well nested.
-/

namespace Companion.Markup

variable {fault? : Option Fault} {opened : List String} {around : List Tag} {events : List Event}

/-! ### Open elements -/

/-- The tags of the elements that are open behind events, innermost first, where `around` are open in
front of them. -/
def openBehind (around : List Tag) : List Event → List Tag
  | [] => around
  | .openTag tag :: rest => openBehind (tag :: around) rest
  | .emptyTag _ :: rest => openBehind around rest
  | .closeTag _ :: rest => openBehind around.tail rest
  | .filler _ :: rest => openBehind around rest

theorem openBehind_append (around : List Tag) (events more : List Event) :
    openBehind around (events ++ more) = openBehind (openBehind around events) more := by
  induction events generalizing around with
  | nil => rfl
  | cons event rest ih =>
    cases event with
    | openTag tag => exact ih _
    | emptyTag tag => exact ih _
    | closeTag name => exact ih _
    | filler kind => exact ih _

/-- The close tags of open elements. -/
def closers (around : List Tag) : List Event :=
  around.map (.closeTag ·.name)

theorem openBehind_closers (around : List Tag) : openBehind around (closers around) = [] := by
  induction around with
  | nil => rfl
  | cons tag outer ih => exact ih

/-! ### Close tags that fit -/

theorem matchTags_eq (h : (matchTags fault? opened events).fault? = none) :
    fault? = none ∧ (matchTags fault? opened events).events = events := by
  induction events generalizing opened with
  | nil => exact ⟨h, rfl⟩
  | cons event rest ih =>
    have hcons : ∀ opened', matchTags fault? opened (event :: rest) =
        (matchTags fault? opened' rest).cons event →
        fault? = none ∧ (matchTags fault? opened (event :: rest)).events = event :: rest := by
      intro opened' hstep
      rw [hstep] at h ⊢
      obtain ⟨hfault, hevents⟩ := ih h
      exact ⟨hfault, congrArg (event :: ·) hevents⟩
    cases event with
    | openTag tag => exact hcons _ rfl
    | emptyTag tag => exact hcons _ rfl
    | filler kind => exact hcons _ rfl
    | closeTag name =>
      cases opened with
      | nil => exact absurd h (by simp [matchTags])
      | cons innermost outer =>
        by_cases hname : innermost = name
        · exact hcons outer (by rw [matchTags, if_pos hname])
        · exact absurd h (by simp [matchTags, hname])

/-- Behind close tags that fit, further ones are checked against what is open then. -/
theorem matchTags_append (around : List Tag)
    (h : (matchTags none (around.map Tag.name) events).fault? = none) (fault? : Option Fault)
    (more : List Event) :
    matchTags fault? (around.map Tag.name) (events ++ more) =
      (matchTags fault? ((openBehind around events).map Tag.name) more).behind events := by
  induction events generalizing around with
  | nil => rfl
  | cons event rest ih =>
    cases event with
    | openTag tag => exact congrArg (Reading.cons _) (ih (tag :: around) h)
    | emptyTag tag => exact congrArg (Reading.cons _) (ih around h)
    | filler kind => exact congrArg (Reading.cons _) (ih around h)
    | closeTag name =>
      cases around with
      | nil => exact absurd h (by simp [matchTags])
      | cons tag outer =>
        by_cases hname : tag.name = name
        · rw [List.map_cons, matchTags, if_pos hname] at h
          rw [List.map_cons, List.cons_append, matchTags, if_pos hname]
          exact congrArg (Reading.cons _) (ih outer h)
        · exact absurd h (by simp [matchTags, hname])

theorem matchTags_closers (around : List Tag) :
    matchTags none (around.map Tag.name) (closers around) = ⟨closers around, none⟩ := by
  induction around with
  | nil => rfl
  | cons tag outer ih =>
    rw [closers, List.map_cons, List.map_cons, matchTags, if_pos rfl]
    exact congrArg (Reading.cons _) ih

/-! ### Well nested events -/

/-- Events that close all that they open, each element under its name. -/
inductive WellNested : List Event → Prop
  | nil : WellNested []
  | filler (kind : Filler) {rest : List Event} (after : WellNested rest) :
      WellNested (.filler kind :: rest)
  | emptyTag (tag : Tag) {rest : List Event} (after : WellNested rest) :
      WellNested (.emptyTag tag :: rest)
  | element (tag : Tag) {inside rest : List Event} (within : WellNested inside)
      (after : WellNested rest) :
      WellNested (.openTag tag :: (inside ++ .closeTag tag.name :: rest))

theorem WellNested.openBehind_append (h : WellNested events) (around : List Tag)
    (more : List Event) : openBehind around (events ++ more) = openBehind around more := by
  induction h generalizing around more with
  | nil => rfl
  | filler kind after ih => exact ih around more
  | emptyTag tag after ih => exact ih around more
  | element tag within after ihWithin ihAfter =>
    rw [List.cons_append, List.append_assoc, List.cons_append, openBehind, ihWithin, openBehind,
      List.tail_cons, ihAfter]

theorem WellNested.append {more : List Event} (h : WellNested events)
    (hmore : WellNested more) : WellNested (events ++ more) := by
  induction h with
  | nil => exact hmore
  | filler kind after ih => exact .filler kind ih
  | emptyTag tag after ih => exact .emptyTag tag ih
  | element tag within after ihWithin ihAfter =>
    rw [List.cons_append, List.append_assoc, List.cons_append]
    exact .element tag within ihAfter

/-- The close tags of well nested events fit, and further ones are checked as if these events were not
there. -/
theorem WellNested.matchTags_append (h : WellNested events)
    (fault? : Option Fault) (opened : List String) (more : List Event) :
    matchTags fault? opened (events ++ more) = (matchTags fault? opened more).behind events := by
  induction h generalizing opened more with
  | nil => rfl
  | filler kind after ih => exact congrArg (Reading.cons _) (ih opened more)
  | emptyTag tag after ih => exact congrArg (Reading.cons _) (ih opened more)
  | element tag within after ihWithin ihAfter =>
    rw [List.cons_append, List.append_assoc, List.cons_append, matchTags, ihWithin, matchTags,
      if_pos rfl, ihAfter]
    simp [Reading.cons, Reading.behind]

/-- Events that close the elements open in front of them, with well nested events between. -/
inductive Closes : List String → List Event → Prop
  | nil {last : List Event} (nested : WellNested last) : Closes [] last
  | cons (name : String) {inside rest : List Event} {outer : List String}
      (nested : WellNested inside) (after : Closes outer rest) :
      Closes (name :: outer) (inside ++ .closeTag name :: rest)

theorem Closes.behind (h : Closes opened events) (front : List Event)
    (hf : ∀ inside, WellNested inside → WellNested (front ++ inside)) :
    Closes opened (front ++ events) := by
  cases h with
  | nil nested => exact .nil (hf _ nested)
  | cons name nested after =>
    rw [← List.append_assoc]
    exact .cons name (hf _ nested) after

/-- Events whose close tags fit, and which leave nothing open, close what is open in front of
them. -/
theorem closes_of_matchTags (around : List Tag)
    (h : (matchTags none (around.map Tag.name) events).fault? = none)
    (ho : openBehind around events = []) : Closes (around.map Tag.name) events := by
  induction events generalizing around with
  | nil =>
    obtain rfl : around = [] := ho
    exact .nil .nil
  | cons event rest ih =>
    cases event with
    | openTag tag =>
      -- The first close tag that the rest leaves to its outside is that of this element.
      have hrest : Closes (tag.name :: around.map Tag.name) rest := ih (tag :: around) h ho
      generalize hopened : tag.name :: around.map Tag.name = opened at hrest
      cases hrest with
      | nil nested => exact absurd hopened (by simp)
      | cons name nested after =>
        obtain ⟨rfl, rfl⟩ := List.cons.inj hopened
        have hbehind := after.behind (.openTag tag :: (_ ++ [.closeTag tag.name]))
          fun inside hinside => by
            rw [List.cons_append, List.append_assoc]
            exact .element tag nested hinside
        rwa [List.cons_append, List.append_assoc] at hbehind
    | emptyTag tag => exact (ih around h ho).behind [_] fun _ hinside => .emptyTag tag hinside
    | filler kind => exact (ih around h ho).behind [_] fun _ hinside => .filler kind hinside
    | closeTag name =>
      cases around with
      | nil => exact absurd h (by simp [matchTags])
      | cons tag outer =>
        by_cases hname : tag.name = name
        · rw [List.map_cons, matchTags, if_pos hname] at h
          subst hname
          exact .cons tag.name .nil (ih outer h ho)
        · exact absurd h (by simp [matchTags, hname])

/-- Events whose close tags fit are well nested exactly if they leave nothing open. -/
theorem wellNested_iff (h : (matchTags none [] events).fault? = none) :
    WellNested events ↔ openBehind [] events = [] := by
  constructor
  · intro hnested
    have hopen := hnested.openBehind_append [] []
    rwa [List.append_nil] at hopen
  · intro hopen
    have hcloses := closes_of_matchTags [] h hopen
    cases hcloses with
    | nil nested => exact nested

/-! ### Close tags in a text -/

/-- A name that a close tag can hold as it is. -/
def IsPlain (name : String) : Prop :=
  ∀ c ∈ name.toList, c ≠ '>' ∧ Quote.of? c = none ∧ isSpace c = false

/-- The close tags of the given names. -/
def closeTags : List String → List Char
  | [] => []
  | name :: outer => '<' :: '/' :: (name.toList ++ '>' :: closeTags outer)

theorem splitTag_plain {content : List Char}
    (h : ∀ c ∈ content, c ≠ '>' ∧ Quote.of? c = none) (rest : List Char) :
    splitTag none (content ++ '>' :: rest) = .ok (content, rest) :=
  (passes_plain h).splitTag_eq rest

theorem trimEnd_plain {content : List Char} (h : ∀ c ∈ content, isSpace c = false) :
    trimEnd content = content := by
  have hkept : content.reverse.dropWhile isSpace = content.reverse := by
    rw [List.dropWhile_eq_self_iff]
    intro hpos
    rw [h _ (List.mem_reverse.mp (List.getElem_mem hpos))]
    exact Bool.false_ne_true
  unfold trimEnd
  rw [hkept]
  split
  · rfl
  · rw [List.reverse_reverse]

theorem readCloseTag_plain {name : String} (h : IsPlain name) (rest : List Char) :
    readCloseTag (name.toList ++ '>' :: rest) = .ok (.closeTag name, rest) := by
  rw [readCloseTag, splitTag_plain fun c hc => ⟨(h c hc).1, (h c hc).2.1⟩]
  dsimp only
  rw [trimEnd_plain fun c hc => (h c hc).2.2, String.ofList_toList]

theorem scan_closeTag {name : String} (h : IsPlain name) (more : List Char) :
    scan ('<' :: '/' :: (name.toList ++ '>' :: more)) = (scan more).cons (.closeTag name) := by
  have hread : readEvent '<' ('/' :: (name.toList ++ '>' :: more)) = .ok (.closeTag name, more) :=
    readCloseTag_plain h more
  exact scan_of_readEvent hread

theorem scan_closeTags {names : List String} (h : ∀ name ∈ names, IsPlain name) :
    scan (closeTags names) = ⟨names.map .closeTag, none⟩ := by
  induction names with
  | nil => rw [closeTags, scan, List.map_nil]
  | cons name outer ih =>
    rw [List.forall_mem_cons] at h
    rw [closeTags, scan_closeTag h.1, ih h.2]
    rfl

/-- Close tags belong to no run of text. -/
theorem eq_closeTags_of_follows {names : List String} {tail : List Char}
    (h : Follows tail (closeTags names)) : tail = closeTags names := by
  rcases h with h | h
  · exact h
  · rw [h]
    cases names with
    | nil => rfl
    | cons name outer => rfl

/-! ### The whole text -/

theorem withoutMark_append {cs : List Char} (h : cs ≠ []) (more : List Char) :
    withoutMark (cs ++ more) = withoutMark cs ++ more := by
  unfold withoutMark
  cases cs with
  | nil => exact absurd rfl h
  | cons c cs =>
    rw [List.cons_append]
    split
    · next heq =>
      obtain ⟨rfl, rfl⟩ := List.cons.inj heq
      rfl
    · next hne =>
      split
      · next heq =>
        obtain ⟨rfl, rfl⟩ := List.cons.inj heq
        exact absurd rfl (hne _)
      · rfl

variable {text : String}

theorem ofText_empty : Reading.ofText "" = ⟨[], none⟩ := by
  simp [Reading.ofText, withoutMark, scan, matchTags]

/-- The close tags of a text that is read without a fault fit. -/
theorem ofText_matched (h : (Reading.ofText text).fault? = none) :
    (scan (withoutMark text.toList)).fault? = none ∧
      (Reading.ofText text).events = (scan (withoutMark text.toList)).events ∧
        (matchTags none [] (Reading.ofText text).events).fault? = none := by
  obtain ⟨hscan, hevents⟩ := matchTags_eq h
  refine ⟨hscan, hevents, ?_⟩
  change (Reading.ofText text).events = _ at hevents
  rw [hevents]
  rw [Reading.ofText, hscan] at h
  exact h

/-- A text without a fault may go on, and its events stay. -/
theorem ofText_append (hne : text ≠ "") (h : (Reading.ofText text).fault? = none) (more : String) :
    ∃ tail, Follows tail more.toList ∧
      Reading.ofText (text ++ more) =
        (matchTags (scan tail).fault?
          ((openBehind [] (Reading.ofText text).events).map Tag.name) (scan tail).events).behind
            (Reading.ofText text).events := by
  obtain ⟨hfault, hevents, hmatched⟩ := ofText_matched h
  obtain ⟨tail, htail, hscan⟩ := scan_continue hfault more.toList
  refine ⟨tail, htail, ?_⟩
  have hchars : text.toList ≠ [] := by simpa using hne
  rw [← hevents] at hscan
  rw [← matchTags_append [] hmatched, Reading.ofText, String.toList_append,
    withoutMark_append hchars, hscan]
  rfl

theorem events_ofText_append (h : (Reading.ofText text).fault? = none) (more : String) :
    (Reading.ofText text).events <+: (Reading.ofText (text ++ more)).events := by
  by_cases hne : text = ""
  · rw [hne, ofText_empty]
    exact List.nil_prefix
  · obtain ⟨tail, -, hread⟩ := ofText_append hne h more
    rw [hread]
    exact List.prefix_append _ _

/-- The close tags that are missing at the end of a text. -/
def closing (text : String) : String :=
  String.ofList (closeTags ((openBehind [] (Reading.ofText text).events).map Tag.name))

/-- With the missing close tags a text without a fault is well nested. -/
theorem ofText_append_closing (hne : text ≠ "") (h : (Reading.ofText text).fault? = none)
    (hplain : ∀ tag ∈ openBehind [] (Reading.ofText text).events, IsPlain tag.name) :
    Reading.ofText (text ++ closing text) =
        ⟨(Reading.ofText text).events ++ closers (openBehind [] (Reading.ofText text).events),
          none⟩ ∧
      WellNested
        ((Reading.ofText text).events ++ closers (openBehind [] (Reading.ofText text).events)) := by
  obtain ⟨-, -, hmatched⟩ := ofText_matched h
  constructor
  · obtain ⟨tail, htail, hread⟩ := ofText_append hne h (closing text)
    rw [closing, String.toList_ofList] at htail
    have hnames : ∀ name ∈ (openBehind [] (Reading.ofText text).events).map Tag.name,
        IsPlain name := by
      intro name hname
      obtain ⟨tag, htag, rfl⟩ := List.mem_map.mp hname
      exact hplain tag htag
    rw [hread, eq_closeTags_of_follows htail, scan_closeTags hnames, List.map_map]
    dsimp only
    exact congrArg _ (matchTags_closers _)
  · have hfits := matchTags_append [] hmatched none
      (closers (openBehind [] (Reading.ofText text).events))
    rw [matchTags_closers] at hfits
    rw [wellNested_iff, openBehind_append, openBehind_closers]
    rw [List.map_nil] at hfits
    rw [hfits]
    rfl

end Companion.Markup
