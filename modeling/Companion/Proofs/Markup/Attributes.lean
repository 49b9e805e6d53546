import Companion.Markup.Reader

/-!
# Attributes that are passed over

What stands in the place of an attribute is passed over, and so are attributes with a key that the
tag has had before.

* `nodup_keys_attributesFrom`: no key is left twice.
* `nodup_keys_of_ofText`: nor is one in any tag of a text.
* `Tag.cleaned`, `Event.cleaned`, `Reading.cleaned`: what is left if only attributes stay.
* `cleaned_eq_iff`: nothing goes exactly if all tags are well formed.
-/

namespace Companion.Markup

/-! ### Keys -/

theorem key_of_readValue {key cs : List Char} {given : Attribute}
    (h : (readValue key cs).1 = .ok given) : given.key.toList = key := by
  unfold readValue at h
  dsimp only at h
  split at h
  · exact absurd h (by simp)
  · split at h
    · exact absurd h (by simp)
    · split at h
      · exact absurd h (by simp)
      · obtain rfl := Except.ok.inj h
        exact String.toList_ofList

/-- An attribute has a key that has not come before and is noted from then on. -/
theorem readAttribute_spec (keys : List (List Char)) (c : Char) (cs : List Char) :
    keys ⊆ (readAttribute keys c cs).2.1 ∧
      ∀ given, (readAttribute keys c cs).1 = .ok given →
        given.key.toList ∉ keys ∧ given.key.toList ∈ (readAttribute keys c cs).2.1 := by
  unfold readAttribute
  dsimp only
  split
  · simp
  · next next rest _ =>
    by_cases hequals : next = '='
    · rw [if_neg (by simp [hequals])]
      by_cases hkey : c :: cs.takeWhile isKeyChar ∈ keys
      · rw [if_pos hkey]
        simp
      · rw [if_neg hkey]
        refine ⟨List.subset_cons_self _ _, ?_⟩
        intro given hgiven
        rw [key_of_readValue hgiven]
        exact ⟨hkey, List.mem_cons_self⟩
    · rw [if_pos hequals]
      simp

/-- No key is left twice, and none that has come before. -/
theorem nodup_keys_attributesFrom (keys : List (List Char)) (cs : List Char) :
    (∀ given ∈ (attributesFrom keys cs).filterMap Except.toOption, given.key.toList ∉ keys) ∧
      (((attributesFrom keys cs).filterMap Except.toOption).map Attribute.key).Nodup := by
  fun_induction attributesFrom keys cs with
  | case1 => simp
  | case2 keys cs c rest _ ih =>
    obtain ⟨hkeep, hnew⟩ := readAttribute_spec keys c rest
    obtain ⟨hlater, hnodup⟩ := ih
    have hold : ∀ given ∈ (attributesFrom (readAttribute keys c rest).2.1
        (readAttribute keys c rest).2.2).filterMap Except.toOption, given.key.toList ∉ keys :=
      fun given hgiven hin => hlater given hgiven (hkeep hin)
    cases hitem : (readAttribute keys c rest).1 with
    | error fault =>
      rw [List.filterMap_cons_none (by rfl)]
      exact ⟨hold, hnodup⟩
    | ok given =>
      obtain ⟨hfresh, hnoted⟩ := hnew given hitem
      rw [List.filterMap_cons_some (by rfl), List.map_cons, List.nodup_cons]
      refine ⟨List.forall_mem_cons.mpr ⟨hfresh, hold⟩, ?_, hnodup⟩
      intro hin
      obtain ⟨later, hmem, hkey⟩ := List.mem_map.mp hin
      exact hlater later hmem (by rwa [hkey])

/-! ### Tags of a text -/

/-- The tag of an event that begins an element. -/
def Event.tag? : Event → Option Tag
  | .openTag tag => some tag
  | .emptyTag tag => some tag
  | .closeTag _ => none
  | .filler _ => none

/-- The tag of an event, if it has one, is that of some text. -/
def Event.IsRead (event : Event) : Prop :=
  ∀ tag ∈ event.tag?, ∃ content, tag = tagOf content

theorem isRead_filler {kind : Filler} {missing : Fault} {found : Option (List Char)}
    {event : Event} {rest : List Char} (h : Step.filler kind missing found = .ok (event, rest)) :
    event.IsRead := by
  cases found with
  | none => exact absurd h (by simp [Step.filler])
  | some r =>
    simp only [Step.filler, Except.ok.injEq, Prod.mk.injEq] at h
    obtain ⟨rfl, -⟩ := h
    simp [Event.IsRead, Event.tag?]

theorem isRead_openingEvent (content : List Char) : (openingEvent content).IsRead := by
  unfold openingEvent
  intro tag htag
  split at htag
  · exact ⟨_, (Option.some.inj htag).symm⟩
  · exact ⟨_, (Option.some.inj htag).symm⟩

theorem isRead_of_readBang {cs rest : List Char} {event : Event}
    (h : readBang cs = .ok (event, rest)) : event.IsRead := by
  have hdocument : readDocumentType cs = .ok (event, rest) → event.IsRead := by
    intro h
    unfold readDocumentType at h
    dsimp only at h
    split at h
    · exact absurd h (by simp)
    · split at h
      · exact absurd h (by simp)
      · exact isRead_filler h
  unfold readBang at h
  split at h
  · exact isRead_filler h
  · exact isRead_filler h
  · exact hdocument h
  · exact hdocument h
  · exact absurd h (by simp)

theorem isRead_of_readMarkup {cs rest : List Char} {event : Event}
    (h : readMarkup cs = .ok (event, rest)) : event.IsRead := by
  unfold readMarkup at h
  split at h
  · exact absurd h (by simp)
  · exact isRead_of_readBang h
  · unfold readInstruction at h
    dsimp only at h
    split at h
    · exact absurd h (by simp)
    · exact isRead_filler h
  · unfold readCloseTag at h
    split at h
    · exact absurd h (by simp)
    · obtain ⟨rfl, -⟩ := Prod.mk.inj (Except.ok.inj h)
      simp [Event.IsRead, Event.tag?]
  · unfold readOpenTag at h
    split at h
    · exact absurd h (by simp)
    · obtain ⟨rfl, -⟩ := Prod.mk.inj (Except.ok.inj h)
      exact isRead_openingEvent _

theorem isRead_of_readEvent {c : Char} {cs rest : List Char} {event : Event}
    (h : readEvent c cs = .ok (event, rest)) : event.IsRead := by
  unfold readEvent at h
  split at h
  · exact isRead_of_readMarkup h
  · split at h
    · unfold readReference at h
      split at h
      · obtain ⟨rfl, -⟩ := Prod.mk.inj (Except.ok.inj h)
        simp [Event.IsRead, Event.tag?]
      · exact absurd h (by simp)
    · obtain ⟨rfl, -⟩ := Prod.mk.inj (Except.ok.inj h)
      simp [Event.IsRead, Event.tag?]

theorem isRead_of_scan (cs : List Char) : ∀ event ∈ (scan cs).events, event.IsRead := by
  fun_induction scan cs with
  | case1 => simp
  | case2 => simp
  | case3 c cs event rest hok ih => exact List.forall_mem_cons.mpr ⟨isRead_of_readEvent hok, ih⟩

theorem prefix_events_matchTags (fault? : Option Fault) (opened : List String)
    (events : List Event) : (matchTags fault? opened events).events <+: events := by
  induction events generalizing opened with
  | nil => exact List.nil_prefix
  | cons event rest ih =>
    cases event with
    | openTag tag => exact List.prefix_cons_inj _ |>.mpr (ih _)
    | emptyTag tag => exact List.prefix_cons_inj _ |>.mpr (ih _)
    | filler kind => exact List.prefix_cons_inj _ |>.mpr (ih _)
    | closeTag name =>
      cases opened with
      | nil => exact List.nil_prefix
      | cons innermost outer =>
        rw [matchTags]
        split
        · exact List.prefix_cons_inj _ |>.mpr (ih _)
        · exact List.nil_prefix

/-- No tag of a text is left with a key twice. -/
theorem nodup_keys_of_ofText (text : String) :
    ∀ event ∈ (Reading.ofText text).events, ∀ tag ∈ event.tag?,
      (tag.attributes.map Attribute.key).Nodup := by
  intro event hevent tag htag
  have hscanned := (prefix_events_matchTags _ _ _).subset hevent
  obtain ⟨content, rfl⟩ := isRead_of_scan _ event hscanned tag htag
  exact (nodup_keys_attributesFrom [] _).2

/-! ### What is left -/

namespace Tag

/-- The tag with its attributes alone. -/
def cleaned (tag : Tag) : Tag :=
  { tag with items := tag.attributes.map .ok }

@[simp] theorem name_cleaned (tag : Tag) : tag.cleaned.name = tag.name := rfl

@[simp] theorem attributes_cleaned (tag : Tag) : tag.cleaned.attributes = tag.attributes := by
  show (tag.attributes.map Except.ok).filterMap Except.toOption = tag.attributes
  rw [List.filterMap_map]
  exact List.filterMap_some

theorem isWellFormed_cleaned (tag : Tag) : tag.cleaned.isWellFormed = true := by
  show (tag.attributes.map Except.ok).all Except.isOk = true
  rw [List.all_map, List.all_eq_true]
  exact fun _ _ => rfl

theorem map_ok_filterMap_toOption {items : List AttributeItem}
    (h : items.all Except.isOk = true) :
    (items.filterMap Except.toOption).map Except.ok = items := by
  induction items with
  | nil => rfl
  | cons item rest ih =>
    rw [List.all_cons, Bool.and_eq_true] at h
    cases item with
    | error fault => exact absurd h.1 (by simp [Except.isOk, Except.toBool])
    | ok given => exact congrArg (_ :: ·) (ih h.2)

/-- Nothing goes exactly if the tag is well formed. -/
theorem cleaned_eq_iff (tag : Tag) : tag.cleaned = tag ↔ tag.isWellFormed = true := by
  constructor
  · intro h
    rw [← h]
    exact tag.isWellFormed_cleaned
  · intro h
    rw [cleaned, attributes, map_ok_filterMap_toOption h]

end Tag

namespace Event

/-- The event with nothing but attributes in its tag. -/
def cleaned : Event → Event
  | .openTag tag => .openTag tag.cleaned
  | .emptyTag tag => .emptyTag tag.cleaned
  | .closeTag name => .closeTag name
  | .filler kind => .filler kind

theorem tag?_cleaned (event : Event) : event.cleaned.tag? = event.tag?.map Tag.cleaned := by
  cases event with
  | openTag tag => rfl
  | emptyTag tag => rfl
  | closeTag name => rfl
  | filler kind => rfl

theorem cleaned_eq_iff (event : Event) :
    event.cleaned = event ↔ ∀ tag ∈ event.tag?, tag.isWellFormed = true := by
  cases event with
  | openTag tag => simp [cleaned, tag?, Tag.cleaned_eq_iff]
  | emptyTag tag => simp [cleaned, tag?, Tag.cleaned_eq_iff]
  | closeTag name => simp [cleaned, tag?]
  | filler kind => simp [cleaned, tag?]

end Event

namespace Reading

/-- The reading with nothing but attributes in its tags. -/
def cleaned (reading : Reading) : Reading :=
  { reading with events := reading.events.map Event.cleaned }

theorem cleaned_eq_iff (reading : Reading) :
    reading.cleaned = reading ↔
      ∀ tag ∈ reading.events.filterMap Event.tag?, tag.isWellFormed = true := by
  have hevents : reading.cleaned = reading ↔
      reading.events.map Event.cleaned = reading.events.map id := by
    obtain ⟨events, fault?⟩ := reading
    simp [cleaned]
  rw [hevents, List.map_inj_left]
  simp only [id, Event.cleaned_eq_iff, List.mem_filterMap]
  constructor
  · intro h tag hall
    obtain ⟨event, hevent, htag⟩ := hall
    exact h event hevent tag htag
  · intro h event hevent tag htag
    exact h tag ⟨event, hevent, htag⟩

end Reading

end Companion.Markup
