import Companion.Proofs.Collections.Results
import Companion.Proofs.Manifest.FilledIn
import Companion.Proofs.Manifest.Lenience

/-!
# Manifests without bases

The bases of the classes come last.  A manifest in which no class names a base is read to the same
draft, up to the bases that are noted, and linking adds to what the draft holds and fills in bases
there.

* `Reading.withoutBases`: a reading from which all attributes that name a base are taken out.
* `Draft.advance_withoutBase`: an event is taken in without its base, and leaves all but the noted
  bases the same.
* `Draft.Reads.basesAdded`: linking fills bases in and adds types that are only referred to.
* `Compilation.withoutBases_spec`: what an accepted manifest comes to without its bases, and what the
  bases add to that.
-/

namespace Companion

open Markup

/-! ### Taking bases out -/

namespace Markup

/-- The tag without the attributes that name a base. -/
def Tag.withoutBase (tag : Tag) : Tag :=
  { tag with items := tag.items.filter fun item => item.toOption.all (·.key ≠ "base") }

/-- The event without the attributes that name a base. -/
def Event.withoutBase : Event → Event
  | .openTag tag => .openTag tag.withoutBase
  | .emptyTag tag => .emptyTag tag.withoutBase
  | .closeTag name => .closeTag name
  | .filler kind => .filler kind

/-- The reading without the attributes that name a base. -/
def Reading.withoutBases (reading : Reading) : Reading :=
  { reading with events := reading.events.map Event.withoutBase }

theorem Tag.name_withoutBase (tag : Tag) : tag.withoutBase.name = tag.name := rfl

theorem Tag.attributes_withoutBase (tag : Tag) :
    tag.withoutBase.attributes = tag.attributes.filter (·.key ≠ "base") := by
  rw [withoutBase, attributes, attributes, List.filterMap_filter, List.filter_filterMap]
  congr 1
  funext item
  cases item with
  | error fault => rfl
  | ok given => rfl

end Markup

theorem nameAttribute?_withoutBase (tag : Tag) :
    nameAttribute? tag.withoutBase = nameAttribute? tag := by
  rw [nameAttribute?, Tag.attributes_withoutBase, List.find?_filter, nameAttribute?]
  congr 2
  funext given
  by_cases hname : given.key = "name"
  · simp [hname]
  · simp [hname]

/-! ### The attributes of a class -/

namespace ClassAttributes

/-- What attributes say, without a base. -/
def baseless (found : ClassAttributes) : ClassAttributes := { found with base := none }

theorem add_base (found : ClassAttributes) {given : Attribute} (hkey : given.key = "base") :
    (add found given).map baseless = .ok found.baseless := by
  rw [add, hkey]
  rfl

/-- Each other attribute is taken in, or refused, whether there is a base or not. -/
theorem add_baseless (found : ClassAttributes) {given : Attribute} (hkey : given.key ≠ "base") :
    add found.baseless given = (add found given).map baseless := by
  unfold add
  split
  · rfl
  · next hbase => exact absurd hbase hkey
  · cases parseFlag? given.value <;> rfl
  · cases parseFlag? given.value <;> rfl
  · cases Accessibility.parse? given.value <;> rfl
  · rfl

theorem foldlM_add_baseless (found : ClassAttributes) (attributes : List Attribute) :
    (attributes.filter (·.key ≠ "base")).foldlM add found.baseless =
      (attributes.foldlM add found).map baseless := by
  induction attributes generalizing found with
  | nil => rfl
  | cons given rest ih =>
    rw [List.foldlM_cons]
    by_cases hkey : given.key = "base"
    · have hadd := add_base found hkey
      rw [List.filter_cons_of_neg (by simp [hkey])]
      cases hfound : add found given with
      | error problem =>
        rw [hfound] at hadd
        exact absurd hadd (by simp [Except.map])
      | ok next =>
        rw [hfound] at hadd
        have hnext : next.baseless = found.baseless := Except.ok.inj hadd
        rw [← hnext]
        exact ih next
    · rw [List.filter_cons_of_pos (by simp [hkey]), List.foldlM_cons, add_baseless found hkey]
      cases add found given with
      | error problem => rfl
      | ok next => exact ih next

end ClassAttributes

/-- What a class element says, without a base. -/
def ClassPart.baseless (part : ClassPart) : ClassPart := { part with base := none }

theorem ClassPart.ofTag_withoutBase (tag : Tag) :
    ofTag tag.withoutBase = (ofTag tag).map baseless := by
  have hfound : ClassAttributes.ofAttributes tag.withoutBase.attributes =
      (ClassAttributes.ofAttributes tag.attributes).map ClassAttributes.baseless := by
    rw [Tag.attributes_withoutBase]
    exact ClassAttributes.foldlM_add_baseless {} tag.attributes
  rw [ofTag, hfound, ofTag]
  cases ClassAttributes.ofAttributes tag.attributes with
  | error problem => rfl
  | ok found =>
    have hkept : found.baseless.name = found.name := rfl
    rw [Except.map]
    dsimp only
    rw [hkept]
    cases found.name with
    | none => rfl
    | some name => rfl

/-! ### The draft -/

namespace Draft

variable {draft next : Draft} {element : OpenElement}

/-- What has been gathered, without the bases. -/
def baseless (draft : Draft) : Draft := { draft with bases := [] }

theorem addPart_baseless {scope : Option NamespaceId} {part : ClassPart}
    (h : draft.addPart scope part = .ok next) :
    draft.baseless.addPart scope part.baseless = .ok next.baseless := by
  obtain ⟨id, hid⟩ : ∃ id, (draft.compilation.internType scope part.name).2 = id := ⟨_, rfl⟩
  obtain ⟨name, hname⟩ : ∃ name, (draft.compilation.internType scope part.name).1.fullName id =
    name := ⟨_, rfl⟩
  rw [addPart_eq draft scope part hid hname] at h
  rw [addPart_eq draft.baseless scope part.baseless hid hname]
  cases hbases : note draft.bases id _ part.base with
  | error problem =>
    rw [hbases] at h
    cases h
  | ok bases =>
    rw [hbases] at h
    change Except.bind (note draft.accessibilities id _ part.accessibility) _ = _ at h
    show Except.bind (note draft.accessibilities id _ part.accessibility) _ = _
    cases hlevels : note draft.accessibilities id _ part.accessibility with
    | error problem =>
      rw [hlevels] at h
      cases h
    | ok accessibilities =>
      rw [hlevels] at h
      cases h
      rfl

theorem beginScope_withoutBase {tag : Tag} (h : draft.beginScope tag = .ok (next, element)) :
    draft.baseless.beginScope tag.withoutBase = .ok (next.baseless, element) := by
  unfold beginScope at h ⊢
  rw [nameAttribute?_withoutBase]
  cases hname : nameAttribute? tag with
  | none =>
    rw [hname] at h
    cases h
  | some name =>
    rw [hname] at h
    cases h
    rfl

theorem beginPart_withoutBase {tag : Tag} (h : draft.beginPart tag = .ok (next, element)) :
    draft.baseless.beginPart tag.withoutBase = .ok (next.baseless, element) := by
  unfold beginPart at h ⊢
  rw [ClassPart.ofTag_withoutBase]
  cases hpart : ClassPart.ofTag tag with
  | error problem =>
    rw [hpart] at h
    cases h
  | ok part =>
    rw [hpart] at h
    change Except.bind (draft.addPart _ part) _ = _ at h
    cases hadd : draft.addPart (innermostScope? draft.opened) part with
    | error problem =>
      rw [hadd] at h
      cases h
    | ok added =>
      rw [hadd] at h
      cases h
      show Except.bind (draft.baseless.addPart (innermostScope? draft.opened) part.baseless) _ = _
      rw [addPart_baseless hadd]
      rfl

/-- An element is taken in without its base, and all but the noted bases comes out the same. -/
theorem beginElement_withoutBase {tag : Tag} (h : draft.beginElement tag = .ok (next, element)) :
    draft.baseless.beginElement tag.withoutBase = .ok (next.baseless, element) := by
  have hkept : draft.baseless.opened = draft.opened := rfl
  unfold beginElement at h ⊢
  rw [hkept]
  cases hopened : draft.opened with
  | nil =>
    rw [hopened] at h
    dsimp only at h ⊢
    rw [beginRoot_eq] at h ⊢
    rw [Tag.name_withoutBase]
    split at h
    · cases h
    · next hname =>
      rw [if_neg hname]
      split at h
      · cases h
      · next hroot =>
        cases h
        exact if_neg hroot
  | cons parent outer =>
    rw [hopened] at h
    dsimp only at h ⊢
    rw [Tag.name_withoutBase]
    split at h
    · cases h
    · next hparent =>
      rw [if_neg hparent]
      split at h
      · next hscope =>
        rw [if_pos hscope]
        exact beginScope_withoutBase h
      · next hscope =>
        rw [if_neg hscope]
        split at h
        · next hclass =>
          rw [if_pos hclass]
          exact beginPart_withoutBase h
        · cases h

/-- An event is taken in without its base, and all but the noted bases comes out the same. -/
theorem advance_withoutBase {event : Event} (h : draft.advance event = .ok next) :
    draft.baseless.advance event.withoutBase = .ok next.baseless := by
  cases event with
  | openTag tag =>
    obtain ⟨⟨begun, element⟩, hbegin, rfl⟩ := exists_of_map_eq_ok h
    rw [Event.withoutBase, advance, beginElement_withoutBase hbegin]
    rfl
  | emptyTag tag =>
    obtain ⟨⟨begun, element⟩, hbegin, rfl⟩ := exists_of_map_eq_ok h
    rw [Event.withoutBase, advance, beginElement_withoutBase hbegin]
    rfl
  | closeTag name =>
    cases h
    rfl
  | filler kind =>
    cases h
    rfl

/-- Events are taken in without bases, and all but the noted bases comes out the same. -/
theorem foldlM_withoutBase {events : List Event} (h : events.foldlM advance draft = .ok next) :
    (events.map Event.withoutBase).foldlM advance draft.baseless = .ok next.baseless := by
  induction events generalizing draft with
  | nil =>
    cases h
    rfl
  | cons event rest ih =>
    rw [List.foldlM_cons] at h
    cases hstep : draft.advance event with
    | error problem =>
      rw [hstep] at h
      cases h
    | ok following =>
      rw [hstep] at h
      rw [List.map_cons, List.foldlM_cons, advance_withoutBase hstep]
      exact ih h

end Draft

/-! ### What bases add -/

/-- All that is known of a type but its base. -/
def RegisteredType.withoutBase (t : RegisteredType) : RegisteredType :=
  { t with symbol := { t.symbol with base := none } }

namespace Compilation

/-- A compilation is another one, whose types have no base, with bases filled in and with types added
that are only referred to. -/
structure BasesAdded (plain c : Compilation) : Prop where
  namespaces : plain.namespaces <+: c.namespaces
  types : plain.types <+: c.types.map RegisteredType.withoutBase
  declarations : plain.declarations = c.declarations
  added : ∀ id symbol, c.type? id = some symbol → plain.types.length ≤ id.index →
    symbol.isExternal = true ∧ c.declarationsOf id = []

/-- Levels leave scopes, declarations and names as they are. -/
theorem foldl_setAccessibility (c : Compilation) (noted : List (TypeId × Accessibility)) :
    let levelled := noted.foldl (fun c p => c.setAccessibility p.1 p.2) c
    levelled.namespaces = c.namespaces ∧ levelled.declarations = c.declarations ∧
      levelled.places = c.places := by
  induction noted generalizing c with
  | nil => exact ⟨rfl, rfl, rfl⟩
  | cons p rest ih =>
    obtain ⟨hnamespaces, hdeclarations, hplaces⟩ := ih (c.setAccessibility p.1 p.2)
    refine ⟨hnamespaces, hdeclarations, hplaces.trans ?_⟩
    exact places_updateType c p.1 _ (fun _ => rfl) (fun _ => rfl)

/-- Types that agree in their places and in their symbols up to bases agree up to bases. -/
theorem prefix_types {plain c : Compilation} (hplaces : plain.places <+: c.places)
    (hkept : ∀ id symbol, plain.type? id = some symbol →
      symbol.base = none ∧ ∃ base, c.type? id = some { symbol with base }) :
    plain.types <+: c.types.map RegisteredType.withoutBase := by
  rw [List.prefix_iff_getElem?]
  intro i hi
  have hs : plain.type? ⟨i⟩ = some plain.types[i].symbol := by
    rw [type?, List.getElem?_eq_getElem hi, Option.map_some]
  obtain ⟨hbaseless, base, hs'⟩ := hkept ⟨i⟩ _ hs
  rw [type?, Option.map_eq_some_iff] at hs'
  obtain ⟨t, ht, hsymbol⟩ := hs'
  change c.types[i]? = some t at ht
  have hname : t.registeredName = plain.types[i].registeredName := by
    have hplace := List.prefix_iff_getElem?.mp hplaces i (by rwa [length_places])
    simp only [Compilation.places, List.getElem?_map, ht, Option.map_some, List.getElem_map,
      Option.some.injEq] at hplace
    exact congrArg Place.registeredName hplace
  rw [List.getElem?_map, ht, Option.map_some, RegisteredType.withoutBase, hsymbol, hname]
  generalize plain.types[i] = plainType at hbaseless
  obtain ⟨registeredName, symbol⟩ := plainType
  obtain ⟨name, scope, base, isAbstract, accessibility, isExternal⟩ := symbol
  obtain rfl : base = none := hbaseless
  rfl

end Compilation

/-- Linking fills bases in and adds types that are only referred to. -/
theorem Draft.Reads.basesAdded {draft : Draft} {elements : List Placement} {around : List Tag}
    (r : draft.Reads elements around) (hbases : Agree Placement.baseText? elements)
    (hlevels : Agree Placement.level? elements) :
    Compilation.BasesAdded draft.baseless.link draft.link := by
  have l := r.links hbases
  obtain ⟨hnamespaces, hdeclarations, hplaces⟩ :=
    draft.compilation.foldl_setAccessibility draft.accessibilities
  change draft.baseless.link.namespaces = _ at hnamespaces
  change draft.baseless.link.declarations = _ at hdeclarations
  change draft.baseless.link.places = _ at hplaces
  refine ⟨?_, ?_, ?_, ?_⟩
  · rw [hnamespaces]
    exact l.extends_.scopes
  · apply Compilation.prefix_types
    · rw [hplaces]
      exact l.extends_.places
    · intro id symbol hs
      refine ⟨?_, r.fillsIn_link.kept id symbol hs⟩
      have hlevelled := draft.compilation.type?_foldl_setAccessibility (r.levels.nodup hlevels) id
      change draft.baseless.link.type? id = _ at hlevelled
      rw [hs] at hlevelled
      obtain ⟨gathered, hgathered, rfl⟩ := Option.map_eq_some_iff.mp hlevelled.symm
      rw [(r.declares.described id gathered hgathered).plain]
  · rw [hdeclarations]
    exact l.declarations.symm
  · intro id symbol hs hbehind
    have hnew : id ∉ draft.compilation.typeIds := by
      rw [Compilation.mem_typeIds, ← Compilation.length_places, ← hplaces,
        Compilation.length_places]
      omega
    exact ⟨(l.external id symbol hs).mpr hnew, (l.declarationsOf_eq_nil_iff r.declares).mpr hnew⟩

/-! ### The whole manifest -/

namespace Compilation

/-- An accepted manifest is accepted without its bases too, however that is written.  It comes to the
same scopes, types and declarations then, up to bases, and what the bases add stands behind them: it
is external and without declarations. -/
theorem withoutBases_spec {text : String} {c : Compilation} (h : ofManifest text = .ok c) :
    ∃ plain, ofReading (Reading.ofText text).withoutBases = .ok plain ∧
      (∀ text₀, (Reading.ofText text₀).cleaned = (Reading.ofText text).withoutBases.cleaned →
        ofManifest text₀ = .ok plain) ∧
      plain.BasesAdded c := by
  obtain ⟨hmanifest, -⟩ := exists_reads_of_ofReading h
  obtain ⟨draft, around, hok, hroot, hreads, rfl⟩ := exists_draft_of_ofReading h
  have hplain : ofReading (Reading.ofText text).withoutBases = .ok draft.baseless.link := by
    have hevents : Draft.ofEvents (Reading.ofText text).withoutBases.events =
        .ok draft.baseless := Draft.foldlM_withoutBase hok
    have hfault : (Reading.ofText text).fault? = none := fault?_eq_none_of_ofReading h
    have hfinish : draft.baseless.finish = .ok draft.baseless.link := if_pos hroot
    rw [ofReading, hevents, show (Reading.ofText text).withoutBases.fault? = none from hfault]
    exact hfinish
  refine ⟨draft.baseless.link, hplain, ?_, ?_⟩
  · intro text₀ hsame
    rw [ofManifest, ← ofReading_cleaned, hsame, ofReading_cleaned, hplain]
  · exact hreads.basesAdded hmanifest.basesAgree hmanifest.levelsAgree

/-- A class with a base that is declared further down, which has one that is nowhere declared. -/
def basedManifest : String :=
  "<compilation><class name=\"B\" base=\"A\"/>" ++
    "<class name=\"A\" base=\"N.X\" accessibility=\"public\"/></compilation>"

/-- The same without the bases. -/
def unbasedManifest : String :=
  "<compilation><class name=\"B\" />" ++
    "<class name=\"A\" accessibility=\"public\"/></compilation>"

/-- The two classes and the base that is nowhere declared. -/
def basedCompilation : Compilation where
  namespaces := [⟨"N", none⟩]
  types := [⟨"B", { name := "B", scope := none, base := some ⟨1⟩ }⟩,
    ⟨"A", { name := "A", scope := none, base := some ⟨2⟩, accessibility := .publicAccess }⟩,
    ⟨"N.X", { name := "X", scope := some ⟨0⟩, isExternal := true }⟩]
  declarations := [⟨⟨0⟩, false⟩, ⟨⟨1⟩, false⟩]

/-- The two classes alone. -/
def unbasedCompilation : Compilation where
  types := [⟨"B", { name := "B", scope := none }⟩,
    ⟨"A", { name := "A", scope := none, accessibility := .publicAccess }⟩]
  declarations := [⟨⟨0⟩, false⟩, ⟨⟨1⟩, false⟩]

/-- The base that is nowhere declared is gone together with its namespace. -/
theorem withoutBases_spec_basedManifest :
    ofManifest basedManifest = .ok basedCompilation ∧
      ofManifest unbasedManifest = .ok unbasedCompilation ∧
      unbasedCompilation.BasesAdded basedCompilation := by
  have hbased : ofManifest basedManifest = .ok basedCompilation := by decide +kernel
  have hunbased : ofManifest unbasedManifest = .ok unbasedCompilation := by decide +kernel
  have hread : Reading.ofText basedManifest =
      ⟨[.openTag ⟨"compilation", []⟩, .emptyTag ⟨"class", [.ok ⟨"name", "B"⟩, .ok ⟨"base", "A"⟩]⟩,
        .emptyTag ⟨"class", [.ok ⟨"name", "A"⟩, .ok ⟨"base", "N.X"⟩, .ok ⟨"accessibility", "public"⟩]⟩,
        .closeTag "compilation"], none⟩ := by decide +kernel
  have hunread : Reading.ofText unbasedManifest =
      ⟨[.openTag ⟨"compilation", []⟩, .emptyTag ⟨"class", [.ok ⟨"name", "B"⟩]⟩,
        .emptyTag ⟨"class", [.ok ⟨"name", "A"⟩, .ok ⟨"accessibility", "public"⟩]⟩,
        .closeTag "compilation"], none⟩ := by decide +kernel
  have hsame : (Reading.ofText unbasedManifest).cleaned =
      (Reading.ofText basedManifest).withoutBases.cleaned := by
    rw [hread, hunread]
    decide
  obtain ⟨plain, -, hwritten, hadded⟩ := withoutBases_spec hbased
  have hplain := hwritten unbasedManifest hsame
  rw [hunbased, Except.ok.injEq] at hplain
  rw [hplain]
  exact ⟨hbased, hplain ▸ hunbased, hadded⟩

end Compilation

end Companion
