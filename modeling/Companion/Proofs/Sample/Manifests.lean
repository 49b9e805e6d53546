import Companion.Proofs.Manifest.DraftProfiles
import Companion.Proofs.Markup.WrittenTags
import Companion.Proofs.Sample.Names

/-!
# Sample manifests

A sample manifest is written line by line, and it is read that way: each line with the break in front of
it comes to four events, and each four events add one class to what has been gathered.

* `toList_manifest`: the text as its pieces, and `ofText_manifest`: its events.
* `Gathered`: what has been gathered behind so many lines.
* `Gathered.line`: a line adds a settings class.
* `Gathered.link`: the marker type is linked to an external type, and the settings classes to the marker
  type.
* `manifest_spec`: what a manifest describes.
-/

namespace Companion.Sample

open Markup

/-! ### The text -/

/-- The attributes of the marker type. -/
def markerAttributes : List Attribute :=
  [⟨"name", marker⟩, ⟨"base", "ScriptableObject"⟩, ⟨"abstract", "true"⟩]

/-- The attributes of the namespace in the line of a number. -/
def scopeAttributes (number : Nat) : List Attribute :=
  [⟨"name", settingsPath number⟩]

/-- The attributes of the class in it. -/
def classAttributes (number : Nat) : List Attribute :=
  [⟨"name", settingsName number⟩, ⟨"base", marker⟩, ⟨"partial", toString (number % 6 != 2)⟩]

theorem isWord_name : IsWord "name" := ⟨by decide, by decide⟩

theorem isWord_base : IsWord "base" := ⟨by decide, by decide⟩

theorem isWord_class : IsWord "class" := ⟨by decide, by decide⟩

theorem writable_marker : Writable "class" markerAttributes where
  name_isWord := isWord_class
  key_isWord := by
    simp only [markerAttributes, List.forall_mem_cons]
    exact ⟨isWord_name, isWord_base, ⟨by decide, by decide⟩, by simp⟩
  unquoted := by decide
  distinct := by decide

theorem writable_scope (number : Nat) : Writable "namespace" (scopeAttributes number) where
  name_isWord := ⟨by decide, by decide⟩
  key_isWord := by
    intro given hgiven
    rw [List.mem_singleton.mp hgiven]
    exact isWord_name
  unquoted := by
    intro given hgiven
    rw [List.mem_singleton.mp hgiven]
    exact not_mem_numbered (by decide) (by decide) _
  distinct := List.nodup_singleton _

theorem writable_class (number : Nat) : Writable "class" (classAttributes number) where
  name_isWord := isWord_class
  key_isWord := by
    simp only [classAttributes, List.forall_mem_cons]
    exact ⟨isWord_name, isWord_base, ⟨by decide, by decide⟩, by simp⟩
  unquoted := by
    simp only [classAttributes, List.forall_mem_cons]
    refine ⟨not_mem_numbered (by decide) (by decide) _, by decide, ?_, by simp⟩
    cases number % 6 != 2
    · decide
    · decide
  distinct := by
    simp only [classAttributes, List.map_cons, List.map_nil]
    decide

/-- The characters of a line, with the break in front of it in place of the one behind it. -/
def lineChars (number : Nat) : List Char :=
  '\n' :: ([' ', ' '] ++ '<' :: (written "namespace" (scopeAttributes number) ++ '>' ::
    '<' :: (written "class" (classAttributes number) ++ '/' :: '>' ::
      '<' :: '/' :: ("namespace".toList ++ ['>']))))

theorem toList_manifestLine (number : Nat) :
    '\n' :: (manifestLine number).toList = lineChars number ++ ['\n'] := by
  -- What the numbers and the flag look like does not matter here.
  unfold manifestLine lineChars scopeAttributes classAttributes settingsPath settingsName
  generalize toString (number % 8) = place
  generalize toString number = digits
  generalize toString (number % 6 != 2) = flag
  generalize marker = base
  simp [written, Attribute.written]

/-- The break behind each line stands in front of the next one. -/
theorem toList_manifestLines (numbers : List Nat) :
    '\n' :: (String.join (numbers.map manifestLine)).toList = numbers.flatMap lineChars ++ ['\n'] := by
  induction numbers with
  | nil => rfl
  | cons number rest ih =>
    rw [List.map_cons, String.join_cons, String.toList_append, ← List.cons_append,
      toList_manifestLine, List.append_assoc, List.singleton_append, ih, List.flatMap_cons,
      List.append_assoc]

theorem toList_manifest (count : Nat) :
    (manifest count).toList =
      '<' :: (written "compilation" [] ++ '>' :: '\n' :: ([' ', ' '] ++
        '<' :: (written "class" markerAttributes ++ '/' :: '>' ::
          ((List.range count).flatMap lineChars ++ '\n' :: ([] ++
            '<' :: '/' :: ("compilation".toList ++ '>' :: '\n' :: ([] ++ []))))))) := by
  have hlines := toList_manifestLines (List.range count)
  unfold manifest markerAttributes
  generalize String.join ((List.range count).map manifestLine) = lines at hlines ⊢
  generalize (List.range count).flatMap lineChars = chars at hlines ⊢
  generalize marker = base
  have hbreak : ∀ more, '\n' :: (lines.toList ++ more) = chars ++ '\n' :: more := by
    intro more
    rw [← List.cons_append, hlines, List.append_assoc, List.singleton_append]
  simp [written, Attribute.written, hbreak]

/-! ### The events -/

/-- The tag of the outermost element. -/
def rootTag : Tag :=
  ⟨"compilation", []⟩

/-- The tag of the marker type. -/
def markerTag : Tag :=
  ⟨"class", markerAttributes.map .ok⟩

/-- The tag of the namespace in the line of a number. -/
def scopeTag (number : Nat) : Tag :=
  ⟨"namespace", (scopeAttributes number).map .ok⟩

/-- The tag of the class in it. -/
def classTag (number : Nat) : Tag :=
  ⟨"class", (classAttributes number).map .ok⟩

/-- The events of a line. -/
def lineEvents (number : Nat) : List Event :=
  [.filler .text, .openTag (scopeTag number), .emptyTag (classTag number), .closeTag "namespace"]

/-- The events in front of the lines. -/
def frontEvents : List Event :=
  [.openTag rootTag, .filler .text, .emptyTag markerTag]

/-- The events of a manifest with so many lines. -/
def manifestEvents (count : Nat) : List Event :=
  frontEvents ++ (List.range count).flatMap lineEvents ++
    [.filler .text, .closeTag "compilation", .filler .text]

theorem scan_line (number : Nat) (more : List Char) :
    scan (lineChars number ++ more) = (scan more).behind (lineEvents number) := by
  have hchars : lineChars number ++ more = '\n' :: ([' ', ' '] ++
      '<' :: (written "namespace" (scopeAttributes number) ++ '>' ::
        '<' :: (written "class" (classAttributes number) ++ '/' :: '>' ::
          '<' :: '/' :: ("namespace".toList ++ '>' :: more)))) := by
    simp [lineChars]
  have hname : IsPlain "namespace" := (writable_scope number).name_isWord.isPlain
  rw [hchars, scan_text (by decide) rfl, scan_openTag (writable_scope number),
    scan_emptyTag (writable_class number), scan_closeTag hname]
  rfl

theorem scan_lines (numbers : List Nat) (more : List Char) :
    scan (numbers.flatMap lineChars ++ more) =
      (scan more).behind (numbers.flatMap lineEvents) := by
  induction numbers with
  | nil => rfl
  | cons number rest ih =>
    rw [List.flatMap_cons, List.append_assoc, scan_line, ih, List.flatMap_cons]
    simp [Reading.behind]

theorem scan_manifest (count : Nat) :
    scan (manifest count).toList = ⟨manifestEvents count, none⟩ := by
  have hroot : Writable "compilation" [] :=
    ⟨⟨by decide, by decide⟩, by simp, by simp, by simp⟩
  rw [toList_manifest, scan_openTag hroot, scan_text (by decide) rfl, scan_emptyTag writable_marker,
    scan_lines, scan_text (by decide) rfl, scan_closeTag hroot.name_isWord.isPlain,
    scan_text (by decide) rfl, scan]
  simp [manifestEvents, frontEvents, Reading.behind, Reading.cons, rootTag, markerTag]

theorem wellNested_lines (numbers : List Nat) : WellNested (numbers.flatMap lineEvents) := by
  induction numbers with
  | nil => exact .nil
  | cons number rest ih =>
    rw [List.flatMap_cons]
    exact .filler .text (.element (scopeTag number) (.emptyTag (classTag number) .nil) ih)

/-- Reading a manifest comes to its end. -/
theorem ofText_manifest (count : Nat) :
    Reading.ofText (manifest count) = ⟨manifestEvents count, none⟩ := by
  have hnested : WellNested (manifestEvents count) := by
    have hlines := (wellNested_lines (List.range count)).append (.filler .text .nil)
    have hroot := WellNested.element rootTag (.filler .text (.emptyTag markerTag hlines))
      (.filler .text .nil)
    simpa [manifestEvents, frontEvents, rootTag] using hroot
  have hmatched := hnested.matchTags_append none [] []
  have hmark : withoutMark (manifest count).toList = (manifest count).toList := by
    rw [toList_manifest]
    rfl
  rw [List.append_nil, matchTags] at hmatched
  rw [Reading.ofText, hmark, scan_manifest]
  dsimp only
  rw [hmatched]
  simp [Reading.behind]

/-! ### What a manifest holds -/

/-- The marker type with a base. -/
def markerClass (base : Option TypeId) : TypeProfile :=
  ⟨"", { name := marker, scope := none, base, isAbstract := true }⟩

/-- The settings class of a number with a base. -/
def settingsClass (base : Option TypeId) (number : Nat) : TypeProfile :=
  ⟨settingsPath number, { name := settingsName number, scope := none, base }⟩

/-- The classes of a manifest with so many lines, before their bases are linked. -/
def gatheredTypes (count : Nat) : List TypeProfile :=
  markerClass none :: (List.range count).map (settingsClass none)

/-- Their declarations. -/
def gatheredDeclarations (count : Nat) : List ClassDeclaration :=
  ⟨⟨0⟩, false⟩ :: (List.range count).map fun number => ⟨⟨number + 1⟩, number % 6 != 2⟩

/-- The bases that they name. -/
def gatheredBases (count : Nat) : List (TypeId × String) :=
  (⟨0⟩, "ScriptableObject") :: (List.range count).map fun number => (⟨number + 1⟩, marker)

theorem gatheredTypes_succ (count : Nat) :
    gatheredTypes (count + 1) = gatheredTypes count ++ [settingsClass none count] := by
  rw [gatheredTypes, List.range_succ, List.map_append]
  rfl

theorem gatheredDeclarations_succ (count : Nat) :
    gatheredDeclarations (count + 1) =
      gatheredDeclarations count ++ [⟨⟨count + 1⟩, count % 6 != 2⟩] := by
  rw [gatheredDeclarations, List.range_succ, List.map_append]
  rfl

theorem gatheredBases_succ (count : Nat) :
    gatheredBases (count + 1) = gatheredBases count ++ [(⟨count + 1⟩, marker)] := by
  rw [gatheredBases, List.range_succ, List.map_append]
  rfl

theorem length_gatheredTypes (count : Nat) : (gatheredTypes count).length = count + 1 := by
  simp [gatheredTypes]

variable {count : Nat} {p : TypeProfile}

theorem mem_gatheredTypes :
    p ∈ gatheredTypes count ↔
      p = markerClass none ∨ ∃ number < count, settingsClass none number = p := by
  simp [gatheredTypes]

theorem dotless_gatheredTypes (count : Nat) : Dotless (gatheredTypes count) := by
  intro p hp
  rcases mem_gatheredTypes.mp hp with rfl | ⟨number, -, rfl⟩
  · show '.' ∉ marker.toList
    decide
  · exact dotless_settingsName number

/-- No class before has the name of the next settings class. -/
theorem settingsName_fresh (count : Nat) :
    ∀ p ∈ gatheredTypes count, p.symbol.name ≠ settingsName count := by
  intro p hp
  rcases mem_gatheredTypes.mp hp with rfl | ⟨number, hnumber, rfl⟩
  · exact ne_of_initials (by rw [initials_settingsName]; decide)
  · exact fun hsame => absurd (settingsName_inj.mp hsame) (Nat.ne_of_lt hnumber)

/-! ### Line by line -/

/-- What the tag of the marker type says. -/
def markerPart : ClassPart where
  name := marker
  base := some "ScriptableObject"
  isPartial := false
  isAbstract := true
  accessibility := none

/-- What the tag of a settings class says. -/
def settingsPart (number : Nat) : ClassPart where
  name := settingsName number
  base := some marker
  isPartial := number % 6 != 2
  isAbstract := false
  accessibility := none

theorem ofTag_markerTag : ClassPart.ofTag markerTag = .ok markerPart :=
  rfl

theorem ofTag_classTag (number : Nat) : ClassPart.ofTag (classTag number) = .ok (settingsPart number) := by
  unfold classTag classAttributes settingsPart
  cases number % 6 != 2
  · rfl
  · rfl

/-- What has been gathered when so many lines have been read. -/
structure Gathered (count : Nat) (draft : Draft) : Prop where
  profiled : draft.compilation.Profiled (gatheredTypes count) (gatheredDeclarations count)
  bases : draft.bases = gatheredBases count
  accessibilities : draft.accessibilities = []
  opened : draft.opened = [.compilation]
  hasRoot : draft.hasRoot = true

variable {draft : Draft}

/-- Bases are named by the classes that are there. -/
theorem Gathered.noted (h : Gathered count draft) :
    ∀ noted ∈ draft.bases, noted.1.index < (gatheredTypes count).length := by
  intro noted hmem
  rw [h.bases, gatheredBases, List.mem_cons, List.mem_map] at hmem
  rw [length_gatheredTypes]
  rcases hmem with rfl | ⟨number, hnumber, rfl⟩
  · exact Nat.succ_pos count
  · exact Nat.succ_lt_succ (List.mem_range.mp hnumber)

/-- A line adds a settings class. -/
theorem Gathered.line (h : Gathered count draft) :
    ∃ next, (lineEvents count).foldlM Draft.advance draft = .ok next ∧ Gathered (count + 1) next := by
  obtain ⟨hprofiled, hs⟩ := h.profiled.internScope (segments_settingsPath count)
  obtain ⟨c, scope, hscope⟩ : ∃ c scope,
      draft.compilation.internScope none (settingsPath count) = (c, scope) := ⟨_, _, rfl⟩
  rw [hscope] at hprofiled hs
  let within : Draft := { draft with compilation := c, opened := [.scope scope, .compilation] }
  let joined : Draft :=
    { within with
      compilation := c.joinPart (some scope) (settingsPart count)
      bases := draft.bases ++ [(⟨(gatheredTypes count).length⟩, marker)] }
  have hfresh : ∀ p ∈ gatheredTypes count, p.fullName ≠
      TypeProfile.fullName ⟨settingsPath count, { name := (settingsPart count).name, scope := none }⟩ :=
    (dotless_gatheredTypes count).fullName_ne (dotless_settingsName count) (settingsName_fresh count)
  have hopen : draft.advance (.openTag (scopeTag count)) = .ok within := by
    have htag : IsScopeTag (scopeTag count) (settingsPath count) := ⟨rfl, rfl⟩
    rw [Draft.advance, Draft.beginElement_scope htag, h.opened]
    dsimp only [Draft.scopeRefusal?, innermostScope?]
    rw [if_neg (by decide), hscope]
    rfl
  have hpart : within.advance (.emptyTag (classTag count)) = .ok joined :=
    Draft.advance_new hprofiled hs (show within.opened = .scope scope :: [.compilation] from rfl)
      (by simp) rfl (ofTag_classTag count) hfresh h.noted rfl rfl
  -- The close tag leaves nothing but the outermost element open.
  refine ⟨{ joined with opened := [.compilation] }, ?_, ?_, ?_, h.accessibilities, rfl, h.hasRoot⟩
  · show (draft.advance (.openTag (scopeTag count))).bind _ = _
    rw [hopen]
    show (within.advance (.emptyTag (classTag count))).bind _ = _
    rw [hpart]
    rfl
  · have hjoined := (hprofiled.joinPart hs hfresh).1
    rw [gatheredTypes_succ, gatheredDeclarations_succ]
    rw [length_gatheredTypes] at hjoined
    exact hjoined
  · show draft.bases ++ [(⟨(gatheredTypes count).length⟩, marker)] = _
    rw [h.bases, gatheredBases_succ, length_gatheredTypes]

/-- The first class is the marker type. -/
theorem gathered_marker :
    ∃ draft, frontEvents.foldlM Draft.advance {} = .ok draft ∧ Gathered 0 draft := by
  let rooted : Draft := { opened := [.compilation], hasRoot := true }
  have hempty : rooted.compilation.Profiled [] [] :=
    ⟨Compilation.interned_empty, fun symbol hsymbol => absurd hsymbol (by simp [rooted]), rfl, rfl⟩
  have hs := Compilation.hasScope_none rooted.compilation
  have hfresh : ∀ p ∈ ([] : List TypeProfile), p.fullName ≠
      TypeProfile.fullName ⟨"", { name := markerPart.name, scope := none }⟩ :=
    fun p hp => absurd hp (by simp)
  have hroot : ({} : Draft).advance (.openTag rootTag) = .ok rooted := rfl
  let draft : Draft :=
    { rooted with
      compilation := rooted.compilation.joinPart none markerPart
      bases := [(⟨0⟩, "ScriptableObject")] }
  have hpart : rooted.advance (.emptyTag markerTag) = .ok draft :=
    Draft.advance_new hempty hs (show rooted.opened = .compilation :: [] from rfl) (by simp) rfl
      ofTag_markerTag hfresh (by simp [rooted]) rfl rfl
  refine ⟨draft, ?_, (hempty.joinPart hs hfresh).1, rfl, rfl, rfl, rfl⟩
  rw [frontEvents, List.foldlM_cons, hroot]
  show (rooted.advance (.emptyTag markerTag)).bind _ = _
  rw [hpart]
  rfl

/-- Line by line the settings classes are gathered behind it. -/
theorem exists_gathered (count : Nat) :
    ∃ draft, (frontEvents ++ (List.range count).flatMap lineEvents).foldlM Draft.advance {} =
      .ok draft ∧ Gathered count draft := by
  induction count with
  | zero => simpa using gathered_marker
  | succ count ih =>
    obtain ⟨draft, hdraft, hgathered⟩ := ih
    obtain ⟨next, hnext, hline⟩ := hgathered.line
    refine ⟨next, ?_, hline⟩
    rw [List.range_succ, List.flatMap_append, List.flatMap_singleton, ← List.append_assoc,
      List.foldlM_append, hdraft]
    exact hnext

theorem ofEvents_manifest (count : Nat) :
    ∃ draft, Draft.ofEvents (manifestEvents count) = .ok { draft with opened := [] } ∧
      Gathered count draft := by
  obtain ⟨draft, hdraft, hgathered⟩ := exists_gathered count
  refine ⟨draft, ?_, hgathered⟩
  rw [Draft.ofEvents, manifestEvents, List.foldlM_append, hdraft]
  show Except.ok { draft with opened := draft.opened.tail } = _
  rw [hgathered.opened]
  rfl

/-! ### Linking -/

/-- The type that the marker type derives from. -/
def externalClass : TypeProfile :=
  ⟨"", { name := "ScriptableObject", scope := none, isExternal := true }⟩

/-- The types of a manifest with so many lines when the marker type has been linked.  The settings
classes have the given base. -/
def linkedTypes (base : Option TypeId) (count : Nat) : List TypeProfile :=
  [markerClass (some ⟨count + 1⟩)] ++ (List.range count).map (settingsClass base) ++ [externalClass]

theorem mem_linkedTypes {base : Option TypeId} :
    p ∈ linkedTypes base count ↔
      p = markerClass (some ⟨count + 1⟩) ∨ (∃ number < count, settingsClass base number = p) ∨
        p = externalClass := by
  simp [linkedTypes]

theorem dotless_linkedTypes (base : Option TypeId) (count : Nat) : Dotless (linkedTypes base count) := by
  intro p hp
  rcases mem_linkedTypes.mp hp with rfl | ⟨number, -, rfl⟩ | rfl
  · show '.' ∉ marker.toList
    decide
  · exact dotless_settingsName number
  · decide

/-- Only the marker type has its name. -/
theorem path_of_marker {base : Option TypeId} (hp : p ∈ linkedTypes base count)
    (hname : p.symbol.name = marker) : p.path = "" := by
  rcases mem_linkedTypes.mp hp with rfl | ⟨number, -, rfl⟩ | rfl
  · rfl
  · exact absurd hname (ne_of_initials (by rw [settingsClass, initials_settingsName]; decide))
  · rfl

/-- No class has the name of the type that the marker type derives from. -/
theorem external_fresh (count : Nat) :
    ∀ p ∈ gatheredTypes count, p.symbol.name ≠ "ScriptableObject" := by
  intro p hp
  rcases mem_gatheredTypes.mp hp with rfl | ⟨number, -, rfl⟩
  · exact ne_of_initials (by decide)
  · exact ne_of_initials (by rw [settingsClass, initials_settingsName]; decide)

/-- With its base the marker type is linked to a new external type. -/
theorem Gathered.linkMarker (h : Gathered count draft) :
    (draft.compilation.linkBase ⟨0⟩ "ScriptableObject").Profiled (linkedTypes none count)
      (gatheredDeclarations count) := by
  have hdot : '.' ∉ "ScriptableObject".toList := by decide
  have hfresh := external_fresh count
  have honly : draft.compilation.OnlyGlobal "ScriptableObject" :=
    h.profiled.onlyGlobal (dotless_gatheredTypes count) hdot fun p hp hname => absurd hname (hfresh p hp)
  have hnew : ∀ p ∈ gatheredTypes count, p.fullName ≠ "ScriptableObject" :=
    (dotless_gatheredTypes count).fullName_ne (show '.' ∉ externalClass.symbol.name.toList from hdot) hfresh
  obtain ⟨hexternal, hid⟩ := h.profiled.internExternal hdot hnew
  have hset := hexternal.setBase (show gatheredTypes count ++ [externalClass] =
    [] ++ markerClass none :: ((List.range count).map (settingsClass none) ++ [externalClass]) from rfl)
    (some ⟨count + 1⟩)
  rw [Compilation.linkBase_external honly (h.profiled.lookup?_eq_none hnew)
    (h.profiled.declaredNamed?_eq_none hfresh), hid, length_gatheredTypes]
  exact hset

/-- And the settings classes are linked to the marker type one after the other. -/
theorem Gathered.link (h : Gathered count draft) :
    draft.link.Profiled (linkedTypes (some ⟨0⟩) count) (gatheredDeclarations count) := by
  have hmarker := h.linkMarker
  have hlink : draft.link = (List.range' 1 count).foldl (fun c i => c.linkBase ⟨i⟩ marker)
      (draft.compilation.linkBase ⟨0⟩ "ScriptableObject") := by
    -- The class of a number stands one place behind it.
    have hshift : (fun (c : Compilation) (i : Nat) => c.linkBase ⟨1 + i⟩ marker) =
        fun c i => c.linkBase ⟨i + 1⟩ marker := by
      funext c i
      rw [Nat.add_comm]
    rw [Draft.link, h.accessibilities, h.bases, gatheredBases, List.foldl_cons, List.foldl_map,
      List.range'_eq_map_range, List.foldl_map, hshift]
    rfl
  have hdot : '.' ∉ marker.toList := by decide
  have honly : (draft.compilation.linkBase ⟨0⟩ "ScriptableObject").OnlyGlobal marker :=
    hmarker.onlyGlobal (dotless_linkedTypes none count) hdot fun p hp hname => path_of_marker hp hname
  have hlookup : (draft.compilation.linkBase ⟨0⟩ "ScriptableObject").lookup? marker = some ⟨0⟩ :=
    hmarker.lookup?_eq_some_iff.mpr ⟨_, rfl, rfl⟩
  have hlinked := hmarker.foldl_linkBase honly hlookup
  rw [List.length_map, List.length_range, List.map_map] at hlinked
  rw [hlink]
  exact hlinked

theorem exists_profiled_manifest (count : Nat) :
    ∃ c, Compilation.ofManifest (manifest count) = .ok c ∧
      c.Profiled (linkedTypes (some ⟨0⟩) count) (gatheredDeclarations count) := by
  obtain ⟨draft, hdraft, hgathered⟩ := ofEvents_manifest count
  refine ⟨draft.link, ?_, hgathered.link⟩
  rw [Compilation.ofManifest, ofText_manifest, Compilation.ofReading_complete, Compilation.ofEvents, hdraft]
  show Draft.finish { draft with opened := [] } = _
  rw [Draft.finish, if_pos hgathered.hasRoot]
  rfl

/-! ### The compilation -/

theorem getElem?_linkedTypes_settings {base : Option TypeId} {number : Nat} (h : number < count) :
    (linkedTypes base count)[number + 1]? = some (settingsClass base number) := by
  have hlt : number + 1 < ([markerClass (some ⟨count + 1⟩)] ++
      (List.range count).map (settingsClass base)).length := by
    simpa using h
  rw [linkedTypes, List.getElem?_append_left hlt]
  simp [h]

theorem getElem?_linkedTypes_external {base : Option TypeId} :
    (linkedTypes base count)[count + 1]? = some externalClass := by
  simp [linkedTypes]

/-- The marker type stands in front, then come the settings classes, and the external type stands
behind them. -/
theorem getElem?_linkedTypes_cases {base : Option TypeId} {i : Nat}
    (hp : (linkedTypes base count)[i]? = some p) :
    i = 0 ∧ p = markerClass (some ⟨count + 1⟩) ∨
      (∃ number < count, i = number + 1 ∧ p = settingsClass base number) ∨
        i = count + 1 ∧ p = externalClass := by
  have hlt := (List.getElem?_eq_some_iff.mp hp).1
  cases i with
  | zero => exact .inl ⟨rfl, (Option.some.inj hp).symm⟩
  | succ number =>
    by_cases hnumber : number < count
    · rw [getElem?_linkedTypes_settings hnumber, Option.some.injEq] at hp
      exact .inr (.inl ⟨number, hnumber, rfl, hp.symm⟩)
    · have heq : number = count := by
        simp [linkedTypes] at hlt
        omega
      rw [heq, getElem?_linkedTypes_external, Option.some.injEq] at hp
      exact .inr (.inr ⟨by rw [heq], hp.symm⟩)

theorem nodup_gatheredDeclarations (count : Nat) :
    ((gatheredDeclarations count).map (·.type)).Nodup := by
  rw [gatheredDeclarations, List.map_cons, List.map_map, List.nodup_cons]
  constructor
  · simp
  · refine List.nodup_range.map fun i j hsame => ?_
    simpa using hsame

section Linked

variable {c : Compilation}
  (h : c.Profiled (linkedTypes (some ⟨0⟩) count) (gatheredDeclarations count))
include h

/-- The external type is below the marker type, and that one below the settings classes. -/
theorem check_linked : c.check = .ok () := by
  refine h.check_eq_ok ?_ (fun i => if i = 0 then 1 else if i ≤ count then 2 else 0) ?_
    (nodup_gatheredDeclarations count)
  · intro p hp
    rcases mem_linkedTypes.mp hp with rfl | ⟨number, -, rfl⟩ | rfl
    · show marker ≠ ""
      decide
    · exact ne_of_initials (by rw [settingsClass, initials_settingsName]; decide)
    · decide
  · intro i p base hp hbase
    rcases getElem?_linkedTypes_cases hp with ⟨rfl, rfl⟩ | ⟨number, hnumber, rfl, rfl⟩ | ⟨rfl, rfl⟩
    · cases hbase
      simp
    · cases hbase
      simp [Nat.succ_le_of_lt hnumber]
    · cases hbase

theorem base?_linked {number : Nat} (hnumber : number < count) :
    c.base? ⟨number + 1⟩ = some ⟨0⟩ := by
  rw [h.base?_eq, getElem?_linkedTypes_settings hnumber]
  rfl

theorem fullName_linked {number : Nat} (hnumber : number < count) :
    c.fullName ⟨number + 1⟩ = settingsPath number ++ "." ++ settingsName number := by
  rw [h.fullName_eq (getElem?_linkedTypes_settings hnumber)]
  exact fullName_of_settings rfl rfl

theorem map_fullName_linked :
    c.typeIds.map c.fullName = [marker] ++
      (List.range count).map (fun number => settingsPath number ++ "." ++ settingsName number) ++
        ["ScriptableObject"] := by
  have hsettings : TypeProfile.fullName ∘ settingsClass (some ⟨0⟩) =
      fun number => settingsPath number ++ "." ++ settingsName number :=
    funext fun number => fullName_of_settings rfl rfl
  rw [h.map_fullName_typeIds, linkedTypes, List.map_append, List.map_append, List.map_map, hsettings]
  rfl

/-- The type that the marker type derives from is the only external one. -/
theorem isExternal_linked_iff {id : TypeId} {symbol : TypeSymbol} (hs : c.type? id = some symbol) :
    symbol.isExternal = true ↔ c.fullName id = "ScriptableObject" := by
  have hp : (linkedTypes (some ⟨0⟩) count)[id.index]? = some (c.profileOf symbol) := by
    rw [← h.map_type?_eq, hs, Option.map_some]
  have hexternal : symbol.isExternal = (c.profileOf symbol).symbol.isExternal := rfl
  rw [h.fullName_eq hp, hexternal]
  generalize c.profileOf symbol = p at hp
  rcases getElem?_linkedTypes_cases hp with ⟨-, rfl⟩ | ⟨number, -, -, rfl⟩ | ⟨-, rfl⟩
  · refine iff_of_false Bool.false_ne_true ?_
    show marker ≠ "ScriptableObject"
    decide
  · refine iff_of_false Bool.false_ne_true ?_
    rw [fullName_of_settings rfl rfl]
    intro hsame
    have hdot := Text.Dotted.mem_append_dot (settingsPath number) (settingsName number)
    rw [hsame] at hdot
    exact absurd hdot (by decide)
  · exact iff_of_true rfl rfl

theorem eligibility_linked_iff {number : Nat} (hnumber : number < count) :
    c.eligibility marker ⟨⟨number + 1⟩, number % 6 != 2⟩ = .eligible ↔ (number % 6 != 2) = true := by
  have hderives : c.derives (some ⟨0⟩) marker = true := by
    rw [Compilation.derives_some_iff]
    refine ⟨⟨0⟩, .refl, ?_⟩
    rw [h.isNamed_eq]
    rfl
  rw [h.eligibility_iff, getElem?_linkedTypes_settings hnumber]
  exact and_iff_left ⟨_, rfl, rfl, hderives⟩

theorem eligibleTypes_linked :
    c.eligibleTypes marker =
      ((List.range count).filter (· % 6 != 2)).map fun number => ⟨number + 1⟩ := by
  have hmarker : (gatheredDeclarations count).filter (fun d => c.eligibility marker d = .eligible) =
      ((List.range count).map fun number => ⟨⟨number + 1⟩, number % 6 != 2⟩).filter
        (fun d => c.eligibility marker d = .eligible) := by
    refine List.filter_cons_of_neg ?_
    rw [decide_eq_true_iff, Compilation.eligibility_eq_eligible_iff]
    exact fun hall => absurd hall.1 Bool.false_ne_true
  have hsettings : ∀ number ∈ List.range count,
      decide (c.eligibility marker ⟨⟨number + 1⟩, number % 6 != 2⟩ = .eligible) = (number % 6 != 2) := by
    intro number hnumber
    rw [Bool.eq_iff_iff, decide_eq_true_iff]
    exact eligibility_linked_iff h (List.mem_range.mp hnumber)
  rw [h.eligibleTypes_eq (nodup_gatheredDeclarations count), hmarker, List.filter_map, List.map_map]
  exact congrArg (List.map _) (List.filter_congr hsettings)

end Linked

/-- Every manifest is read to its end and describes a compilation that is accepted.  Its declarations
are those of the marker type and then of the settings classes in the order of their numbers, which all
have that one marker type in the global namespace for their base.  One more type is referred to.  The
settings classes that are partial are eligible, and no other type is. -/
theorem manifest_spec (count : Nat) :
    ∃ c, Compilation.ofManifest (manifest count) = .ok c ∧ c.check = .ok () ∧
      c.declarations = ⟨⟨0⟩, false⟩ ::
        (List.range count).map (fun number => ⟨⟨number + 1⟩, number % 6 != 2⟩) ∧
      c.typeIds.map c.fullName = ["SingletonScriptableObject"] ++
        (List.range count).map (fun number =>
          "App.Module" ++ toString (number % 8) ++ "." ++ ("Settings" ++ toString number)) ++
        ["ScriptableObject"] ∧
      (∃ symbol, c.type? ⟨0⟩ = some symbol ∧ symbol.name = marker ∧ symbol.scope = none) ∧
      (∀ number < count, c.base? ⟨number + 1⟩ = some ⟨0⟩ ∧
        c.fullName ⟨number + 1⟩ =
          "App.Module" ++ toString (number % 8) ++ "." ++ ("Settings" ++ toString number)) ∧
      (∀ id symbol, c.type? id = some symbol →
        (symbol.isExternal = true ↔ c.fullName id = "ScriptableObject")) ∧
      c.eligibleTypes marker =
        ((List.range count).filter (· % 6 != 2)).map (fun number => ⟨number + 1⟩) := by
  obtain ⟨c, hread, h⟩ := exists_profiled_manifest count
  have hmarker : (linkedTypes (some ⟨0⟩) count)[0]? = some (markerClass (some ⟨count + 1⟩)) := rfl
  exact ⟨c, hread, check_linked h, h.declarations_eq, map_fullName_linked h,
    h.exists_global_type? hmarker rfl,
    fun number hnumber => ⟨base?_linked h hnumber, fullName_linked h hnumber⟩,
    fun id symbol hs => isExternal_linked_iff h hs, eligibleTypes_linked h⟩

end Companion.Sample
