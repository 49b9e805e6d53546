import Companion.Proofs.Files.Requests
import Companion.Proofs.Generation.Deliveries
import Companion.Proofs.Generation.Outcome
import Companion.Proofs.Generation.UnitText
import Companion.Proofs.Model.Verdict

/-!
# Which units stay in their files

The key of a unit tells the simple name of its class only, so classes of one simple name share a file
and the last of them keeps it.  Nothing of this is an error.

* `OccursLater`: what stands in a list occurs again behind its place.
* `Compilation.PlainNames`: no slash stands in what file names are made of.
* `occursLater_paths_iff`: a path is written again exactly if a later class has the same simple name.
* `Disk.HoldsFiles`: file names of a directory denote files of their own.
* `Disk.HoldsFiles.delivers_last`: after a delivery a file holds the last unit that goes to it.
* `Disk.generateToDirectory_outcome`: what a run comes to on any disk.
* `FileTree.holdsFiles`: the names in a directory of a tree denote files of their own.
-/

namespace Companion

/-! ### Later occurrences -/

section Occurrences

variable {α β γ : Type}

/-- What stands at a place of a list occurs again behind it. -/
def OccursLater (l : List α) (i : Nat) : Prop :=
  ∃ j, i < j ∧ j < l.length ∧ l[j]? = l[i]?

/-- Two pictures of a list repeat at the same places if they take the same entries for equal. -/
theorem occursLater_map_iff {f : α → β} {g : α → γ} {l : List α}
    (h : ∀ a ∈ l, ∀ b ∈ l, f a = f b ↔ g a = g b) (i : Nat) :
    OccursLater (l.map f) i ↔ OccursLater (l.map g) i := by
  refine exists_congr fun j => and_congr_right fun hij => ?_
  rw [List.length_map, List.length_map]
  refine and_congr_right fun hj => ?_
  have hi := Nat.lt_trans hij hj
  simp only [List.getElem?_map, List.getElem?_eq_getElem hj, List.getElem?_eq_getElem hi,
    Option.map_some, Option.some.injEq]
  exact h _ (List.getElem_mem hj) _ (List.getElem_mem hi)

/-- A place is the last one that holds what stands at another place. -/
structure IsLastOccurrence (l : List α) (i j : Nat) : Prop where
  le : i ≤ j
  lt : j < l.length
  same : l[j]? = l[i]?
  last : ¬ OccursLater l j

/-- Everything in a list has a last occurrence. -/
theorem exists_isLastOccurrence {l : List α} {i : Nat} (hi : i < l.length) :
    ∃ j, IsLastOccurrence l i j := by
  by_cases hlater : OccursLater l i
  · obtain ⟨k, hik, hk, hsame⟩ := hlater
    obtain ⟨j, hj⟩ := exists_isLastOccurrence hk
    exact ⟨j, Nat.le_trans (Nat.le_of_lt hik) hj.le, hj.lt, hj.same.trans hsame, hj.last⟩
  · exact ⟨i, Nat.le_refl i, hi, rfl, hlater⟩
termination_by l.length - i

end Occurrences

/-! ### Names of files -/

/-- A name that a directory can have a file under. -/
structure IsFileName (name : String) : Prop where
  ne_empty : name ≠ ""
  plain : '/' ∉ name.toList

theorem IsFileName.names_join {name : String} (h : IsFileName name) (directory : String) :
    (Path.ofText (Path.join directory name)).names = (Path.ofText directory).names ++ [name] := by
  rw [Path.names_join (Path.isAbsolute_eq_false h.plain), Path.names_ofText name,
    Path.namesOf_of_not_mem h.plain (by simpa using h.ne_empty), String.ofList_toList]

theorem SourceUnit.fileName_eq_iff (extension : String) (unit other : SourceUnit) :
    unit.fileName extension = other.fileName extension ↔ unit.key = other.key := by
  rw [fileName, fileName]
  split
  · exact Iff.rfl
  · rw [String.append_left_inj, String.append_left_inj]

theorem Path.join_eq_iff {name other : String} (h : isAbsolute name = false)
    (hother : isAbsolute other = false) (directory : String) :
    join directory name = join directory other ↔ name = other := by
  rw [isAbsolute] at h hother
  rw [join, join, h, hother, if_neg Bool.false_ne_true, if_neg Bool.false_ne_true]
  split
  · exact String.append_right_inj directory
  · exact String.append_right_inj (directory ++ "/")

namespace Compilation

variable {c : Compilation} {settings : Settings}

/-- No slash stands in what file names are made of. -/
structure PlainNames (c : Compilation) (settings : Settings) : Prop where
  suffix : '/' ∉ settings.suffix.toList
  extension : '/' ∉ settings.extension.toList
  names : ∀ name ∈ c.unitNames settings.marker, '/' ∉ name.toList

/-- The class of a descriptor has a name. -/
theorem NamesTypes.name_ne_empty (h : c.NamesTypes) {marker : String} {descriptor : Descriptor}
    (hd : descriptor ∈ c.descriptors marker) : descriptor.name ≠ "" := by
  obtain ⟨id, -, hid⟩ := List.mem_filterMap.mp hd
  obtain ⟨symbol, hs, rfl⟩ := Option.map_eq_some_iff.mp hid
  have hnamed := h id (mem_typeIds_of_type? hs)
  rw [isNamed, hs, Option.any_some, decide_eq_false_iff_not] at hnamed
  exact hnamed

/-- The file of a unit has a name that its directory can have a file under. -/
theorem PlainNames.isFileName (p : c.PlainNames settings) (h : c.NamesTypes) {descriptor : Descriptor}
    (hd : descriptor ∈ c.descriptors settings.marker) :
    IsFileName ((settings.unitFor descriptor).fileName settings.extension) := by
  have hname := h.name_ne_empty hd
  have hplain := p.names descriptor.name (List.mem_map_of_mem hd)
  have hkey : '/' ∉ (descriptor.name ++ settings.suffix).toList := by
    rw [String.toList_append, List.mem_append, not_or]
    exact ⟨hplain, p.suffix⟩
  rw [SourceUnit.fileName, Settings.key_unitFor]
  split
  · refine ⟨?_, hkey⟩
    rw [ne_eq, String.append_eq_empty_iff]
    exact fun hall => hname hall.1
  · refine ⟨?_, ?_⟩
    · rw [ne_eq, String.append_eq_empty_iff, String.append_eq_empty_iff, String.append_eq_empty_iff]
      exact fun hall => hname hall.1.1.1
    · rw [String.toList_append, String.toList_append, List.mem_append, List.mem_append, not_or, not_or]
      exact ⟨⟨hkey, by decide⟩, p.extension⟩

theorem PlainNames.isFileName_of_mem (p : c.PlainNames settings) (h : c.NamesTypes)
    {unit : SourceUnit} (hunit : unit ∈ c.generate settings) :
    IsFileName (unit.fileName settings.extension) := by
  obtain ⟨descriptor, hd, rfl⟩ := List.mem_map.mp hunit
  exact p.isFileName h hd

/-- Units go to one file exactly if their classes have one simple name. -/
theorem fileName_unitFor_eq_iff (settings : Settings) (descriptor other : Descriptor) :
    (settings.unitFor descriptor).fileName settings.extension =
        (settings.unitFor other).fileName settings.extension ↔ descriptor.name = other.name := by
  rw [SourceUnit.fileName_eq_iff, Settings.key_unitFor, Settings.key_unitFor, String.append_left_inj]

theorem occursLater_fileNames_iff (c : Compilation) (settings : Settings) (i : Nat) :
    OccursLater ((c.generate settings).map (·.fileName settings.extension)) i ↔
      OccursLater (c.unitNames settings.marker) i := by
  rw [generate, List.map_map, unitNames]
  exact occursLater_map_iff (fun a _ b _ => fileName_unitFor_eq_iff settings a b) i

/-- A path is written again exactly if a later class has the same simple name. -/
theorem PlainNames.occursLater_paths_iff (p : c.PlainNames settings) (h : c.NamesTypes)
    (directory : String) (i : Nat) :
    OccursLater ((c.generate settings).map (Disk.targetPath directory settings.extension)) i ↔
      OccursLater (c.unitNames settings.marker) i := by
  rw [← occursLater_fileNames_iff]
  refine occursLater_map_iff (fun unit hunit other hother => ?_) i
  exact Path.join_eq_iff (Path.isAbsolute_eq_false (p.isFileName_of_mem h hunit).plain)
    (Path.isAbsolute_eq_false (p.isFileName_of_mem h hother).plain) directory

end Compilation

/-! ### Files that hold what was written last -/

namespace Disk

variable {σ : Type} {disk : Disk σ} {directory extension : String}

/-- File names of a directory denote files of their own: what is written to one stands in it, and
neither this nor making the directory changes the others. -/
structure HoldsFiles (disk : Disk σ) (directory : String) (content : String → σ → Option String) :
    Prop where
  written : ∀ {name text : String} {state after : σ}, IsFileName name →
    disk.writeText (Path.join directory name) text state = (.ok (), after) →
      content name after = some text
  others : ∀ {name other text : String} {state after : σ}, IsFileName name → IsFileName other →
    other ≠ name → disk.writeText (Path.join directory name) text state = (.ok (), after) →
      content other after = content other state
  made : ∀ {name : String} {state after : σ}, IsFileName name →
    disk.makeDirectories directory state = (.ok (), after) → content name after = content name state

theorem Delivers.exists_of_append {front back : List SourceUnit} {state final : σ}
    (h : disk.Delivers directory extension (front ++ back) state final) :
    ∃ between, disk.Delivers directory extension front state between ∧
      disk.Delivers directory extension back between final := by
  induction front generalizing state with
  | nil => exact ⟨state, .nil state, h⟩
  | cons unit front ih =>
    cases h with
    | cons hmade hwritten hrest =>
      obtain ⟨between, hfront, hback⟩ := ih hrest
      exact ⟨between, .cons hmade hwritten hfront, hback⟩

namespace HoldsFiles

variable {content : String → σ → Option String} (f : disk.HoldsFiles directory content)
  {units : List SourceUnit} {state final : σ}
include f

/-- A file that no unit goes to stays as it is. -/
theorem delivers_other {name : String} (hname : IsFileName name)
    (h : disk.Delivers directory extension units state final)
    (hfiles : ∀ unit ∈ units, IsFileName (unit.fileName extension))
    (hother : ∀ unit ∈ units, name ≠ unit.fileName extension) :
    content name final = content name state := by
  induction h with
  | nil state => rfl
  | cons hmade hwritten hrest ih =>
    rw [List.forall_mem_cons] at hfiles hother
    rw [ih hfiles.2 hother.2, f.others hfiles.1 hname hother.1 hwritten, f.made hname hmade]

/-- A file holds the last unit that goes to it. -/
theorem delivers_last {front back : List SourceUnit} {unit : SourceUnit}
    (h : disk.Delivers directory extension (front ++ unit :: back) state final)
    (hfiles : ∀ other ∈ front ++ unit :: back, IsFileName (other.fileName extension))
    (hlast : ∀ other ∈ back, unit.fileName extension ≠ other.fileName extension) :
    content (unit.fileName extension) final = some unit.text := by
  rw [List.forall_mem_append, List.forall_mem_cons] at hfiles
  obtain ⟨-, hunit, hback⟩ := hfiles
  obtain ⟨between, -, hrest⟩ := h.exists_of_append
  cases hrest with
  | cons hmade hwritten hrest =>
    rw [f.delivers_other hunit hrest hback hlast]
    exact f.written hunit hwritten

/-- The same by places. -/
theorem delivers_of_not_occursLater {i : Nat} {unit : SourceUnit}
    (h : disk.Delivers directory extension units state final)
    (hfiles : ∀ unit ∈ units, IsFileName (unit.fileName extension)) (hunit : units[i]? = some unit)
    (hlast : ¬ OccursLater (units.map (·.fileName extension)) i) :
    content (unit.fileName extension) final = some unit.text := by
  obtain ⟨hi, rfl⟩ := List.getElem?_eq_some_iff.mp hunit
  have hsplit : units = units.take i ++ units[i] :: units.drop (i + 1) := by
    rw [List.getElem_cons_drop, List.take_append_drop]
  rw [hsplit] at h hfiles
  refine f.delivers_last h hfiles ?_
  intro other hother hsame
  obtain ⟨k, hk, rfl⟩ := List.mem_drop_iff_getElem.mp hother
  refine hlast ⟨i + 1 + k, by omega, by rw [List.length_map]; omega, ?_⟩
  rw [List.getElem?_map, List.getElem?_map, hunit, List.getElem?_eq_getElem, Option.map_some,
    Option.map_some, hsame]

end HoldsFiles

/-- After all units have been delivered the file of each holds the unit of the last class with its simple
name. -/
theorem HoldsFiles.delivers_generate {content : String → σ → Option String}
    (f : disk.HoldsFiles directory content) {c : Compilation} {settings : Settings} {state final : σ}
    (h : disk.Delivers directory settings.extension (c.generate settings) state final)
    (hnames : c.NamesTypes) (p : c.PlainNames settings) {i : Nat} {unit : SourceUnit}
    (hunit : (c.generate settings)[i]? = some unit) :
    ∃ j last, IsLastOccurrence (c.unitNames settings.marker) i j ∧
      (c.generate settings)[j]? = some last ∧
        content (unit.fileName settings.extension) final = some last.text := by
  obtain ⟨descriptor, hd, rfl⟩ : ∃ descriptor, (c.descriptors settings.marker)[i]? = some descriptor ∧
      settings.unitFor descriptor = unit := by
    rwa [Compilation.generate, List.getElem?_map, Option.map_eq_some_iff] at hunit
  obtain ⟨hi, -⟩ := List.getElem?_eq_some_iff.mp hd
  obtain ⟨j, hj⟩ : ∃ j, IsLastOccurrence (c.unitNames settings.marker) i j :=
    exists_isLastOccurrence (by rwa [Compilation.unitNames, List.length_map])
  -- The class at the last place has the same simple name, and so its unit the same file.
  obtain ⟨namesake, hnamesake, hsame⟩ :
      ∃ namesake, (c.descriptors settings.marker)[j]? = some namesake ∧
        namesake.name = descriptor.name := by
    have hsame := hj.same
    rwa [Compilation.unitNames, List.getElem?_map, List.getElem?_map, hd, Option.map_some,
      Option.map_eq_some_iff] at hsame
  have hlast : (c.generate settings)[j]? = some (settings.unitFor namesake) := by
    rw [Compilation.generate, List.getElem?_map, hnamesake, Option.map_some]
  have hfile := (Compilation.fileName_unitFor_eq_iff settings namesake descriptor).mpr hsame
  refine ⟨j, _, hj, hlast, ?_⟩
  rw [← hfile]
  refine f.delivers_of_not_occursLater h (fun unit => p.isFileName_of_mem hnames) hlast ?_
  rw [Compilation.occursLater_fileNames_iff]
  exact hj.last

/-! ### Runs -/

section Runs

variable (disk : Disk σ) (settings : Settings) (manifest directory : String) (state : σ)

/-- What a run comes to on any disk.

* Without units nothing is asked of the disk but the manifest.
* If a unit is refused, those in front of it have been delivered and nothing is asked for those behind.
* Otherwise all units have been delivered.  If no name has a slash, a path is written again exactly if
  a later class has the same simple name, and where file names denote files of their own the file of
  each unit holds the unit of the last class with that name. -/
theorem generateToDirectory_outcome :
    let run := disk.generateToDirectory settings manifest directory state
    (∀ problem, run.1 = .error problem → (∀ key reason, problem ≠ .output key reason) →
      run.2 = { disk := state }) ∧
    (∀ key reason, run.1 = .error (.output key reason) →
      ∃ done unit left before problem,
        disk.generateFromFile settings manifest state = .ok (done ++ unit :: left) ∧
        disk.Delivers directory settings.extension done state before ∧
        disk.Refuses directory settings.extension unit before problem run.2.disk ∧
        key = unit.key ∧ reason = problem.message ∧
        run.2.written = done.map (targetPath directory settings.extension)) ∧
    ∀ paths, run.1 = .ok paths →
      ∃ text c, disk.readText manifest state = .ok text ∧ Compilation.ofManifest text = .ok c ∧
        disk.Delivers directory settings.extension (c.generate settings) state run.2.disk ∧
        paths = (c.generate settings).map (targetPath directory settings.extension) ∧
        (c.PlainNames settings →
          (∀ i, OccursLater paths i ↔ OccursLater (c.unitNames settings.marker) i) ∧
          ∀ content, disk.HoldsFiles directory content →
            ∀ i unit, (c.generate settings)[i]? = some unit →
              ∃ j last, IsLastOccurrence (c.unitNames settings.marker) i j ∧
                (c.generate settings)[j]? = some last ∧
                content (unit.fileName settings.extension) run.2.disk = some last.text) := by
  intro run
  rcases disk.generateFromFile_spec settings manifest state with
    ⟨text, c, hread, hmanifest, hcheck, hunits⟩ | ⟨problem, hfailed, hother⟩
  · have hnames := (c.check_spec.1.mp hcheck).namesTypes
    rcases disk.generateToDirectory_of_ok settings manifest directory state hunits with
      ⟨final, hall, hrun⟩ |
        ⟨done, unit, left, before, problem, after, hsplit, hdone, hrefuses, hrun⟩
    · have hsuccess : run = _ := hrun
      rw [hsuccess]
      refine ⟨fun _ h => absurd h (by simp), fun _ _ h => absurd h (by simp), ?_⟩
      rintro paths ⟨⟩
      refine ⟨text, c, hread, hmanifest, hall, rfl, fun p => ⟨?_, ?_⟩⟩
      · intro i
        exact p.occursLater_paths_iff hnames directory i
      · intro content f i unit hunit
        exact f.delivers_generate hall hnames p hunit
    · have hrefusal : run = _ := hrun
      rw [hrefusal]
      refine ⟨?_, ?_, fun _ h => absurd h (by simp)⟩
      · rintro problem ⟨⟩ hno
        exact absurd rfl (hno _ _)
      · rintro key reason ⟨⟩
        exact ⟨done, unit, left, before, problem, by rw [hunits, hsplit], hdone, hrefuses, rfl, rfl, rfl⟩
  · have hnone : run = _ := disk.generateToDirectory_of_error settings manifest directory state hfailed
    rw [hnone]
    refine ⟨fun _ _ _ => rfl, ?_, fun _ h => absurd h (by simp)⟩
    rintro key reason ⟨⟩
    exact absurd rfl (hother key reason)

end Runs

end Disk

/-! ### Trees of files -/

/-- A file in a directory lies in a place that no other name of the directory leads to. -/
theorem Path.eq_of_location_join_eq {directory name other : String} (hname : IsFileName name)
    (hother : IsFileName other) (hdots : isDots name = false)
    (h : location (join directory other) = location (join directory name)) : other = name := by
  have hlocation : ∀ {file : String}, IsFileName file →
      location (join directory file) = step (location directory) file := by
    intro file hfile
    rw [location, hfile.names_join, walk_append]
    rfl
  rw [hlocation hother, hlocation hname, step_of_not_isDots hdots] at h
  cases hback : isDots other with
  | false =>
    rw [step_of_not_isDots hback] at h
    exact (List.cons.inj (List.append_cancel_left h)).1
  | true =>
    -- The directory itself and the one around it are not as deep as the file.
    have hlength := congrArg List.length h
    rw [step, List.length_append, List.length_singleton] at hlength
    split at hlength
    · omega
    · rw [isDots, Bool.or_eq_true, decide_eq_true_iff, decide_eq_true_iff] at hback
      rw [if_pos (hback.resolve_left ‹_›), List.length_dropLast] at hlength
      omega

namespace FileTree

/-- The text of the file with a name in a directory. -/
def textIn (directory name : String) (tree : FileTree) : Option String :=
  tree.textAt? (Path.location (Path.join directory name))

/-- The names in a directory of a tree denote files of their own. -/
theorem holdsFiles (directory : String) : disk.HoldsFiles directory (textIn directory) := by
  refine ⟨?_, ?_, ?_⟩
  · intro name text state after _ hwritten
    exact keepsContents.written hwritten
  · intro name other text state after hname hother hne hwritten
    obtain ⟨front, last, hnames, hdots, -, -⟩ := write_spec (write_of_writeText hwritten)
    rw [hname.names_join] at hnames
    obtain rfl : name = last := (List.cons.inj (List.append_inj' hnames rfl).2).1
    refine keepsContents.others hwritten ?_
    exact fun hsame => hne (Path.eq_of_location_join_eq hname hother hdots hsame)
  · intro name state after _ hmade
    exact keepsContents.made _ hmade

end FileTree

/-! ### Two classes of one simple name -/

/-- Two classes of one simple name under one base. -/
def namesakes : String :=
  "<compilation><class name=\"A\" base=\"M\" partial=\"true\"/>" ++
    "<namespace name=\"N\"><class name=\"A\" base=\"M\" partial=\"true\"/></namespace></compilation>"

/-- A tree that holds nothing but this manifest. -/
def namesakesTree : FileTree :=
  .file "m.xml" (.text namesakes) .empty

/-- The run on this tree that takes the base for the marker and writes to the directory `out`. -/
def namesakesRun : Except GenerationError (List String) × Delivery FileTree :=
  FileTree.disk.generateToDirectory { marker := "M" } "m.xml" "out" namesakesTree

/-- Both paths are reported, and the one file holds the second unit, which says something else than the
first one. -/
theorem generateToDirectory_outcome_namesakes :
    namesakesRun.1.toOption = some ["out/A_g.cs", "out/A_g.cs"] ∧
      ∃ c unit last, Compilation.ofManifest namesakes = .ok c ∧ c.PlainNames { marker := "M" } ∧
        c.generate { marker := "M" } = [unit, last] ∧ unit.text ≠ last.text ∧
          namesakesRun.2.disk.textIn "out" (unit.fileName "cs") = some last.text := by
  have hpaths : namesakesRun.1.toOption = some ["out/A_g.cs", "out/A_g.cs"] := by decide +kernel
  have htext : (FileTree.disk.readText "m.xml" namesakesTree).toOption = some namesakes := by
    decide +kernel
  have hclasses : (Compilation.ofManifest namesakes).toOption.map (·.descriptors "M") =
      some [⟨"A", "", "internal"⟩, ⟨"A", "N", "internal"⟩] := by
    decide +kernel
  refine ⟨hpaths, ?_⟩
  cases hrun : namesakesRun.1 with
  | error problem =>
    rw [hrun] at hpaths
    cases hpaths
  | ok paths =>
    obtain ⟨-, -, hsuccess⟩ :=
      Disk.generateToDirectory_outcome FileTree.disk { marker := "M" } "m.xml" "out" namesakesTree
    obtain ⟨text, c, hread, hmanifest, -, -, hplain⟩ := hsuccess paths hrun
    rw [hread] at htext
    obtain rfl : text = namesakes := Option.some.inj htext
    rw [hmanifest] at hclasses
    have hboth : c.descriptors "M" = [⟨"A", "", "internal"⟩, ⟨"A", "N", "internal"⟩] :=
      Option.some.inj hclasses
    have hnames : c.unitNames "M" = ["A", "A"] := by
      rw [Compilation.unitNames, hboth]
      rfl
    have p : c.PlainNames { marker := "M" } := ⟨by decide, by decide, by rw [hnames]; decide⟩
    obtain ⟨unit, last, hunits, hdiffer⟩ :
        ∃ unit last, c.generate { marker := "M" } = [unit, last] ∧ unit.text ≠ last.text := by
      refine ⟨_, _, congrArg (List.map (Settings.unitFor { marker := "M" })) hboth, ?_⟩
      exact Settings.text_unitFor_ne _ (by decide)
    obtain ⟨j, found, hj, hfound, hcontent⟩ :=
      (hplain p).2 _ (FileTree.holdsFiles "out") 0 unit (by rw [hunits]; rfl)
    -- The first class has a later namesake, so the last one is the second.
    rw [hnames] at hj
    obtain rfl : j = 1 := by
      have hlt : j < 2 := hj.lt
      have hne : j ≠ 0 := by
        rintro rfl
        exact hj.last ⟨1, by decide, by decide, rfl⟩
      omega
    rw [hunits] at hfound
    obtain rfl : last = found := Option.some.inj hfound
    exact ⟨c, unit, last, hmanifest, p, hunits, hdiffer, hcontent⟩

end Companion
