import Companion.Proofs.Files.Requests
import Companion.Proofs.Generation.Deliveries

/-!
# Where the files of a run come to lie

A unit is written to the path that its file name has seen from the directory.  No character of a file
name is refused, so a class name with slashes leads to other directories.

* `Delivered`: what a tree of files holds of the units that have been written to it.
* `Delivered.delivers`: units that are delivered are written one after the other.
* `Delivered.refuses`: a unit that is refused changes no file.
* `Path.StaysIn`: a file name leads to a file of the directory that it is seen from.
* `generateToDirectory_confined`: the files of a run lie directly in the directory exactly if all
  file names stay in it, as they do when they hold no slash.
-/

namespace Companion

/-! ### Files and their directories -/

namespace FileTree

/-- A file is created or changed. -/
def WritesFile (tree tree' : FileTree) (names : List String) : Prop :=
  ∃ content, tree'.nodeAt? names = some (some content) ∧ tree.nodeAt? names ≠ some (some content)

/-- Names lead to something directly in the directory that a path leads to. -/
def LiesIn (tree : FileTree) (directory : String) (names : List String) : Prop :=
  ∃ spot name, tree.follow (Path.ofText directory).names = .ok spot ∧ names = spot.location ++ [name]

variable {tree tree' tree'' : FileTree}

theorem not_writesFile_self (tree : FileTree) (names : List String) : ¬ WritesFile tree tree names := by
  intro h
  obtain ⟨content, hentry, hnew⟩ := h
  exact hnew hentry

theorem WritesFile.of_addsDirectories {names : List String} (h : AddsDirectories tree' tree'')
    (hw : WritesFile tree tree'' names) : WritesFile tree tree' names := by
  obtain ⟨content, hentry, hnew⟩ := hw
  exact ⟨content, (h.file_iff names content).mp hentry, hnew⟩

/-- What is led to is a directory. -/
theorem nodeAt?_location {spot : Spot} {directory : String}
    (h : tree.follow (Path.ofText directory).names = .ok spot) :
    tree.nodeAt? (Path.location directory) = some none := by
  obtain ⟨-, htree, hlocation⟩ := follow_spec h
  have hhere := spot.nodeAt?_tree []
  rw [htree, hlocation, List.append_nil] at hhere
  exact hhere

theorem liesIn_iff {directory : String} {names : List String} {spot : Spot}
    (h : tree.follow (Path.ofText directory).names = .ok spot) :
    tree.LiesIn directory names ↔ ∃ name, names = Path.location directory ++ [name] := by
  have hlocation : spot.location = Path.location directory := (follow_spec h).2.2
  rw [← hlocation]
  constructor
  · intro hall
    obtain ⟨spot', name, hfollow, hnames⟩ := hall
    rw [h, Except.ok.injEq] at hfollow
    exact ⟨name, by rw [hfollow, hnames]⟩
  · intro hall
    obtain ⟨name, hnames⟩ := hall
    exact ⟨spot, name, h, hnames⟩

end FileTree

/-! ### Units that have been written -/

open Disk (targetPath)

/-- What a tree of files holds of the units that have been written to it. -/
structure Delivered (directory extension : String) (tree : FileTree) (units : List SourceUnit)
    (delivery : Delivery FileTree) : Prop where
  written : delivery.written = units.map (targetPath directory extension)
  /-- Every file that is new or changed is that of a unit. -/
  only : ∀ names, tree.WritesFile delivery.disk names →
    ∃ unit ∈ units, Path.location (targetPath directory extension unit) = names
  /-- Every unit has its file. -/
  stands : ∀ unit ∈ units, ∃ content,
    delivery.disk.nodeAt? (Path.location (targetPath directory extension unit)) = some (some content)
  named : ∀ unit ∈ units, ∃ front name,
    (Path.ofText (targetPath directory extension unit)).names = front ++ [name] ∧
      Path.isDots name = false
  reached : units ≠ [] → ∃ spot, delivery.disk.follow (Path.ofText directory).names = .ok spot

namespace Delivered

variable {directory extension : String} {tree : FileTree} {units : List SourceUnit}
  {delivery : Delivery FileTree}

theorem start (directory extension : String) (tree : FileTree) :
    Delivered directory extension tree [] { disk := tree } := by
  refine ⟨rfl, ?_, by simp, by simp, by simp⟩
  intro names h
  exact absurd h (tree.not_writesFile_self names)

/-- More directories do not matter to what has been written. -/
theorem addsDirectories (d : Delivered directory extension tree units delivery) {disk : FileTree}
    (h : FileTree.AddsDirectories delivery.disk disk) :
    Delivered directory extension tree units { delivery with disk } := by
  refine ⟨d.written, ?_, ?_, d.named, ?_⟩
  · intro names hw
    exact d.only names (hw.of_addsDirectories h)
  · intro unit hunit
    obtain ⟨content, hentry⟩ := d.stands unit hunit
    exact ⟨content, (h.file_iff _ content).mpr hentry⟩
  · intro hne
    obtain ⟨spot, hfollow⟩ := d.reached hne
    exact FileTree.exists_follow_of_grows hfollow h.grows

/-- One more file is written in a directory that is led to. -/
theorem write (d : Delivered directory extension tree units delivery) {unit : SourceUnit}
    {disk : FileTree} {content : FileContent} {spot : Spot}
    (hdirectory : delivery.disk.follow (Path.ofText directory).names = .ok spot)
    (hwrite : delivery.disk.write (targetPath directory extension unit) content = .ok disk) :
    Delivered directory extension tree (units ++ [unit])
      { disk, written := delivery.written ++ [targetPath directory extension unit] } := by
  obtain ⟨front, name, hnames, hdots, hset, hfree⟩ := FileTree.write_spec hwrite
  have hgrows := hset.grows hfree
  refine ⟨?_, ?_, ?_, ?_, ?_⟩
  · rw [d.written, List.map_append, List.map_singleton]
  · intro names hw
    obtain ⟨found, hentry, hnew⟩ := hw
    rw [hset] at hentry
    by_cases hplace : names = Path.location (targetPath directory extension unit)
    · exact ⟨unit, List.mem_append_right _ List.mem_cons_self, hplace.symm⟩
    · rw [if_neg hplace] at hentry
      obtain ⟨old, hold, hlocation⟩ := d.only names ⟨found, hentry, hnew⟩
      exact ⟨old, List.mem_append_left _ hold, hlocation⟩
  · intro other hother
    rcases List.mem_append.mp hother with hold | hlast
    · obtain ⟨found, hentry⟩ := d.stands other hold
      exact hgrows.file _ found hentry
    · rw [List.mem_singleton.mp hlast]
      exact ⟨content, hset.nodeAt?_self⟩
  · intro other hother
    rcases List.mem_append.mp hother with hold | hlast
    · exact d.named other hold
    · rw [List.mem_singleton.mp hlast]
      exact ⟨front, name, hnames, hdots⟩
  · intro _
    exact FileTree.exists_follow_of_grows hdirectory hgrows

/-- Making directories changes no file, also when it fails. -/
theorem made (d : Delivered directory extension tree units delivery)
    {result : Except FileError Unit} {disk : FileTree}
    (h : FileTree.disk.makeDirectories directory delivery.disk = (result, disk)) :
    Delivered directory extension tree units { delivery with disk } := by
  obtain ⟨hadds, -⟩ := delivery.disk.makeDirectories_spec directory
  rw [show delivery.disk.makeDirectories directory = (result, disk) from h] at hadds
  exact d.addsDirectories hadds

/-- The units of a delivery are written one after the other. -/
theorem delivers {paths : List String} {state final : FileTree} {done : List SourceUnit}
    (d : Delivered directory extension tree units ⟨state, paths⟩)
    (h : FileTree.disk.Delivers directory extension done state final) :
    Delivered directory extension tree (units ++ done)
      ⟨final, paths ++ done.map (targetPath directory extension)⟩ := by
  induction h generalizing units paths with
  | nil state =>
    rw [List.append_nil, List.map_nil, List.append_nil]
    exact d
  | @cons unit rest state made written final hmade hwritten hrest ih =>
    obtain ⟨-, hreached⟩ := state.makeDirectories_spec directory
    rw [show state.makeDirectories directory = (.ok (), made) from hmade] at hreached
    obtain ⟨spot, hdirectory⟩ := hreached rfl
    have hone := (d.made hmade).write hdirectory (FileTree.write_of_writeText hwritten)
    rw [List.append_cons units, List.map_cons, List.append_cons paths]
    exact ih hone

/-- A unit that is refused changes no file. -/
theorem refuses (d : Delivered directory extension tree units delivery) {unit : SourceUnit}
    {problem : FileError} {disk : FileTree}
    (h : FileTree.disk.Refuses directory extension unit delivery.disk problem disk) :
    Delivered directory extension tree units { delivery with disk } := by
  cases h with
  | directory hrefused => exact d.made hrefused
  | file hmade hrefused =>
    rw [FileTree.eq_of_writeText_error hrefused]
    exact d.made hmade

end Delivered

/-! ### File names that stay in the directory -/

namespace Path

/-- A file name leads to a file of the directory that it is seen from. -/
def StaysIn (directory name : String) : Prop :=
  ∃ last, walk (if isAbsolute name then [] else location directory) (ofText name).names =
    location directory ++ [last]

theorem staysIn_iff (directory name : String) :
    StaysIn directory name ↔
      ∃ last, location (join directory name) = location directory ++ [last] := by
  rw [StaysIn, location_join]

end Path

namespace Delivered

variable {directory extension : String} {tree : FileTree} {units : List SourceUnit}
  {delivery : Delivery FileTree} {unit : SourceUnit}

/-- The file of a unit lies directly in the directory exactly if its name stays in it. -/
theorem liesIn_iff (d : Delivered directory extension tree units delivery) (hunit : unit ∈ units) :
    delivery.disk.LiesIn directory (Path.location (targetPath directory extension unit)) ↔
      Path.StaysIn directory (unit.fileName extension) := by
  obtain ⟨spot, hfollow⟩ := d.reached (List.ne_nil_of_mem hunit)
  rw [FileTree.liesIn_iff hfollow, Path.staysIn_iff]
  rfl

/-- A name without slashes stays in the directory. -/
theorem staysIn (d : Delivered directory extension tree units delivery) (hunit : unit ∈ units)
    (h : '/' ∉ (unit.fileName extension).toList) :
    Path.StaysIn directory (unit.fileName extension) := by
  have habsolute := Path.isAbsolute_eq_false h
  have hlocation := Path.location_join directory (unit.fileName extension)
  obtain ⟨spot, hfollow⟩ := d.reached (List.ne_nil_of_mem hunit)
  obtain ⟨content, hentry⟩ := d.stands unit hunit
  obtain ⟨front, name, hnames, hdots⟩ := d.named unit hunit
  rw [targetPath, Path.names_join habsolute] at hnames
  rw [targetPath] at hentry
  rw [habsolute, if_neg Bool.false_ne_true] at hlocation
  rw [Path.staysIn_iff, hlocation]
  by_cases hempty : (unit.fileName extension).toList = []
  · -- The directory itself is no file.
    rw [hlocation, Path.names_ofText, hempty] at hentry
    change delivery.disk.nodeAt? (Path.location directory) = _ at hentry
    rw [FileTree.nodeAt?_location hfollow] at hentry
    cases hentry
  · rw [Path.names_ofText (unit.fileName extension), Path.namesOf_of_not_mem h hempty] at hnames ⊢
    obtain ⟨-, hlast⟩ := List.append_inj' hnames rfl
    rw [List.cons.injEq] at hlast
    rw [hlast.1]
    exact ⟨name, Path.walk_concat hdots (Path.location directory) []⟩

end Delivered

/-! ### Runs -/

section Runs

variable (settings : Settings) (manifest directory : String) (tree : FileTree)

/-- The units of the manifest in a file, none if there is no such manifest. -/
def unitsOfFile : List SourceUnit :=
  (FileTree.disk.generateFromFile settings manifest tree).toOption.getD []

/-- What a run has written are the first units of its manifest. -/
theorem exists_delivered_generateToDirectory :
    ∃ done left, unitsOfFile settings manifest tree = done ++ left ∧
      Delivered directory settings.extension tree done
        (FileTree.disk.generateToDirectory settings manifest directory tree).2 := by
  have hstart := Delivered.start directory settings.extension tree
  rw [unitsOfFile]
  cases h : FileTree.disk.generateFromFile settings manifest tree with
  | error problem =>
    rw [FileTree.disk.generateToDirectory_of_error settings manifest directory tree h]
    exact ⟨[], [], rfl, hstart⟩
  | ok units =>
    rcases FileTree.disk.generateToDirectory_of_ok settings manifest directory tree h with
      ⟨final, hall, hrun⟩ | ⟨done, unit, left, before, problem, after, rfl, hdone, hrefuses, hrun⟩
    · rw [hrun]
      exact ⟨units, [], (List.append_nil units).symm, hstart.delivers hall⟩
    · rw [hrun]
      exact ⟨done, unit :: left, rfl, (hstart.delivers hdone).refuses hrefuses⟩

/-- Every file that a run creates or changes is one that it has written, for the first units of its
manifest.  These files lie directly in the directory exactly if all their names stay in it, as they do
when they hold no slash. -/
theorem generateToDirectory_confined :
    let run := FileTree.disk.generateToDirectory settings manifest directory tree
    let units := unitsOfFile settings manifest tree
    let written := units.take run.2.written.length
    run.2.written = written.map (targetPath directory settings.extension) ∧
    (∀ names, tree.WritesFile run.2.disk names →
      ∃ path ∈ run.2.written, Path.location path = names) ∧
    (∀ path ∈ run.2.written, ∃ content,
      run.2.disk.nodeAt? (Path.location path) = some (some content)) ∧
    ((∀ path ∈ run.2.written, run.2.disk.LiesIn directory (Path.location path)) ↔
      ∀ unit ∈ written, Path.StaysIn directory (unit.fileName settings.extension)) ∧
    ((∀ unit ∈ units, '/' ∉ (unit.fileName settings.extension).toList) →
      ∀ names, tree.WritesFile run.2.disk names → run.2.disk.LiesIn directory names) := by
  intro run units written
  obtain ⟨done, left, hsplit, d⟩ :=
    exists_delivered_generateToDirectory settings manifest directory tree
  have hunits : units = done ++ left := hsplit
  have hwritten : run.2.written = done.map (targetPath directory settings.extension) := d.written
  have hdone : written = done := by
    show units.take run.2.written.length = done
    rw [hwritten, List.length_map, hunits, List.take_left]
  rw [hdone]
  refine ⟨hwritten, ?_, ?_, ?_, ?_⟩
  · intro names hw
    obtain ⟨unit, hunit, hlocation⟩ := d.only names hw
    rw [hwritten]
    exact ⟨_, List.mem_map_of_mem hunit, hlocation⟩
  · rw [hwritten, List.forall_mem_map]
    exact d.stands
  · rw [hwritten, List.forall_mem_map]
    exact forall₂_congr fun unit hunit => d.liesIn_iff hunit
  · intro hplain names hw
    obtain ⟨unit, hunit, rfl⟩ := d.only names hw
    have hmem : unit ∈ units := by
      rw [hunits]
      exact List.mem_append_left _ hunit
    exact (d.liesIn_iff hunit).mpr (d.staysIn hunit (hplain unit hmem))

end Runs

/-- A manifest of one class that gets a unit. -/
def manifestOf (name : String) : String :=
  "<compilation><class name=\"" ++ name ++
    "\" base=\"SingletonScriptableObject\" partial=\"true\"/></compilation>"

/-- A tree that holds nothing but this manifest. -/
def treeOf (name : String) : FileTree :=
  .file "m.xml" (.text (manifestOf name)) .empty

/-- The run on this tree that writes to the directory `out`. -/
def runOn (name : String) : Except GenerationError (List String) × Delivery FileTree :=
  FileTree.disk.generateToDirectory {} "m.xml" "out" (treeOf name)

/-- The file of a class with a plain name lies in the directory. -/
theorem generateToDirectory_confined_plain :
    (∀ unit ∈ unitsOfFile {} "m.xml" (treeOf "A"), '/' ∉ (unit.fileName "cs").toList) ∧
      (runOn "A").2.written = ["out/A_g.cs"] ∧
        ∀ names, (treeOf "A").WritesFile (runOn "A").2.disk names →
          (runOn "A").2.disk.LiesIn "out" names := by
  have hplain : ∀ unit ∈ unitsOfFile {} "m.xml" (treeOf "A"), '/' ∉ (unit.fileName "cs").toList := by
    decide +kernel
  obtain ⟨-, -, -, -, hconfined⟩ := generateToDirectory_confined {} "m.xml" "out" (treeOf "A")
  exact ⟨hplain, by decide +kernel, hconfined hplain⟩

/-- A class name that leads out of the directory is accepted, and the run that writes its file next to
the directory is a success. -/
theorem not_confined_outward :
    (runOn "../A").1.toOption = some ["out/../A_g.cs"] ∧
      (treeOf "../A").WritesFile (runOn "../A").2.disk ["A_g.cs"] ∧
        ¬ (runOn "../A").2.disk.LiesIn "out" ["A_g.cs"] := by
  refine ⟨by decide +kernel, ?_, ?_⟩
  · have hfile : (((runOn "../A").2.disk.nodeAt? ["A_g.cs"]).bind id).isSome = true := by
      decide +kernel
    obtain ⟨content, hcontent⟩ := Option.isSome_iff_exists.mp hfile
    obtain ⟨entry, hentry, rfl⟩ := Option.bind_eq_some_iff.mp hcontent
    exact ⟨content, hentry, fun h => absurd h (by simp [treeOf, FileTree.nodeAt?, FileTree.find?])⟩
  · intro hlies
    obtain ⟨spot, name, hfollow, hnames⟩ := hlies
    have hlocation : spot.location = ["out"] := (FileTree.follow_spec hfollow).2.2
    rw [hlocation] at hnames
    exact absurd (congrArg List.length hnames) (by simp)

end Companion
