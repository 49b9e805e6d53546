import Companion.Files.Access
import Companion.Proofs.Files.Walks

/-!
# What requests do to a tree of files

* `FileTree.write_spec`: writing sets the file that the path leads to, and nothing else.
* `FileTree.write_of_writeText`, `FileTree.eq_of_writeText_error`: the same as a request to the disk.
* `FileTree.makeDirectory_spec`: making a directory sets it, and nothing else.
* `FileTree.makeDirectories_spec`: making directories leaves all files alone, also when it fails, and
  otherwise leads to the directory.
* `Disk.KeepsContents`, `FileTree.keepsContents`: contents of files change by what is written to them and
  by nothing else.
-/

namespace Companion

/-- Two paths may denote one file.  A file holds what has been written to it, and no request changes it
otherwise: not what is written to other files, not a refusal to write, and not making a directory. -/
structure Disk.KeepsContents {σ φ : Type} (disk : Disk σ) (file : String → φ)
    (content : φ → σ → Option String) : Prop where
  written : ∀ {path text : String} {state after : σ},
    disk.writeText path text state = (.ok (), after) → content (file path) after = some text
  others : ∀ {path text : String} {state after : σ} {answer : Except FileError Unit} {other : φ},
    disk.writeText path text state = (answer, after) → other ≠ file path →
      content other after = content other state
  refused : ∀ {path text : String} {state after : σ} {problem : FileError},
    disk.writeText path text state = (.error problem, after) →
      content (file path) after = content (file path) state
  made : ∀ {directory : String} {state after : σ} {answer : Except FileError Unit} (other : φ),
    disk.makeDirectories directory state = (answer, after) →
      content other after = content other state

namespace FileTree

variable {tree tree' : FileTree} {names : List String} {path : Path} {spot : Spot}

/-! ### Directories that are led to -/

theorem leads_root (tree : FileTree) :
    Spot.Leads (Spot.mk tree []).here (Spot.mk tree []).around := trivial

theorem follow_spec (h : tree.follow names = .ok spot) :
    Spot.Leads spot.here spot.around ∧ spot.tree = tree ∧ spot.location = Path.walk [] names := by
  have hfollow : Spot.follow { here := tree } names = .ok spot := h
  obtain ⟨hleads, htree⟩ := Spot.tree_follow (leads_root tree) hfollow
  exact ⟨hleads, htree, Spot.location_follow hfollow⟩

/-- What is led to is led to when there are more directories. -/
theorem exists_follow_of_grows (h : tree.follow names = .ok spot) (hg : Grows tree tree') :
    ∃ spot', tree'.follow names = .ok spot' := by
  have hfollow : Spot.follow { here := tree } names = .ok spot := h
  show ∃ spot', Spot.follow { here := tree' } names = .ok spot'
  exact Spot.exists_follow_of_grows (leads_root tree) (leads_root tree') rfl hg.directory hfollow

theorem leadsToDirectory_iff :
    tree.leadsToDirectory path = true ↔ ∃ spot, tree.follow path.names = .ok spot := by
  rw [leadsToDirectory]
  cases tree.follow path.names with
  | error problem => simp [Except.isOk, Except.toBool]
  | ok spot => simp [Except.isOk, Except.toBool]

/-! ### Places of files -/

/-- The directory that the last name of a path is looked for in. -/
theorem place_spec {name : String} (h : tree.place path = .ok (some (spot, name))) :
    ∃ front, path.names = front ++ [name] ∧ Path.isDots name = false ∧
      tree.follow front = .ok spot := by
  rw [place] at h
  cases hlast : path.names.getLast? with
  | none =>
    rw [hlast] at h
    cases h
  | some last =>
    rw [hlast] at h
    obtain ⟨front, hfront⟩ := List.getLast?_eq_some_iff.mp hlast
    rw [hfront, List.dropLast_concat] at h
    obtain ⟨found, hfollow, hrest⟩ := exists_of_bind_eq_ok h
    have hsome : (if Path.isDots last then none else some (found, last)) = some (spot, name) :=
      Except.ok.inj hrest
    cases hdots : Path.isDots last with
    | true =>
      rw [hdots, if_pos rfl] at hsome
      cases hsome
    | false =>
      rw [hdots, if_neg Bool.false_ne_true] at hsome
      cases hsome
      exact ⟨front, hfront, hdots, hfollow⟩

/-- What stands under a name in a directory that is led to stands in the tree where the names walk. -/
theorem nodeAt?_of_follow (h : tree.follow names = .ok spot) {name : String}
    (hdots : Path.isDots name = false) :
    tree.nodeAt? (Path.walk [] (names ++ [name])) = spot.here.nodeAt? [name] := by
  obtain ⟨-, htree, hlocation⟩ := follow_spec h
  rw [Path.walk_concat hdots, ← hlocation, ← htree]
  exact spot.nodeAt?_tree [name]

/-- What is put into a directory that is led to is put where the names walk. -/
theorem sets_put_of_follow (h : tree.follow names = .ok spot) {name : String}
    (hdots : Path.isDots name = false) {entry : Option FileContent} {node : FileNode}
    (hput : Sets [name] entry spot.here (spot.here.put name node)) :
    Sets (Path.walk [] (names ++ [name])) entry tree (spot.put name node) := by
  obtain ⟨-, htree, hlocation⟩ := follow_spec h
  have hset := Spot.sets_enclose hput spot.around
  rw [Path.walk_concat hdots, ← hlocation]
  rw [Spot.tree] at htree
  rw [htree] at hset
  exact hset

/-! ### Writing -/

theorem target_spec {name : String} (h : tree.target path = .ok (spot, name)) :
    tree.place path = .ok (some (spot, name)) ∧
      ∀ inner, spot.here.find? name ≠ some (.directory inner) := by
  obtain ⟨found, hplace, hrest⟩ := exists_of_bind_eq_ok h
  cases found with
  | none => cases hrest
  | some found =>
    obtain ⟨spot', name'⟩ := found
    dsimp only at hrest
    split at hrest
    · cases hrest
    · obtain ⟨node, hlookup, hfree⟩ := exists_of_bind_eq_ok hrest
      have hfound := Spot.find?_of_lookup? hlookup
      split at hfree
      · cases hfree
      · next hother =>
        cases hfree
        refine ⟨hplace, ?_⟩
        intro inner hinner
        rw [hfound] at hinner
        exact hother inner hinner

theorem parsePath_spec {text : String} (h : parsePath text = .ok path) : path = Path.ofText text := by
  rw [parsePath] at h
  split at h
  · cases h
  · split at h
    · cases h
    · split at h
      · cases h
      · cases h
        rfl

/-- Writing sets the file that the path leads to, and nothing else. -/
theorem write_spec {text : String} {content : FileContent} (h : tree.write text content = .ok tree') :
    ∃ front name, (Path.ofText text).names = front ++ [name] ∧ Path.isDots name = false ∧
      Sets (Path.location text) (some content) tree tree' ∧
        tree.nodeAt? (Path.location text) ≠ some none := by
  obtain ⟨path, hparse, hrest⟩ := exists_of_bind_eq_ok h
  obtain rfl := parsePath_spec hparse
  obtain ⟨⟨spot, name⟩, htarget, hwritten⟩ := exists_of_bind_eq_ok hrest
  cases hwritten
  obtain ⟨hplace, hfree⟩ := target_spec htarget
  obtain ⟨front, hnames, hdots, hfollow⟩ := place_spec hplace
  refine ⟨front, name, hnames, hdots, ?_, ?_⟩
  · rw [Path.location, hnames]
    exact sets_put_of_follow hfollow hdots (sets_put_file hfree content)
  · rw [Path.location, hnames, nodeAt?_of_follow hfollow hdots]
    intro hdirectory
    obtain ⟨inner, hinner⟩ := nodeAt?_singleton_eq_some_none_iff.mp hdirectory
    exact hfree inner hinner

/-- A request to write that succeeds is a file that is written. -/
theorem write_of_writeText {path text : String}
    (h : disk.writeText path text tree = (.ok (), tree')) :
    tree.write path (.text text) = .ok tree' := by
  dsimp only [disk] at h
  cases hwrite : tree.write path (.text text) with
  | error problem =>
    rw [hwrite] at h
    cases h
  | ok written =>
    rw [hwrite] at h
    cases h
    rfl

/-- A request to write that fails changes nothing. -/
theorem eq_of_writeText_error {path text : String} {problem : FileError}
    (h : disk.writeText path text tree = (.error problem, tree')) : tree' = tree := by
  dsimp only [disk] at h
  cases hwrite : tree.write path (.text text) with
  | error found =>
    rw [hwrite] at h
    cases h
    rfl
  | ok written =>
    rw [hwrite] at h
    cases h

/-! ### Making directories -/

/-- Making a directory sets it where nothing was, and it can be led to. -/
theorem makeDirectory_spec (h : tree.makeDirectory path = .ok tree') :
    AddsDirectories tree tree' ∧ tree'.leadsToDirectory path = true := by
  obtain ⟨found, hplace, hrest⟩ := exists_of_bind_eq_ok h
  cases found with
  | none => cases hrest
  | some found =>
    obtain ⟨spot, name⟩ := found
    obtain ⟨node, hlookup, hput⟩ := exists_of_bind_eq_ok hrest
    cases node with
    | some node => cases hput
    | none =>
      have hmade : spot.put name (.directory .empty) = tree' := Except.ok.inj hput
      have hfound := Spot.find?_of_lookup? hlookup
      obtain ⟨front, hnames, hdots, hfollow⟩ := place_spec hplace
      have hset := sets_put_of_follow hfollow hdots (sets_put_directory hfound)
      rw [hmade] at hset
      have hfree : tree.nodeAt? (Path.walk [] (front ++ [name])) = none := by
        rw [nodeAt?_of_follow hfollow hdots, nodeAt?_of_find?_none hfound]
      have hadds := hset.addsDirectories hfree
      refine ⟨hadds, ?_⟩
      -- The directory around is still led to, and the new one is found in it.
      obtain ⟨spot', hfollow'⟩ := exists_follow_of_grows hfollow hadds.grows
      have hentry := hset.nodeAt?_self
      rw [nodeAt?_of_follow hfollow' hdots] at hentry
      obtain ⟨inner, hinner⟩ := nodeAt?_singleton_eq_some_none_iff.mp hentry
      rw [leadsToDirectory_iff, hnames]
      refine ⟨{ here := inner, around := (name, spot'.here) :: spot'.around }, ?_⟩
      show Spot.follow { here := tree' } (front ++ [name]) = _
      rw [Spot.follow_append, show Spot.follow { here := tree' } front = .ok spot' from hfollow']
      show (spot'.enter name).bind _ = _
      rw [Spot.enter_of_find? hdots (Spot.size_le_of_lookup? hlookup) hinner]
      rfl

/-- A request that is settled leaves the files alone, and leads to the directory if it succeeds. -/
def MakesDirectory (tree : FileTree) (path : Path) (outcome : Except FileError Unit × FileTree) :
    Prop :=
  AddsDirectories tree outcome.2 ∧
    (outcome.1 = .ok () → outcome.2.leadsToDirectory path = true)

theorem makesDirectory_settle (tree : FileTree) (path : Path) :
    MakesDirectory tree path (tree.settle path (tree.makeDirectory path)) := by
  cases h : tree.makeDirectory path with
  | ok made =>
    obtain ⟨hadds, hleads⟩ := makeDirectory_spec h
    exact ⟨hadds, fun _ => hleads⟩
  | error problem =>
    refine ⟨.refl tree, ?_⟩
    rw [settle]
    dsimp only
    cases tree.leadsToDirectory path with
    | true => exact fun _ => rfl
    | false => exact fun h => absurd h (by simp)

/-- Making a path goes up until something is there, and makes what is missing on the way back. -/
theorem makesDirectory_makePath (tree : FileTree) (path : Path) :
    MakesDirectory tree path (tree.makePath path) := by
  induction path using makePath.induct tree with
  | case1 path hmissing hnil =>
    rw [makePath, hmissing, if_pos hnil]
    exact ⟨.refl tree, fun h => absurd h (by simp)⟩
  | case2 path hmissing hne problem made hup ih =>
    rw [makePath, hmissing]
    dsimp only
    rw [if_neg hne, hup]
    rw [hup] at ih
    exact ⟨ih.1, fun h => absurd h (by simp)⟩
  | case3 path hmissing hne done made hup ih =>
    rw [makePath, hmissing]
    dsimp only
    rw [if_neg hne, hup]
    rw [hup] at ih
    obtain ⟨hadds, hleads⟩ := makesDirectory_settle made path
    exact ⟨ih.1.trans hadds, hleads⟩
  | case4 path hother =>
    have hsettle : tree.makePath path = tree.settle path (tree.makeDirectory path) := by
      rw [makePath]
      split
      · next hmissing => exact absurd hmissing (by simpa using hother)
      · rfl
    rw [hsettle]
    exact makesDirectory_settle tree path

/-- Making directories leaves all files alone, and leads to the directory if it succeeds. -/
theorem makeDirectories_spec (tree : FileTree) (text : String) :
    AddsDirectories tree (tree.makeDirectories text).2 ∧
      ((tree.makeDirectories text).1 = .ok () →
        ∃ spot, (tree.makeDirectories text).2.follow (Path.ofText text).names = .ok spot) := by
  rw [makeDirectories]
  by_cases hempty : text.isEmpty = true
  · rw [if_pos hempty]
    rw [String.isEmpty_iff] at hempty
    subst hempty
    exact ⟨.refl tree, fun _ => ⟨_, rfl⟩⟩
  · rw [if_neg hempty]
    cases hparse : parsePath text with
    | error problem => exact ⟨.refl tree, fun h => absurd h (by simp)⟩
    | ok path =>
      obtain rfl := parsePath_spec hparse
      obtain ⟨hadds, hleads⟩ := makesDirectory_makePath tree (Path.ofText text)
      exact ⟨hadds, fun h => leadsToDirectory_iff.mp (hleads h)⟩

/-! ### Contents -/

/-- Where the directories are the only difference the texts are the same. -/
theorem AddsDirectories.textAt? (h : AddsDirectories tree tree') (names : List String) :
    tree'.textAt? names = tree.textAt? names := by
  refine Option.ext fun content => ?_
  rw [textAt?_eq_some_iff, textAt?_eq_some_iff]
  exact h.file_iff names _

/-- In a tree paths that lead to one place denote one file. -/
theorem keepsContents : disk.KeepsContents Path.location textAt? := by
  refine ⟨?_, ?_, ?_, ?_⟩
  · intro path text state after hwritten
    obtain ⟨-, -, -, -, hset, -⟩ := write_spec (write_of_writeText hwritten)
    exact textAt?_eq_some_iff.mpr hset.nodeAt?_self
  · intro path text state after answer other hwritten hother
    cases answer with
    | error problem => rw [eq_of_writeText_error hwritten]
    | ok done =>
      obtain ⟨-, -, -, -, hset, -⟩ := write_spec (write_of_writeText hwritten)
      rw [FileTree.textAt?, hset, if_neg hother, FileTree.textAt?]
  · intro path text state after problem hrefused
    rw [eq_of_writeText_error hrefused]
  · intro directory state after answer other hmade
    obtain ⟨hadds, -⟩ := state.makeDirectories_spec directory
    rw [show state.makeDirectories directory = _ from hmade] at hadds
    exact hadds.textAt? other

end FileTree

end Companion
