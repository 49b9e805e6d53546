import Companion.Files.Path
import Companion.Files.Spot
import Companion.Proofs.Collections.Results
import Companion.Proofs.Files.Contents

/-!
# Where names lead to

A tree has no links, so where a path leads to is told by its names alone.

* `Path.walk`: where names lead to from a place.
* `Path.location`: where a path leads to from the root.
* `Path.location_join`: where a path leads to that is seen from a directory.
* `Spot.location_follow`: following names leads to where they walk.
* `Spot.exists_follow_of_grows`: what can be followed can be followed when there are more directories.
-/

namespace Companion

/-! ### Names -/

namespace Path

/-- Where a name leads to.  There is nothing around the root. -/
def step (place : List String) (name : String) : List String :=
  if name = "." then place else if name = ".." then place.dropLast else place ++ [name]

/-- Where names lead to, one after the other. -/
def walk (place : List String) (names : List String) : List String :=
  names.foldl step place

/-- Where a path leads to from the root. -/
def location (text : String) : List String :=
  walk [] (ofText text).names

theorem walk_append (place front back : List String) :
    walk place (front ++ back) = walk (walk place front) back :=
  List.foldl_append

theorem step_of_not_isDots {name : String} (h : isDots name = false) (place : List String) :
    step place name = place ++ [name] := by
  simp only [isDots, Bool.or_eq_false_iff, decide_eq_false_iff_not] at h
  rw [step, if_neg h.1, if_neg h.2]

/-- The last name of a path leads to what it names. -/
theorem walk_concat {name : String} (h : isDots name = false) (place front : List String) :
    walk place (front ++ [name]) = walk place front ++ [name] := by
  rw [walk_append]
  exact step_of_not_isDots h _

/-! ### Paths seen from a directory -/

/-- The names of a text. -/
def namesOf (cs : List Char) : List String :=
  (((Text.pieces '/' cs).1 :: (Text.pieces '/' cs).2).filter (· ≠ [])).map String.ofList

theorem names_ofText (text : String) : (ofText text).names = namesOf text.toList := rfl

theorem namesOf_append (front back : List Char) :
    namesOf (front ++ '/' :: back) = namesOf front ++ namesOf back := by
  rw [namesOf, Text.pieces_append, ← List.cons_append, List.filter_append, List.map_append]
  rfl

theorem namesOf_nil : namesOf [] = [] := rfl

/-- A slash behind a text does not count. -/
theorem namesOf_concat_slash (front : List Char) : namesOf (front ++ ['/']) = namesOf front := by
  rw [namesOf_append, namesOf_nil, List.append_nil]

/-- A text without slashes is one name. -/
theorem namesOf_of_not_mem {cs : List Char} (h : '/' ∉ cs) (hne : cs ≠ []) :
    namesOf cs = [String.ofList cs] := by
  rw [namesOf, Text.pieces_of_not_mem h, List.filter_cons_of_pos (by simpa using hne), List.filter_nil,
    List.map_singleton]

/-- Whether a path stands for itself wherever it is seen from. -/
def isAbsolute (path : String) : Bool :=
  ['/'].isPrefixOf path.toList

theorem isAbsolute_eq_false {name : String} (h : '/' ∉ name.toList) : isAbsolute name = false := by
  rw [isAbsolute]
  cases hcs : name.toList with
  | nil => rfl
  | cons c cs =>
    rw [hcs, List.mem_cons, not_or] at h
    simp [List.isPrefixOf, h.1]

theorem names_join_of_isAbsolute {path : String} (h : isAbsolute path = true) (directory : String) :
    (ofText (join directory path)).names = (ofText path).names := by
  rw [isAbsolute] at h
  rw [join, if_pos h]

/-- The names of a path behind a directory are those of the directory and those of the path. -/
theorem names_join {path : String} (h : isAbsolute path = false) (directory : String) :
    (ofText (join directory path)).names = (ofText directory).names ++ (ofText path).names := by
  rw [isAbsolute] at h
  rw [join, h, if_neg Bool.false_ne_true]
  simp only [names_ofText]
  split
  · next hend =>
    rw [Bool.or_eq_true, String.isEmpty_iff, decide_eq_true_iff] at hend
    rw [String.toList_append]
    rcases hend with rfl | hslash
    · rfl
    · -- The slash at the end is the one that separates.
      obtain ⟨front, hfront⟩ := List.getLast?_eq_some_iff.mp hslash
      rw [hfront, namesOf_concat_slash, List.append_assoc]
      exact namesOf_append front path.toList
  · rw [String.toList_append, String.toList_append, List.append_assoc]
    exact namesOf_append directory.toList path.toList

/-- A path leads on from the directory that it is seen from, unless it stands for itself. -/
theorem location_join (directory path : String) :
    location (join directory path) =
      walk (if isAbsolute path then [] else location directory) (ofText path).names := by
  cases h : isAbsolute path with
  | true =>
    rw [location, names_join_of_isAbsolute h]
    rfl
  | false =>
    rw [location, names_join h, walk_append]
    rfl

end Path

/-! ### Spots -/

namespace Spot

/-- The names that lead to the directory from the root. -/
def location (spot : Spot) : List String :=
  (spot.around.map (·.1)).reverse

variable {spot spot' next : Spot} {names : List String}

theorem location_into (here inner : FileTree) (name : String) (around : List (String × FileTree)) :
    location ⟨inner, (name, here) :: around⟩ = location ⟨here, around⟩ ++ [name] := by
  rw [location, List.map_cons, List.reverse_cons]
  rfl

theorem location_up (spot : Spot) : spot.up.location = spot.location.dropLast := by
  obtain ⟨here, around⟩ := spot
  cases around with
  | nil => rfl
  | cons outer rest =>
    rw [location_into, List.dropLast_concat]
    rfl

theorem location_enter {name : String} (h : spot.enter name = .ok next) :
    next.location = Path.step spot.location name := by
  rw [enter] at h
  rw [Path.step]
  split at h
  · next hdot =>
    cases h
    rw [if_pos hdot]
  · next hdot =>
    rw [if_neg hdot]
    split at h
    · next hdots =>
      cases h
      rw [if_pos hdots, location_up]
    · next hdots =>
      rw [if_neg hdots]
      split at h
      · cases h
      · cases h
      · cases h
      · cases h
        exact location_into _ _ _ _

theorem follow_cons (spot : Spot) (name : String) (rest : List String) :
    spot.follow (name :: rest) = (spot.enter name).bind (·.follow rest) := rfl

theorem follow_append (spot : Spot) (front back : List String) :
    spot.follow (front ++ back) = (spot.follow front).bind (·.follow back) := by
  induction front generalizing spot with
  | nil => rfl
  | cons name rest ih =>
    rw [List.cons_append, follow_cons, follow_cons]
    cases spot.enter name with
    | error problem => rfl
    | ok inner => exact ih inner

/-- Following names leads to where they walk. -/
theorem location_follow (h : spot.follow names = .ok next) :
    next.location = Path.walk spot.location names := by
  induction names generalizing spot with
  | nil =>
    cases h
    rfl
  | cons name rest ih =>
    obtain ⟨inner, he, hrest⟩ := exists_of_bind_eq_ok h
    rw [ih hrest, location_enter he]
    rfl

/-! ### The tree around a directory -/

/-- What stands in a directory stands in its tree behind the names that lead to the directory. -/
theorem nodeAt?_tree (spot : Spot) (names : List String) :
    spot.tree.nodeAt? (spot.location ++ names) = spot.here.nodeAt? names := by
  obtain ⟨here, around⟩ := spot
  induction around generalizing here names with
  | nil => rfl
  | cons outer rest ih =>
    obtain ⟨name, outer⟩ := outer
    rw [location_into, List.append_assoc]
    show (Spot.mk (outer.put name (.directory here)) rest).tree.nodeAt?
      ((Spot.mk outer rest).location ++ ([name] ++ names)) = here.nodeAt? names
    have hfound : (outer.put name (.directory here)).find? name = some (.directory here) := by
      rw [FileTree.find?_put, if_pos rfl]
    have hout := ih (name :: names) (outer.put name (.directory here))
    rw [FileTree.nodeAt?_of_find?_directory hfound] at hout
    exact hout

/-- What changes in a directory changes in its tree. -/
theorem sets_enclose {entry : Option FileContent} {here here' : FileTree}
    (h : FileTree.Sets names entry here here') (around : List (String × FileTree)) :
    FileTree.Sets (location ⟨here, around⟩ ++ names) entry (enclose here around)
      (enclose here' around) := by
  induction around generalizing here here' names with
  | nil => exact h
  | cons outer rest ih =>
    obtain ⟨name, outer⟩ := outer
    have hout := ih (h.put_directory outer name)
    rw [location_into, List.append_assoc]
    exact hout

/-! ### More directories -/

theorem size_le_of_lookup? {name : String} {node : Option FileNode}
    (h : spot.lookup? name = .ok node) : name.utf8ByteSize ≤ maxNameSize := by
  rw [lookup?] at h
  split at h
  · cases h
  · next hsize => exact Nat.le_of_not_lt hsize

/-- A directory that is found under a name of its own can be stepped into. -/
theorem enter_of_find? {name : String} {inner : FileTree} (hdots : Path.isDots name = false)
    (hsize : name.utf8ByteSize ≤ maxNameSize)
    (hfound : spot.here.find? name = some (.directory inner)) :
    spot.enter name = .ok { here := inner, around := (name, spot.here) :: spot.around } := by
  simp only [Path.isDots, Bool.or_eq_false_iff, decide_eq_false_iff_not] at hdots
  rw [enter, if_neg hdots.1, if_neg hdots.2, lookup?, if_neg (Nat.not_lt_of_le hsize), hfound]

theorem exists_enter_of_grows {name : String} (hloc : spot'.location = spot.location)
    (hgrows : ∀ names, spot.tree.nodeAt? names = some none → spot'.tree.nodeAt? names = some none)
    (he : spot.enter name = .ok next) :
    ∃ next', spot'.enter name = .ok next' ∧ next'.location = next.location := by
  rw [enter] at he
  rw [enter]
  split at he
  · next hdot =>
    cases he
    exact ⟨spot', if_pos hdot, hloc⟩
  · next hdot =>
    rw [if_neg hdot]
    split at he
    · next hdots =>
      cases he
      exact ⟨spot'.up, if_pos hdots, by rw [location_up, location_up, hloc]⟩
    · next hdots =>
      rw [if_neg hdots]
      split at he
      · cases he
      · cases he
      · cases he
      · next inner hlookup =>
        cases he
        have hfound := find?_of_lookup? hlookup
        have hsize := size_le_of_lookup? hlookup
        -- The directory is still there in the tree that has grown.
        have hentry : spot.tree.nodeAt? (spot.location ++ [name]) = some none := by
          rw [nodeAt?_tree]
          exact FileTree.nodeAt?_singleton_eq_some_none_iff.mpr ⟨inner, hfound⟩
        have hentry' := hgrows _ hentry
        rw [← hloc, nodeAt?_tree] at hentry'
        obtain ⟨inner', hfound'⟩ := FileTree.nodeAt?_singleton_eq_some_none_iff.mp hentry'
        rw [lookup?, if_neg (Nat.not_lt_of_le hsize), hfound']
        refine ⟨_, rfl, ?_⟩
        rw [location_into, location_into]
        exact congrArg (· ++ [name]) hloc

/-- What can be followed can be followed when there are more directories. -/
theorem exists_follow_of_grows (hl : Leads spot.here spot.around)
    (hl' : Leads spot'.here spot'.around) (hloc : spot'.location = spot.location)
    (hgrows : ∀ names, spot.tree.nodeAt? names = some none → spot'.tree.nodeAt? names = some none)
    (hf : spot.follow names = .ok next) : ∃ next', spot'.follow names = .ok next' := by
  induction names generalizing spot spot' with
  | nil => exact ⟨spot', rfl⟩
  | cons name rest ih =>
    obtain ⟨inner, he, hrest⟩ := exists_of_bind_eq_ok hf
    obtain ⟨inner', he', hloc'⟩ := exists_enter_of_grows hloc hgrows he
    obtain ⟨hleads, htree⟩ := leads_enter hl he
    obtain ⟨hleads', htree'⟩ := leads_enter hl' he'
    rw [follow_cons, he']
    refine ih hleads hleads' hloc' ?_ hrest
    rw [htree, htree']
    exact hgrows

end Spot

end Companion
