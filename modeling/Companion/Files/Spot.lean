import Companion.Files.Tree

/-!
# Spots in a tree of files

* `Spot`: a directory of a tree, with the way back to the root.
* `Spot.enter`, `Spot.follow`: from one directory to another.
* `Spot.put`: the tree with something else in the directory.

Going from directory to directory leaves the tree as it is (`Spot.tree_follow`).
-/

namespace Companion

/-- A directory of a tree. -/
structure Spot where
  here : FileTree
  /-- The directories around it from the inside out, each with the name that leads inwards. -/
  around : List (String × FileTree) := []
  deriving DecidableEq, Repr

namespace Spot

/-! ### The tree -/

/-- The tree that a directory belongs to, given the directories around it. -/
def enclose (here : FileTree) : List (String × FileTree) → FileTree
  | [] => here
  | (name, outer) :: rest => enclose (outer.put name (.directory here)) rest

/-- The tree that the directory belongs to. -/
def tree (spot : Spot) : FileTree :=
  enclose spot.here spot.around

/-- The tree with a node under a name in the directory. -/
def put (spot : Spot) (name : String) (node : FileNode) : FileTree :=
  enclose (spot.here.put name node) spot.around

/-- Whether each directory is found in the one around it. -/
def Leads (here : FileTree) : List (String × FileTree) → Prop
  | [] => True
  | (name, outer) :: rest => outer.find? name = some (.directory here) ∧ Leads outer rest

/-! ### Walking -/

/-- The longest name that a directory can hold, in bytes. -/
def maxNameSize : Nat := 255

/-- What the directory holds under a name. -/
def lookup? (spot : Spot) (name : String) : Except FileError (Option FileNode) :=
  if maxNameSize < name.utf8ByteSize then .error .nameTooLong
  else .ok (spot.here.find? name)

/-- The directory around this one.  There is none around the root. -/
def up (spot : Spot) : Spot :=
  match spot.around with
  | [] => spot
  | (_, outer) :: rest => { here := outer, around := rest }

/-- Steps into the directory that a name stands for. -/
def enter (spot : Spot) (name : String) : Except FileError Spot :=
  if name = "." then .ok spot
  else if name = ".." then .ok spot.up
  else
    match spot.lookup? name with
    | .error problem => .error problem
    | .ok none => .error .notFound
    | .ok (some (.file _)) => .error .notDirectory
    | .ok (some (.directory inner)) =>
      .ok { here := inner, around := (name, spot.here) :: spot.around }

/-- Follows names, one step after the other. -/
def follow (spot : Spot) : List String → Except FileError Spot
  | [] => .ok spot
  | name :: rest => do (← spot.enter name).follow rest

/-! ### Laws -/

theorem find?_of_lookup? {spot : Spot} {name : String} {node : Option FileNode}
    (h : spot.lookup? name = .ok node) : spot.here.find? name = node := by
  rw [lookup?] at h
  split at h
  · cases h
  · cases h; rfl

theorem leads_up {spot : Spot} (h : Leads spot.here spot.around) :
    Leads spot.up.here spot.up.around ∧ spot.up.tree = spot.tree := by
  obtain ⟨here, around⟩ := spot
  cases around with
  | nil => exact ⟨h, rfl⟩
  | cons outer rest =>
    exact ⟨h.2, congrArg (fun tree => enclose tree rest) (FileTree.put_of_find? h.1).symm⟩

theorem leads_enter {spot next : Spot} {name : String} (h : Leads spot.here spot.around)
    (he : spot.enter name = .ok next) :
    Leads next.here next.around ∧ next.tree = spot.tree := by
  rw [enter] at he
  split at he
  · cases he; exact ⟨h, rfl⟩
  · split at he
    · cases he; exact leads_up h
    · split at he
      · cases he
      · cases he
      · cases he
      · next inner hf =>
        cases he
        have hf := find?_of_lookup? hf
        exact ⟨⟨hf, h⟩,
          congrArg (fun tree => enclose tree spot.around) (FileTree.put_of_find? hf)⟩

/-- Following names leads to a directory of the same tree. -/
theorem tree_follow {spot next : Spot} {names : List String} (h : Leads spot.here spot.around)
    (hf : spot.follow names = .ok next) :
    Leads next.here next.around ∧ next.tree = spot.tree := by
  induction names generalizing spot with
  | nil => cases hf; exact ⟨h, rfl⟩
  | cons name rest ih =>
    rw [follow] at hf
    cases he : spot.enter name with
    | error problem => rw [he] at hf; cases hf
    | ok inner =>
      rw [he] at hf
      have hi := leads_enter h he
      have hn := ih hi.1 hf
      exact ⟨hn.1, hn.2.trans hi.2⟩

end Spot

end Companion
