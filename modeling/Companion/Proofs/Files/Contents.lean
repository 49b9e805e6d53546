import Companion.Files.Tree

/-!
# What stands in a tree of files

A place in a tree is given by the names that lead there from the root.

* `FileTree.nodeAt?`, `FileTree.textAt?`: what stands in a place, and its text.
* `FileTree.Sets`: a tree with something else in one place.
* `FileTree.Grows`: directories stay directories, and files stay files.
* `FileTree.AddsDirectories`: a tree with more directories, and with the same files.
* `sets_put_file`, `sets_put_directory`: what is put under a name stands there, and all else stays.
-/

namespace Companion

/-! ### Contents -/

/-- The text that is the content of a file. -/
def FileContent.text? : FileContent → Option String
  | .text content => some content
  | .binary _ => none

theorem FileContent.text?_eq_some_iff {found : FileContent} {content : String} :
    found.text? = some content ↔ found = .text content := by
  cases found with
  | text other => simp [text?]
  | binary bytes => simp [text?]

namespace FileTree

/-! ### Places -/

/-- What stands where names lead to.  A directory has no content. -/
def nodeAt? : List String → FileTree → Option (Option FileContent)
  | [], _ => some none
  | name :: rest, tree =>
    match tree.find? name with
    | none => none
    | some (.file content) => if rest = [] then some (some content) else none
    | some (.directory inner) => nodeAt? rest inner

variable {tree tree' tree'' : FileTree} {names : List String}

@[simp] theorem nodeAt?_nil (tree : FileTree) : tree.nodeAt? [] = some none := rfl

theorem nodeAt?_of_find?_none {name : String} (h : tree.find? name = none) (rest : List String) :
    tree.nodeAt? (name :: rest) = none := by
  rw [nodeAt?, h]

theorem nodeAt?_of_find?_file {name : String} {content : FileContent}
    (h : tree.find? name = some (.file content)) (rest : List String) :
    tree.nodeAt? (name :: rest) = if rest = [] then some (some content) else none := by
  rw [nodeAt?, h]

theorem nodeAt?_of_find?_directory {name : String} {inner : FileTree}
    (h : tree.find? name = some (.directory inner)) (rest : List String) :
    tree.nodeAt? (name :: rest) = inner.nodeAt? rest := by
  rw [nodeAt?, h]

/-- Under a name stands a directory if that is what is found there. -/
theorem nodeAt?_singleton_eq_some_none_iff {name : String} :
    tree.nodeAt? [name] = some none ↔ ∃ inner, tree.find? name = some (.directory inner) := by
  cases h : tree.find? name with
  | none => simp [nodeAt?_of_find?_none h]
  | some node =>
    cases node with
    | file content => simp [nodeAt?_of_find?_file h]
    | directory inner => simp [nodeAt?_of_find?_directory h]

theorem nodeAt?_empty {name : String} (rest : List String) :
    FileTree.empty.nodeAt? (name :: rest) = none :=
  nodeAt?_of_find?_none rfl rest

/-- The text in a place, if a file with a text stands there. -/
def textAt? (names : List String) (tree : FileTree) : Option String :=
  (tree.nodeAt? names).bind fun entry => entry.bind FileContent.text?

theorem textAt?_eq_some_iff {content : String} :
    tree.textAt? names = some content ↔ tree.nodeAt? names = some (some (.text content)) := by
  rw [textAt?, Option.bind_eq_some_iff]
  constructor
  · intro hall
    obtain ⟨entry, hentry, hcontent⟩ := hall
    obtain ⟨found, rfl, htext⟩ := Option.bind_eq_some_iff.mp hcontent
    rw [hentry, FileContent.text?_eq_some_iff.mp htext]
  · intro hentry
    exact ⟨_, hentry, rfl⟩

/-! ### Something else in one place -/

/-- One tree is another one with something else in one place. -/
def Sets (names : List String) (entry : Option FileContent) (tree tree' : FileTree) : Prop :=
  ∀ other, tree'.nodeAt? other = if other = names then some entry else tree.nodeAt? other

theorem Sets.nodeAt?_self {entry : Option FileContent} (h : Sets names entry tree tree') :
    tree'.nodeAt? names = some entry := by
  rw [h, if_pos rfl]

/-- A file that is put where no directory is stands there, and all else stays. -/
theorem sets_put_file {name : String} (h : ∀ inner, tree.find? name ≠ some (.directory inner))
    (content : FileContent) : Sets [name] (some content) tree (tree.put name (.file content)) := by
  have hown : (tree.put name (.file content)).find? name = some (.file content) := by
    rw [find?_put, if_pos rfl]
  intro other
  cases other with
  | nil => rfl
  | cons first rest =>
    by_cases hname : name = first
    · subst hname
      rw [nodeAt?_of_find?_file hown]
      by_cases hrest : rest = []
      · rw [if_pos hrest, if_pos (by rw [hrest])]
      · rw [if_neg hrest, if_neg (by simpa using hrest)]
        -- Nothing stood behind the name.
        cases hfound : tree.find? name with
        | none => exact (nodeAt?_of_find?_none hfound rest).symm
        | some node =>
          cases node with
          | file old => rw [nodeAt?_of_find?_file hfound, if_neg hrest]
          | directory inner => exact absurd hfound (h inner)
    · have hother : first :: rest ≠ [name] := fun heq => hname (List.cons.inj heq).1.symm
      rw [if_neg hother, nodeAt?, find?_put, if_neg hname, nodeAt?]

/-- A directory that is put where nothing is stands there, and all else stays. -/
theorem sets_put_directory {name : String} (h : tree.find? name = none) :
    Sets [name] none tree (tree.put name (.directory .empty)) := by
  have hown : (tree.put name (.directory .empty)).find? name = some (.directory .empty) := by
    rw [find?_put, if_pos rfl]
  intro other
  cases other with
  | nil => rfl
  | cons first rest =>
    by_cases hname : name = first
    · subst hname
      rw [nodeAt?_of_find?_directory hown]
      cases rest with
      | nil => rw [if_pos rfl, nodeAt?_nil]
      | cons next rest =>
        rw [if_neg (by simp), nodeAt?_empty, nodeAt?_of_find?_none h]
    · have hother : first :: rest ≠ [name] := fun heq => hname (List.cons.inj heq).1.symm
      rw [if_neg hother, nodeAt?, find?_put, if_neg hname, nodeAt?]

/-- What changes in a directory changes in the tree around it. -/
theorem Sets.put_directory {entry : Option FileContent} (h : Sets names entry tree tree')
    (outer : FileTree) (name : String) :
    Sets (name :: names) entry (outer.put name (.directory tree))
      (outer.put name (.directory tree')) := by
  intro other
  cases other with
  | nil => rfl
  | cons first rest =>
    by_cases hname : name = first
    · subst hname
      have hfound : ∀ inner : FileTree,
          (outer.put name (.directory inner)).find? name = some (.directory inner) := by
        intro inner
        rw [find?_put, if_pos rfl]
      rw [nodeAt?_of_find?_directory (hfound tree'), nodeAt?_of_find?_directory (hfound tree), h]
      by_cases hrest : rest = names
      · rw [if_pos hrest, if_pos (by rw [hrest])]
      · rw [if_neg hrest, if_neg (by simpa using hrest)]
    · have hother : first :: rest ≠ name :: names := fun heq => hname (List.cons.inj heq).1.symm
      rw [if_neg hother, nodeAt?, find?_put, if_neg hname, nodeAt?, find?_put, if_neg hname]

/-! ### What stays -/

/-- Directories stay directories, and files stay files. -/
structure Grows (tree tree' : FileTree) : Prop where
  directory : ∀ names, tree.nodeAt? names = some none → tree'.nodeAt? names = some none
  file : ∀ names content, tree.nodeAt? names = some (some content) →
    ∃ content', tree'.nodeAt? names = some (some content')

/-- There may be more directories, and the files are the same. -/
structure AddsDirectories (tree tree' : FileTree) : Prop where
  directory : ∀ names, tree.nodeAt? names = some none → tree'.nodeAt? names = some none
  file_iff : ∀ names content,
    tree'.nodeAt? names = some (some content) ↔ tree.nodeAt? names = some (some content)

theorem AddsDirectories.refl (tree : FileTree) : AddsDirectories tree tree :=
  ⟨fun _ h => h, fun _ _ => Iff.rfl⟩

theorem AddsDirectories.trans (h : AddsDirectories tree tree') (h' : AddsDirectories tree' tree'') :
    AddsDirectories tree tree'' :=
  ⟨fun names hd => h'.directory names (h.directory names hd),
    fun names content => (h'.file_iff names content).trans (h.file_iff names content)⟩

theorem AddsDirectories.grows (h : AddsDirectories tree tree') : Grows tree tree' :=
  ⟨h.directory, fun names content hf => ⟨content, (h.file_iff names content).mpr hf⟩⟩

/-- A new directory adds to the directories. -/
theorem Sets.addsDirectories (h : Sets names none tree tree') (hfree : tree.nodeAt? names = none) :
    AddsDirectories tree tree' := by
  refine ⟨?_, ?_⟩
  · intro other hd
    rw [h, hd, ite_self]
  · intro other content
    rw [h]
    by_cases hother : other = names
    · rw [if_pos hother, hother, hfree]
      simp
    · rw [if_neg hother]

/-- A file that is written takes the place of no directory. -/
theorem Sets.grows {content : FileContent} (h : Sets names (some content) tree tree')
    (hfree : tree.nodeAt? names ≠ some none) : Grows tree tree' := by
  refine ⟨?_, ?_⟩
  · intro other hd
    have hother : other ≠ names := by
      rintro rfl
      exact hfree hd
    rw [h, if_neg hother, hd]
  · intro other old hf
    by_cases hother : other = names
    · exact ⟨content, by rw [h, if_pos hother]⟩
    · exact ⟨old, by rw [h, if_neg hother, hf]⟩

end FileTree

end Companion
