import Companion.Proofs.Collections.Turns
import Companion.Proofs.Model.Scopes
import Mathlib.Data.List.Nodup
import Mathlib.Data.List.Perm.Subperm
import Mathlib.Logic.Relation

/-!
# Paths of scopes that lie anywhere

A scope may be made under a parent that is not there, that is made later, or that is the scope itself.
The way outwards then need not lead to earlier scopes.  It may break off, and it may come back to where
it has been.  The loop that builds a path takes at most as many names as there are scopes.

* `pathTurn`: one turn of the loop, which puts one more name in front.
* `answerWithin_pathTurn`: the loop comes to the names on the walk outwards, joined by dots.
* `Outward`: scopes each of which lies directly in the next one, and the place behind the last of them.
* `LeadsIntoCircle`: the way outwards comes to a scope again.
* `LeadsIntoCircle.length_enclosingWithin`: on a way that comes back the bound is always felt.
* `length_enclosingWithin_le_of_not`: on every other way no scope stands twice, so that there are no
  more scopes on it than there are at all.
* `pathOf_spec`: the bound cuts a path only where the way comes back, and then behind as many names as
  there are scopes.
-/

namespace Companion.Compilation

open Relation (ReflTransGen TransGen)
open Text.Dotted
open Turn

variable {c : Compilation} {id : NamespaceId} {limit : Nat}

/-! ### The loop -/

/-- Where the building of a path stands. -/
structure PathWalk where
  path : String
  current : Option NamespaceId
  remaining : Nat

/-- A text without the dot that it begins with. -/
def withoutLeadingDot (text : String) : String :=
  match text.toList with
  | '.' :: rest => String.ofList rest
  | _ => text

/-- One turn of the building: the name of the scope is put in front, and a dot in front of that.  At the
end one dot is taken away. -/
def pathTurn (c : Compilation) : PathWalk → Turn PathWalk String
  | ⟨path, none, _⟩ => .answers (withoutLeadingDot path)
  | ⟨path, some _, 0⟩ => .answers (withoutLeadingDot path)
  | ⟨path, some id, remaining + 1⟩ =>
    match c.namespace? id with
    | none => .answers (withoutLeadingDot path)
    | some symbol => .goesOn ⟨"." ++ (symbol.name ++ path), symbol.parent, remaining⟩

/-- The building starts at a scope, with nothing built, and may take as many names as there are
scopes. -/
def pathStart (c : Compilation) (id : NamespaceId) : PathWalk :=
  ⟨"", some id, c.namespaces.length⟩

/-! ### The walk outwards, step by step -/

theorem enclosingWithin_of_unknown (unknown : c.namespace? id = none) (limit : Nat) :
    c.enclosingWithin limit id = [] := by
  cases limit with
  | zero => rfl
  | succ limit => rw [enclosingWithin, unknown]

theorem enclosingWithin_of_outermost {symbol : NamespaceSymbol}
    (known : c.namespace? id = some symbol) (outermost : symbol.parent = none) (limit : Nat) :
    c.enclosingWithin (limit + 1) id = [(id, symbol)] := by
  rw [enclosingWithin, known]
  simp only [outermost]

theorem enclosingWithin_of_inner {symbol : NamespaceSymbol} {parent : NamespaceId}
    (known : c.namespace? id = some symbol) (inner : symbol.parent = some parent) (limit : Nat) :
    c.enclosingWithin (limit + 1) id = (id, symbol) :: c.enclosingWithin limit parent := by
  rw [enclosingWithin, known]
  simp only [inner]

/-! ### What the loop builds -/

/-- Names with a dot in front of each. -/
def dotted : List String → String
  | [] => ""
  | name :: rest => "." ++ (name ++ dotted rest)

theorem dotted_concat (names : List String) (name : String) :
    dotted (names ++ [name]) = dotted names ++ ("." ++ name) := by
  induction names with
  | nil => simp [dotted]
  | cons first rest ih =>
    rw [List.cons_append, dotted, ih, dotted, String.append_assoc, String.append_assoc]

theorem joined_cons (name : String) (rest : List String) :
    joined (name :: rest) = name ++ dotted rest := by
  induction rest generalizing name with
  | nil => exact String.intercalate_singleton.trans (String.append_empty).symm
  | cons next rest ih =>
    have hcut : joined (name :: next :: rest) = name ++ "." ++ joined (next :: rest) :=
      String.intercalate_cons_cons
    rw [hcut, ih, dotted, String.append_assoc]

theorem withoutLeadingDot_append (text : String) : withoutLeadingDot ("." ++ text) = text := by
  have htext : ("." ++ text).toList = '.' :: text.toList := by
    rw [String.toList_append]
    rfl
  rw [withoutLeadingDot, htext]
  exact String.ofList_toList

/-- Without the first dot the names are joined.  A name may be empty, so that a dot may follow. -/
theorem withoutLeadingDot_dotted (names : List String) :
    withoutLeadingDot (dotted names) = joined names := by
  cases names with
  | nil => rfl
  | cons name rest => rw [dotted, withoutLeadingDot_append, joined_cons]

/-- The loop puts the names on the walk outwards in front of what has been built. -/
theorem answerWithin_pathTurn (c : Compilation) (limit : Nat) (id : NamespaceId) (path : String) :
    answerWithin c.pathTurn (limit + 1) ⟨path, some id, limit⟩ =
      some (withoutLeadingDot
        (dotted ((c.enclosingWithin limit id).reverse.map (·.2.name)) ++ path)) := by
  induction limit generalizing id path with
  | zero =>
    rw [enclosingWithin, List.reverse_nil, List.map_nil, dotted, String.empty_append]
    exact answerWithin_answers rfl 0
  | succ limit ih =>
    cases hs : c.namespace? id with
    | none =>
      rw [enclosingWithin_of_unknown hs, List.reverse_nil, List.map_nil, dotted, String.empty_append]
      refine answerWithin_answers ?_ _
      rw [pathTurn, hs]
    | some symbol =>
      have hturn : c.pathTurn ⟨path, some id, limit + 1⟩ =
          .goesOn ⟨"." ++ (symbol.name ++ path), symbol.parent, limit⟩ := by
        rw [pathTurn, hs]
      rw [answerWithin_goesOn hturn]
      cases hp : symbol.parent with
      | none =>
        rw [enclosingWithin_of_outermost hs hp]
        refine (answerWithin_answers rfl limit).trans ?_
        rw [List.reverse_singleton, List.map_singleton, dotted, dotted, String.append_empty,
          String.append_assoc]
      | some parent =>
        rw [enclosingWithin_of_inner hs hp, ih, List.reverse_cons, List.map_append,
          List.map_singleton, dotted_concat, String.append_assoc, String.append_assoc]

/-! ### The way outwards -/

/-- Scopes that lie around a place, innermost first.  Each of them lies directly in the next one, and
the last one in the place behind. -/
inductive Outward (c : Compilation) :
    Option NamespaceId → List NamespaceSymbol → Option NamespaceId → Prop
  | here (place : Option NamespaceId) : Outward c place [] place
  | inside {id : NamespaceId} {symbol : NamespaceSymbol} {outer : List NamespaceSymbol}
      {place : Option NamespaceId} (known : c.namespace? id = some symbol)
      (further : Outward c symbol.parent outer place) : Outward c (some id) (symbol :: outer) place

/-- A scope lies directly in another one, which need not be there. -/
def ParentLink (c : Compilation) (id parent : NamespaceId) : Prop :=
  (c.namespace? id).bind (·.parent) = some parent

/-- The way outwards from a scope comes to one from which it leads back to that one. -/
def LeadsIntoCircle (c : Compilation) (id : NamespaceId) : Prop :=
  ∃ scope, ReflTransGen c.ParentLink id scope ∧ TransGen c.ParentLink scope scope

/-- Within a limit the walk passes the scopes of the way outwards.  Where it comes to a stop before a
scope that is there, it is the limit that stops it. -/
theorem outward_enclosingWithin (c : Compilation) (limit : Nat) (id : NamespaceId) :
    ∃ place, c.Outward (some id) ((c.enclosingWithin limit id).map (·.2)) place ∧
      (place.bind c.namespace? ≠ none →
        (c.enclosingWithin (limit + 1) id).length = limit + 1) := by
  induction limit generalizing id with
  | zero =>
    refine ⟨some id, .here _, ?_⟩
    intro hthere
    obtain ⟨symbol, hs⟩ := Option.ne_none_iff_exists'.mp hthere
    rw [Option.bind_some] at hs
    cases hp : symbol.parent with
    | none => rw [enclosingWithin_of_outermost hs hp, List.length_singleton]
    | some parent => rw [enclosingWithin_of_inner hs hp]; rfl
  | succ limit ih =>
    cases hs : c.namespace? id with
    | none =>
      rw [enclosingWithin_of_unknown hs]
      refine ⟨some id, .here _, ?_⟩
      intro hthere
      exact absurd hs hthere
    | some symbol =>
      cases hp : symbol.parent with
      | none =>
        rw [enclosingWithin_of_outermost hs hp]
        have hend : c.Outward symbol.parent [] none := by
          rw [hp]
          exact .here none
        exact ⟨none, .inside hs hend, fun hthere => absurd rfl hthere⟩
      | some parent =>
        obtain ⟨place, hway, hstops⟩ := ih parent
        rw [enclosingWithin_of_inner hs hp, enclosingWithin_of_inner hs hp]
        rw [← hp] at hway
        refine ⟨place, .inside hs hway, ?_⟩
        intro hthere
        rw [List.length_cons, hstops hthere]

/-! ### Ways that come back -/

theorem parentLink_iff {parent : NamespaceId} :
    c.ParentLink id parent ↔
      ∃ symbol, c.namespace? id = some symbol ∧ symbol.parent = some parent := by
  rw [ParentLink, Option.bind_eq_some_iff]

/-- What comes next on a way that comes back is on such a way as well. -/
theorem LeadsIntoCircle.next (h : c.LeadsIntoCircle id) :
    ∃ parent, c.ParentLink id parent ∧ c.LeadsIntoCircle parent := by
  obtain ⟨scope, hup, hback⟩ := h
  rcases ReflTransGen.cases_head hup with rfl | ⟨parent, hlink, hrest⟩
  · obtain ⟨parent, hlink, hrest⟩ := TransGen.head'_iff.mp hback
    exact ⟨parent, hlink, id, hrest, hback⟩
  · exact ⟨parent, hlink, scope, hrest, hback⟩

/-- On a way that comes back the limit is always felt. -/
theorem LeadsIntoCircle.length_enclosingWithin (h : c.LeadsIntoCircle id) (limit : Nat) :
    (c.enclosingWithin limit id).length = limit := by
  induction limit generalizing id with
  | zero => rfl
  | succ limit ih =>
    obtain ⟨parent, hlink, hparent⟩ := h.next
    obtain ⟨symbol, hs, hp⟩ := parentLink_iff.mp hlink
    rw [enclosingWithin_of_inner hs hp, List.length_cons, ih hparent]

/-! ### Ways that do not come back -/

theorem namespace?_of_mem_enclosingWithin {p : NamespaceId × NamespaceSymbol}
    (h : p ∈ c.enclosingWithin limit id) :
    c.namespace? p.1 = some p.2 ∧ ReflTransGen c.ParentLink id p.1 := by
  induction limit generalizing id with
  | zero => exact absurd h List.not_mem_nil
  | succ limit ih =>
    cases hs : c.namespace? id with
    | none =>
      rw [enclosingWithin_of_unknown hs] at h
      exact absurd h List.not_mem_nil
    | some symbol =>
      cases hp : symbol.parent with
      | none =>
        rw [enclosingWithin_of_outermost hs hp, List.mem_singleton] at h
        subst h
        exact ⟨hs, .refl⟩
      | some parent =>
        rw [enclosingWithin_of_inner hs hp, List.mem_cons] at h
        rcases h with rfl | h
        · exact ⟨hs, .refl⟩
        · obtain ⟨hknown, hup⟩ := ih h
          exact ⟨hknown, .head (parentLink_iff.mpr ⟨symbol, hs, hp⟩) hup⟩

/-- A way that does not come back passes no scope twice. -/
theorem nodup_enclosingWithin_of_not (h : ¬ c.LeadsIntoCircle id) (limit : Nat) :
    ((c.enclosingWithin limit id).map (·.1)).Nodup := by
  induction limit generalizing id with
  | zero => exact List.nodup_nil
  | succ limit ih =>
    cases hs : c.namespace? id with
    | none =>
      rw [enclosingWithin_of_unknown hs]
      exact List.nodup_nil
    | some symbol =>
      cases hp : symbol.parent with
      | none =>
        rw [enclosingWithin_of_outermost hs hp]
        exact List.nodup_singleton id
      | some parent =>
        have hlink : c.ParentLink id parent := parentLink_iff.mpr ⟨symbol, hs, hp⟩
        -- A circle that is reached from further out is reached from here as well.
        have hparent : ¬ c.LeadsIntoCircle parent := by
          rintro ⟨scope, hup, hback⟩
          exact h ⟨scope, .head hlink hup, hback⟩
        rw [enclosingWithin_of_inner hs hp, List.map_cons, List.nodup_cons]
        refine ⟨?_, ih hparent⟩
        intro hagain
        obtain ⟨p, hp', rfl⟩ := List.mem_map.mp hagain
        obtain ⟨-, hup⟩ := namespace?_of_mem_enclosingWithin hp'
        exact h ⟨_, .refl, .head' hlink hup⟩

/-- There are no more scopes on such a way than there are at all. -/
theorem length_enclosingWithin_le_of_not (h : ¬ c.LeadsIntoCircle id) (limit : Nat) :
    (c.enclosingWithin limit id).length ≤ c.namespaces.length := by
  have hthere : ∀ scope ∈ (c.enclosingWithin limit id).map (·.1),
      scope ∈ (List.range c.namespaces.length).map NamespaceId.mk := by
    intro scope hscope
    obtain ⟨p, hp, rfl⟩ := List.mem_map.mp hscope
    have hlt := index_lt_of_namespace? (namespace?_of_mem_enclosingWithin hp).1
    exact List.mem_map.mpr ⟨p.1.index, List.mem_range.mpr hlt, rfl⟩
  have hle := (List.subperm_of_subset (nodup_enclosingWithin_of_not h limit) hthere).length_le
  rwa [List.length_map, List.length_map, List.length_range] at hle

/-- A way comes back exactly if it goes on behind as many scopes as there are. -/
theorem leadsIntoCircle_iff :
    c.LeadsIntoCircle id ↔
      (c.enclosingWithin (c.namespaces.length + 1) id).length = c.namespaces.length + 1 := by
  constructor
  · intro h
    exact h.length_enclosingWithin _
  · intro hlength
    by_contra h
    have hle := length_enclosingWithin_le_of_not h (c.namespaces.length + 1)
    omega

instance (c : Compilation) (id : NamespaceId) : Decidable (c.LeadsIntoCircle id) :=
  decidable_of_iff' _ leadsIntoCircle_iff

/-! ### Whole paths -/

/-- In any compilation, wherever its scopes lie, the loop that builds the path of a scope ends.  What it
comes to are the names of the scopes on the way outwards, outermost first.  If the way does not come
back, these are all of them, up to the first one that lies in none or in one that is not there.  If it
does, they are as many as there are scopes. -/
theorem pathOf_spec (c : Compilation) (id : NamespaceId) :
    (∀ turns, c.namespaces.length + 1 ≤ turns →
      answerWithin c.pathTurn turns (c.pathStart id) = some (c.pathOf id)) ∧
    ∃ scopes place, c.Outward (some id) scopes place ∧
      c.pathOf id = joined (scopes.reverse.map (·.name)) ∧
      (¬ c.LeadsIntoCircle id → place.bind c.namespace? = none) ∧
      (c.LeadsIntoCircle id → scopes.length = c.namespaces.length) := by
  refine ⟨?_, ?_⟩
  · intro turns enough
    have hrun := answerWithin_pathTurn c c.namespaces.length id ""
    rw [String.append_empty, withoutLeadingDot_dotted] at hrun
    exact answerWithin_of_le hrun enough
  · obtain ⟨place, hway, hstops⟩ := outward_enclosingWithin c c.namespaces.length id
    refine ⟨(c.enclosing id).map (·.2), place, hway, ?_, ?_, ?_⟩
    · rw [← List.map_reverse, List.map_map]
      rfl
    · intro h
      by_contra hthere
      exact h (leadsIntoCircle_iff.mpr (hstops hthere))
    · intro h
      rw [List.length_map]
      exact h.length_enclosingWithin _

/-- A scope that lies in itself, with another one in it, and one made under a scope that comes later, which
lies in one that is nowhere. -/
def tangledScopes : Compilation :=
  let itself := (({} : Compilation).internScope (some ⟨0⟩) "A.B").1
  let early := (itself.internScope (some ⟨3⟩) "C").1
  (early.internScope (some ⟨9⟩) "D").1

/-- The path of the inner scope repeats the outer one as often as there is room for it.  The other path
ends where the scope is missing. -/
theorem pathOf_spec_tangledScopes :
    tangledScopes.LeadsIntoCircle ⟨1⟩ ∧
      (∃ scopes place, tangledScopes.Outward (some ⟨1⟩) scopes place ∧
        scopes.length = 4 ∧ joined (scopes.reverse.map (·.name)) = "A.A.A.B") ∧
      ¬ tangledScopes.LeadsIntoCircle ⟨2⟩ ∧
      ∃ scopes place, tangledScopes.Outward (some ⟨2⟩) scopes place ∧
        place.bind tangledScopes.namespace? = none ∧
          joined (scopes.reverse.map (·.name)) = "D.C" := by
  have hcircle : tangledScopes.LeadsIntoCircle ⟨1⟩ := by decide +kernel
  have hends : ¬ tangledScopes.LeadsIntoCircle ⟨2⟩ := by decide +kernel
  have hinner : tangledScopes.pathOf ⟨1⟩ = "A.A.A.B" := by decide +kernel
  have hearly : tangledScopes.pathOf ⟨2⟩ = "D.C" := by decide +kernel
  have hcount : tangledScopes.namespaces.length = 4 := by decide +kernel
  obtain ⟨-, scopes, place, hway, hpath, -, hall⟩ := pathOf_spec tangledScopes ⟨1⟩
  obtain ⟨-, scopes', place', hway', hpath', hend, -⟩ := pathOf_spec tangledScopes ⟨2⟩
  refine ⟨hcircle, ⟨scopes, place, hway, ?_, ?_⟩, hends, scopes', place', hway', hend hends, ?_⟩
  · rw [hall hcircle, hcount]
  · rw [← hpath, hinner]
  · rw [← hpath', hearly]

end Companion.Compilation
