import Companion.Proofs.Collections.Turns
import Companion.Proofs.Discovery.MarkerType
import Companion.Proofs.Model.BaseCircles

/-!
# Three walks along base links

The search for a type of a given name, the collection of all bases and the search for a circle each
follow base links in a loop of their own.  They begin at different types, keep account of different
things and stop on different conditions.  Here the loops are taken turn by turn, with no bound on the
number of turns, and told in terms of the one way up that `ascend` finds.

* `searchTurn`, `chainTurn`, `circleTurn`: one turn of each of the three loops.
* `answerWithin_searchTurn`, `answerWithin_chainTurn`, `answerWithin_circleTurn`: what each comes to,
  by induction on the part of the way that lies ahead.
* `length_met_ascend_le`: a way up is at most one type longer than the list of types.
* `baseWalks_spec`: all three loops end, and what the first finds is what the other two together find.
-/

namespace Companion

namespace Compilation

open Turn

/-! ### The three loops -/

/-- Where the search for a named type stands. -/
structure MarkerSearch where
  visited : List TypeId
  current : Option TypeId

/-- One turn of the search: a type that has been visited, or that is unknown, ends it in vain. -/
def searchTurn (c : Compilation) (marker : String) : MarkerSearch → Turn MarkerSearch Bool
  | ⟨_, none⟩ => .answers false
  | ⟨visited, some id⟩ =>
    if id ∈ visited then .answers false
    else
      match c.type? id with
      | none => .answers false
      | some symbol =>
        if symbol.name = marker then .answers true
        else .goesOn ⟨visited ++ [id], symbol.base⟩

/-- Where the collection of bases stands. -/
structure BaseCollection where
  visited : List TypeId
  chain : List TypeId
  current : Option TypeId

/-- One turn of the collection.  Whether the next base is known is not asked. -/
def chainTurn (c : Compilation) : BaseCollection → Turn BaseCollection (List TypeId)
  | ⟨_, chain, none⟩ => .answers chain
  | ⟨visited, chain, some base⟩ =>
    if base ∈ visited then .answers chain
    else .goesOn ⟨visited ++ [base], chain ++ [base], c.base? base⟩

/-- Where the search for a circle stands. -/
structure CircleSearch where
  path : List TypeId
  current : Option TypeId

/-- One turn of the search: a type of the path closes a circle, which is the rest of the path from
there. -/
def circleTurn (c : Compilation) : CircleSearch → Turn CircleSearch (Option (List TypeId))
  | ⟨_, none⟩ => .answers none
  | ⟨path, some base⟩ =>
    match path.idxOf? base with
    | some position => .answers (some (path.drop position ++ [base]))
    | none => .goesOn ⟨path ++ [base], c.base? base⟩

/-- The search starts at a type that it looks at itself. -/
def searchFrom (start : Option TypeId) : MarkerSearch :=
  ⟨[], start⟩

/-- The collection starts behind a type that counts as visited. -/
def collectAbove (c : Compilation) (id : TypeId) : BaseCollection :=
  ⟨[id], [], c.base? id⟩

/-- The path starts with the type itself. -/
def pathFrom (c : Compilation) (id : TypeId) : CircleSearch :=
  ⟨[id], c.base? id⟩

/-! ### Places on the way up -/

variable {c : Compilation} {id next : TypeId} {front rest : List TypeId} {marker : String}

/-- The type behind a first part of the way is reached by as many links as that part has types. -/
theorem baseAfter_of_met (way : (c.ascend id).met = front ++ next :: rest) :
    c.baseAfter front.length id = some next := by
  have hlength : front.length < (c.ascend id).met.length := by simp [way]
  rw [← getElem?_met_ascend hlength, way]
  simp

/-- The base of a type on the way is the one behind it, and that of the last one is what would be met
again. -/
theorem base?_of_met (way : (c.ascend id).met = front ++ next :: rest) :
    c.base? next = rest.head?.or (c.ascend id).meetsAgain := by
  have hnext := baseAfter_succ c front.length id
  rw [baseAfter_of_met way, Option.bind_some] at hnext
  rw [← hnext]
  cases rest with
  | nil =>
    have hend := baseAfter_length_met c c.typeIds id
    have hlength : (c.ascendAmong c.typeIds id).met.length = front.length + 1 := by
      rw [← ascend, way, List.length_append, List.length_singleton]
    rw [hlength] at hend
    exact hend
  | cons above rest =>
    have way' : (c.ascend id).met = (front ++ [next]) ++ above :: rest := by simp [way]
    have habove := baseAfter_of_met way'
    rw [List.length_append, List.length_singleton] at habove
    exact habove

theorem not_mem_front (way : (c.ascend id).met = front ++ next :: rest) : next ∉ front := by
  have hdistinct := nodup_met_ascend c id
  rw [way, List.nodup_append] at hdistinct
  intro hfront
  exact hdistinct.2.2 next hfront next List.mem_cons_self rfl

theorem mem_met_of_meetsAgain {again : TypeId} (h : (c.ascend id).meetsAgain = some again) :
    again ∈ (c.ascend id).met := by
  obtain ⟨k, hk, hagain, -⟩ := exists_baseAfter_of_meetsAgain h
  exact mem_met_ascend.mpr ⟨k, hagain⟩

/-- Behind an unknown type the way does not go on. -/
theorem rest_eq_nil_of_unknown (way : (c.ascend id).met = front ++ next :: rest)
    (unknown : c.type? next = none) : rest = [] := by
  have hbase := base?_of_met way
  rw [base?, unknown, Option.bind_none, eq_comm, Option.or_eq_none_iff] at hbase
  exact List.head?_eq_none_iff.mp hbase.1

/-- Only the last type of a way is unknown, if any, so that a way is at most one type longer than the
list of types. -/
theorem length_met_ascend_le (c : Compilation) (id : TypeId) :
    (c.ascend id).met.length ≤ c.types.length + 1 := by
  have hknown : ∀ other ∈ (c.ascend id).met.dropLast, other ∈ c.typeIds := by
    intro other hother
    obtain ⟨front, rest, hsplit⟩ := List.append_of_mem hother
    obtain ⟨last, way⟩ : ∃ last, (c.ascend id).met = front ++ other :: (rest ++ [last]) := by
      have hne : (c.ascend id).met ≠ [] := by
        intro hnil
        rw [hnil] at hother
        exact absurd hother (by simp)
      refine ⟨(c.ascend id).met.getLast hne, ?_⟩
      rw [← List.cons_append, ← List.append_assoc, ← hsplit, List.dropLast_append_getLast hne]
    rw [mem_typeIds, ← isSome_type?, Option.isSome_iff_ne_none]
    intro unknown
    exact absurd (rest_eq_nil_of_unknown way unknown) (by simp)
  have hdistinct : (c.ascend id).met.dropLast.Nodup :=
    (nodup_met_ascend c id).sublist (List.dropLast_sublist _)
  have hle := (List.subperm_of_subset hdistinct hknown).length_le
  rw [List.length_dropLast, typeIds, List.length_map, List.length_range] at hle
  omega

/-! ### What the loops come to

Each lemma takes up a loop at some place on the way up and is by induction on what lies ahead.  The
type to be looked at next is the first one ahead, or where there is none the one that would be met
again. -/

/-- The search finds a type of the given name if there is one ahead. -/
theorem answerWithin_searchTurn (way : (c.ascend id).met = front ++ rest) :
    answerWithin (c.searchTurn marker) (rest.length + 1)
      ⟨front, rest.head?.or (c.ascend id).meetsAgain⟩ = some (rest.any (c.isNamed marker)) := by
  induction rest generalizing front with
  | nil =>
    rw [List.append_nil] at way
    refine answerWithin_answers ?_ 0
    cases hagain : (c.ascend id).meetsAgain with
    | none => rfl
    | some again =>
      have hvisited : again ∈ front := way ▸ mem_met_of_meetsAgain hagain
      simp [searchTurn, hvisited]
  | cons next rest ih =>
    have hfresh : next ∉ front := not_mem_front way
    rw [List.head?_cons, Option.some_or, List.any_cons]
    cases hs : c.type? next with
    | none =>
      obtain rfl := rest_eq_nil_of_unknown way hs
      refine answerWithin_answers ?_ _
      simp [searchTurn, hfresh, hs, isNamed]
    | some symbol =>
      by_cases hname : symbol.name = marker
      · refine answerWithin_answers ?_ _
        simp [searchTurn, hfresh, hs, hname, isNamed]
      · have hturn : c.searchTurn marker ⟨front, some next⟩ =
            .goesOn ⟨front ++ [next], symbol.base⟩ := by
          simp [searchTurn, hfresh, hs, hname]
        have hbase : symbol.base = rest.head?.or (c.ascend id).meetsAgain := by
          rw [← base?_of_met way, base?, hs, Option.bind_some]
        have hmiss : c.isNamed marker next = false := by simp [isNamed, hs, hname]
        rw [List.length_cons, answerWithin_goesOn hturn, hbase, hmiss, Bool.false_or]
        exact ih (by rw [way, List.append_assoc, List.singleton_append])

/-- The collection takes up all types that lie ahead. -/
theorem answerWithin_chainTurn {chain : List TypeId}
    (way : (c.ascend id).met = id :: chain ++ rest) :
    answerWithin c.chainTurn (rest.length + 1)
      ⟨id :: chain, chain, rest.head?.or (c.ascend id).meetsAgain⟩ = some (chain ++ rest) := by
  induction rest generalizing chain with
  | nil =>
    rw [List.append_nil] at way ⊢
    refine answerWithin_answers ?_ 0
    cases hagain : (c.ascend id).meetsAgain with
    | none => rfl
    | some again =>
      have hvisited : again ∈ id :: chain := way ▸ mem_met_of_meetsAgain hagain
      simp only [List.head?_nil, Option.none_or, chainTurn, if_pos hvisited]
  | cons next rest ih =>
    have hfresh : next ∉ id :: chain := not_mem_front way
    have hturn : c.chainTurn ⟨id :: chain, chain, some next⟩ =
        .goesOn ⟨id :: (chain ++ [next]), chain ++ [next], c.base? next⟩ := by
      rw [chainTurn, if_neg hfresh, List.cons_append]
    rw [List.head?_cons, Option.some_or, List.length_cons, answerWithin_goesOn hturn,
      base?_of_met way, ih (by simp [way]), List.append_assoc, List.singleton_append]

/-- The search for a circle finds the one that the way runs into, if it does. -/
theorem answerWithin_circleTurn (way : (c.ascend id).met = front ++ rest) :
    answerWithin c.circleTurn (rest.length + 1)
      ⟨front, rest.head?.or (c.ascend id).meetsAgain⟩ = some (c.loopAbove? id) := by
  induction rest generalizing front with
  | nil =>
    rw [List.append_nil] at way
    refine answerWithin_answers ?_ 0
    rw [loopAbove?, way, List.head?_nil, Option.none_or]
    cases hagain : (c.ascend id).meetsAgain with
    | none => rfl
    | some again =>
      obtain ⟨before, back, rfl⟩ := List.append_of_mem (way ▸ mem_met_of_meetsAgain hagain)
      have hbefore : again ∉ before := not_mem_front way
      have hposition : (before ++ again :: back).idxOf? again = some before.length := by
        rw [List.idxOf?_eq_some_iff]
        refine ⟨by simp, by simp, fun j hj hsame => hbefore ?_⟩
        rw [List.getElem_append_left hj] at hsame
        exact hsame ▸ List.getElem_mem hj
      have hcircle := dropWhile_ne_of_suffix (way ▸ nodup_met_ascend c id)
        (List.suffix_append before (again :: back))
      rw [Option.map_some, hcircle]
      simp only [circleTurn, hposition, List.drop_left]
  | cons next rest ih =>
    have hfresh : next ∉ front := not_mem_front way
    have hturn : c.circleTurn ⟨front, some next⟩ = .goesOn ⟨front ++ [next], c.base? next⟩ := by
      rw [circleTurn, List.idxOf?_eq_none_iff.mpr hfresh]
    rw [List.head?_cons, Option.some_or, List.length_cons, answerWithin_goesOn hturn,
      base?_of_met way]
    exact ih (by rw [way, List.append_assoc, List.singleton_append])

/-! ### The whole loops -/

variable {turns : Nat}

theorem answerWithin_searchFrom (start : Option TypeId) (enough : c.types.length + 2 ≤ turns) :
    answerWithin (c.searchTurn marker) turns (searchFrom start) = some (c.derives start marker) := by
  cases start with
  | none =>
    have hrun : answerWithin (c.searchTurn marker) 1 (searchFrom none) = some false := rfl
    exact answerWithin_of_le hrun (by omega)
  | some id =>
    have way : (c.ascend id).met = [] ++ (c.ascend id).met := (List.nil_append _).symm
    have hrun : _ = some ((c.ascend id).met.any (c.isNamed marker)) := answerWithin_searchTurn way
    have hhead : (c.ascend id).met.head? = some id := by rw [met_ascend, List.head?_cons]
    rw [hhead, Option.some_or] at hrun
    have hlength := length_met_ascend_le c id
    exact answerWithin_of_le hrun (by omega)

theorem answerWithin_collectAbove (id : TypeId) (enough : c.types.length + 2 ≤ turns) :
    answerWithin c.chainTurn turns (c.collectAbove id) = some (c.baseChain id) := by
  have way : (c.ascend id).met = [id] ++ c.baseChain id := met_ascend c id
  have hrun := answerWithin_chainTurn way
  rw [← base?_of_met (show _ = [] ++ id :: c.baseChain id from way)] at hrun
  have hlength := length_met_ascend_le c id
  rw [met_ascend, List.length_cons] at hlength
  exact answerWithin_of_le hrun (by omega)

theorem answerWithin_pathFrom (id : TypeId) (enough : c.types.length + 2 ≤ turns) :
    answerWithin c.circleTurn turns (c.pathFrom id) = some (c.loopAbove? id) := by
  have way : (c.ascend id).met = [id] ++ c.baseChain id := met_ascend c id
  have hrun := answerWithin_circleTurn way
  rw [← base?_of_met (show _ = [] ++ id :: c.baseChain id from way)] at hrun
  have hlength := length_met_ascend_le c id
  rw [met_ascend, List.length_cons] at hlength
  exact answerWithin_of_le hrun (by omega)

/-! ### Circles that lead back -/

/-- Above a type that lies in a circle everything leads back to it. -/
theorem InCircle.leads_back {other : TypeId} (circle : c.InCircle id)
    (above : Relation.ReflTransGen c.BaseLink id other) :
    Relation.TransGen c.BaseLink other id := by
  induction above with
  | refl => exact circle
  | @tail other base _ link ih =>
    -- A type has one base, so the links that lead back from it begin with `link`.
    obtain ⟨base', link', hback⟩ := Relation.TransGen.head'_iff.mp ih
    obtain rfl : base = base' := Option.some.inj (link.symm.trans link')
    exact Relation.TransGen.trans_right hback circle

/-- Links never leave the part of the way that begins with the type to be met again. -/
theorem mem_of_reflTransGen {again other : TypeId}
    (way : (c.ascend id).met = front ++ again :: rest)
    (hagain : (c.ascend id).meetsAgain = some again)
    (above : Relation.ReflTransGen c.BaseLink again other) : other ∈ again :: rest := by
  induction above with
  | refl => exact List.mem_cons_self
  | @tail other base _ link ih =>
    obtain ⟨before, back, hsplit⟩ := List.append_of_mem ih
    have hway : (c.ascend id).met = (front ++ before) ++ other :: back := by
      rw [way, hsplit, List.append_assoc]
    have hbase := base?_of_met hway
    rw [show c.base? other = some base from link, hagain] at hbase
    cases back with
    | nil =>
      obtain rfl : base = again := Option.some.inj hbase
      exact List.mem_cons_self
    | cons above back =>
      obtain rfl : base = above := Option.some.inj hbase
      rw [hsplit]
      simp

/-- A type lies in a circle exactly if it is the one that its own way up meets again. -/
theorem inCircle_iff_meetsAgain : c.InCircle id ↔ (c.ascend id).meetsAgain = some id := by
  constructor
  · intro circle
    cases hagain : (c.ascend id).meetsAgain with
    | none => exact absurd circle (meetsAgain_ascend_eq_none_iff.mp hagain).not_inCircle
    | some again =>
      obtain ⟨front, back, way⟩ := List.append_of_mem (mem_met_of_meetsAgain hagain)
      have hup : Relation.ReflTransGen c.BaseLink id again := by
        rw [reflTransGen_baseLink_iff, ← mem_met_ascend]
        exact mem_met_of_meetsAgain hagain
      have hmem := mem_of_reflTransGen way hagain (circle.leads_back hup).to_reflTransGen
      -- The way begins with `id`, which lies behind `front` as well, so that `front` is empty.
      have hdistinct := nodup_met_ascend c id
      rw [way] at hdistinct
      rw [met_ascend] at way
      cases front with
      | nil => exact congrArg some (List.cons.inj way).1.symm
      | cons first front =>
        obtain ⟨rfl, -⟩ := List.cons.inj way
        exact absurd rfl ((List.nodup_append.mp hdistinct).2.2 id List.mem_cons_self id hmem)
  · intro hagain
    have hlength : (c.ascendAmong c.typeIds id).met.length = (c.baseChain id).length + 1 := by
      rw [← ascend, met_ascend, List.length_cons]
    have hback := baseAfter_length_met c c.typeIds id
    rw [hlength, show (c.ascendAmong c.typeIds id).meetsAgain = some id from hagain] at hback
    exact transGen_baseLink_iff.mpr ⟨_, hback⟩

/-- The circle above a type holds that type exactly if the type lies in a circle. -/
theorem mem_loopAbove?_iff_inCircle :
    (∃ circle, c.loopAbove? id = some circle ∧ id ∈ circle) ↔ c.InCircle id := by
  rw [inCircle_iff_meetsAgain]
  constructor
  · rintro ⟨circle, hloop, hmem⟩
    rw [loopAbove?, Option.map_eq_some_iff] at hloop
    obtain ⟨again, hagain, rfl⟩ := hloop
    by_cases hsame : id = again
    · exact hsame ▸ hagain
    · have hdistinct := nodup_met_ascend c id
      rw [met_ascend] at hdistinct hmem
      rw [List.dropWhile_cons_of_pos (by simpa using hsame), List.mem_append,
        List.mem_singleton] at hmem
      have hchain := (List.dropWhile_sublist _).subset (hmem.resolve_right hsame)
      exact absurd hchain (List.nodup_cons.mp hdistinct).1
  · intro hagain
    refine ⟨_, by rw [loopAbove?, hagain, Option.map_some], ?_⟩
    simp

/-! ### The walks agree -/

/-- A type derives from a named one exactly if one of its bases has that name, or it has the name itself
and lies in a circle. -/
theorem derives_base_iff_baseChain_or_inCircle :
    c.derives (c.base? id) marker = true ↔
      (∃ base ∈ c.baseChain id, c.isNamed marker base = true) ∨
        c.InCircle id ∧ c.isNamed marker id = true := by
  rw [derives_base_iff, InCircle, transGen_baseLink_iff]
  constructor
  · rintro ⟨n, other, hother, named⟩
    by_cases hself : other = id
    · subst hself
      exact Or.inr ⟨⟨n, hother⟩, named⟩
    · exact Or.inl ⟨other, mem_baseChain.mpr ⟨hself, n + 1, hother⟩, named⟩
  · rintro (⟨base, hbase, named⟩ | ⟨⟨n, hn⟩, named⟩)
    · obtain ⟨hne, n, hn⟩ := mem_baseChain.mp hbase
      cases n with
      | zero => exact absurd (Option.some.inj hn).symm hne
      | succ n => exact ⟨n, base, hn, named⟩
    · exact ⟨n, id, hn, named⟩

/-- In any compilation, also where base links dangle or lead in a circle, all three loops give an
answer, and two turns more than there are types are enough for it.  These answers are the ones that the
walk `ascend` stands for.  The search from the base of a type finds a type of the given name exactly if
that name is found among the bases collected above the type, or the type itself has the name and lies
in the circle that is found. -/
theorem baseWalks_spec (c : Compilation) (id : TypeId) (marker : String) :
    ∃ found chain circle,
      (∀ turns, c.types.length + 2 ≤ turns →
        answerWithin (c.searchTurn marker) turns (searchFrom (c.base? id)) = some found ∧
          answerWithin c.chainTurn turns (c.collectAbove id) = some chain ∧
          answerWithin c.circleTurn turns (c.pathFrom id) = some circle) ∧
      (found = c.derives (c.base? id) marker ∧ chain = c.baseChain id ∧
        circle = c.loopAbove? id) ∧
      (found = true ↔
        (∃ base ∈ chain, c.isNamed marker base = true) ∨
          ∃ loop, circle = some loop ∧ id ∈ loop ∧ c.isNamed marker id = true) := by
  refine ⟨_, _, _, fun turns enough => ⟨answerWithin_searchFrom _ enough,
    answerWithin_collectAbove id enough, answerWithin_pathFrom id enough⟩, ⟨rfl, rfl, rfl⟩, ?_⟩
  rw [derives_base_iff_baseChain_or_inCircle, ← mem_loopAbove?_iff_inCircle]
  refine or_congr_right ?_
  constructor
  · rintro ⟨⟨loop, hloop, hmem⟩, named⟩
    exact ⟨loop, hloop, hmem, named⟩
  · rintro ⟨loop, hloop, hmem, named⟩
    exact ⟨⟨loop, hloop, hmem⟩, named⟩

end Compilation

end Companion
