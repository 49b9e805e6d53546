import Companion.Proofs.Model.Consistency
import Mathlib.Data.List.Chain
import Mathlib.Data.List.Perm.Subperm

/-!
# Chains of bases and the circles they run into

From a type base links lead on until they end or come to a type for the second time.  The bases met
on the way, and the circle that closes at its end, are told apart from everything else by what they
are, without a word on how the walk keeps account of the types that it has passed.

* `IsBaseChain`: the types met above a type, each once, nearest first.
* `IsCircleAbove`: a run of base links that ends where it begins and meets no other type twice.
* `isBaseChain_iff`, `isCircleAbove_iff`: the walk finds the only chain and the only circle there is.
* `baseCircles_spec`: there is a circle exactly if the sequence of bases has no end.
-/

namespace Companion.Compilation

open Relation

/-- The types above a type, nearest first: each is the base of the one before it, none comes twice,
the type itself is not among them, and no type that base links lead to is left out. -/
structure IsBaseChain (c : Compilation) (id : TypeId) (chain : List TypeId) : Prop where
  links : (id :: chain).IsChain c.BaseLink
  distinct : (id :: chain).Nodup
  complete : ∀ other, ReflTransGen c.BaseLink id other → other ∈ id :: chain

/-- A circle that the base links above a type run into: it ends with the type that it begins with, no
type comes twice otherwise, each is the base of the one before it, and before it closes it is the last
part of the way up. -/
structure IsCircleAbove (c : Compilation) (id : TypeId) (circle : List TypeId) : Prop where
  twoEntries : 2 ≤ circle.length
  closed : circle.head? = circle.getLast?
  distinct : circle.dropLast.Nodup
  links : circle.IsChain c.BaseLink
  wayUp : circle.dropLast <:+ id :: c.baseChain id

variable {c : Compilation} {id other : TypeId} {chain : List TypeId}

/-! ### Links on the way up -/

theorem reflTransGen_baseLink_iff :
    ReflTransGen c.BaseLink id other ↔ ∃ n, c.baseAfter n id = some other := by
  rw [reflTransGen_iff_eq_or_transGen, transGen_baseLink_iff]
  constructor
  · rintro (rfl | ⟨n, hn⟩)
    · exact ⟨0, rfl⟩
    · exact ⟨n + 1, hn⟩
  · rintro ⟨n, hn⟩
    cases n with
    | zero => exact Or.inl (Option.some.inj hn).symm
    | succ n => exact Or.inr ⟨n, hn⟩

/-- A run of base links is an initial part of the sequence. -/
theorem getElem?_of_isChain (links : (id :: chain).IsChain c.BaseLink) {n : Nat}
    (h : n < (id :: chain).length) : (id :: chain)[n]? = c.baseAfter n id := by
  induction chain generalizing id n with
  | nil =>
    obtain rfl : n = 0 := by simpa using h
    rfl
  | cons base chain ih =>
    obtain ⟨link, hrest⟩ := List.isChain_cons_cons.mp links
    cases n with
    | zero => rfl
    | succ n =>
      rw [List.getElem?_cons_succ, ih hrest (by simpa using h), baseAfter, link, Option.bind_some]

theorem baseAfter_succ (c : Compilation) (n : Nat) (id : TypeId) :
    c.baseAfter (n + 1) id = (c.baseAfter n id).bind c.base? := by
  have hone : c.baseAfter 1 = c.base? := by
    funext start
    rw [baseAfter]
    cases c.base? start <;> rfl
  rw [baseAfter_add, hone]

theorem getElem?_met_ascend {n : Nat} (h : n < (c.ascend id).met.length) :
    (c.ascend id).met[n]? = c.baseAfter n id :=
  getElem?_met_ascendAmong c c.typeIds id n h

theorem nodup_met_ascend (c : Compilation) (id : TypeId) : (c.ascend id).met.Nodup :=
  nodup_met_ascendAmong (nodup_typeIds c)

theorem isChain_met_ascend (c : Compilation) (id : TypeId) :
    (c.ascend id).met.IsChain c.BaseLink := by
  rw [List.isChain_iff_getElem]
  intro i hi
  have hi' : i < (c.ascend id).met.length := Nat.lt_of_succ_lt hi
  have hnext := getElem?_met_ascend hi
  rw [baseAfter_succ, ← getElem?_met_ascend hi', List.getElem?_eq_getElem hi,
    List.getElem?_eq_getElem hi', Option.bind_some] at hnext
  exact hnext.symm

/-- The type met last has for its base the type that would be met again. -/
theorem base?_of_getLast?_met {last : TypeId} (h : (c.ascend id).met.getLast? = some last) :
    c.base? last = (c.ascend id).meetsAgain := by
  obtain ⟨front, hfront⟩ := List.getLast?_eq_some_iff.mp h
  have hlength : (c.ascend id).met.length = front.length + 1 := by
    rw [hfront, List.length_append, List.length_singleton]
  have hlast : c.baseAfter front.length id = some last := by
    rw [← getElem?_met_ascend (by omega), hfront, List.getElem?_concat_length]
  have hagain : c.baseAfter (c.ascend id).met.length id = (c.ascend id).meetsAgain :=
    baseAfter_length_met c c.typeIds id
  rwa [hlength, baseAfter_succ, hlast, Option.bind_some] at hagain

/-! ### The chain of bases -/

theorem isBaseChain_baseChain (c : Compilation) (id : TypeId) :
    c.IsBaseChain id (c.baseChain id) := by
  have hmet := met_ascend c id
  refine ⟨hmet ▸ isChain_met_ascend c id, hmet ▸ nodup_met_ascend c id, ?_⟩
  intro other hreach
  rw [← hmet, mem_met_ascend]
  exact reflTransGen_baseLink_iff.mp hreach

/-- A chain of bases holds the types of the sequence. -/
theorem IsBaseChain.mem_iff (h : c.IsBaseChain id chain) :
    other ∈ id :: chain ↔ ∃ n, c.baseAfter n id = some other := by
  constructor
  · intro hmem
    obtain ⟨n, hn, hother⟩ := List.getElem_of_mem hmem
    refine ⟨n, ?_⟩
    rw [← getElem?_of_isChain h.links hn, List.getElem?_eq_getElem hn, hother]
  · intro hreach
    exact h.complete other (reflTransGen_baseLink_iff.mpr hreach)

/-- There is only one chain of bases. -/
theorem isBaseChain_iff : c.IsBaseChain id chain ↔ chain = c.baseChain id := by
  constructor
  · intro h
    have hwalk := isBaseChain_baseChain c id
    -- Both hold the same types once, so they are equally long, and links leave no choice.
    have hperm : (id :: chain).Perm (id :: c.baseChain id) := by
      rw [List.perm_ext_iff_of_nodup h.distinct hwalk.distinct]
      intro other
      rw [h.mem_iff, hwalk.mem_iff]
    have hsame : id :: chain = id :: c.baseChain id := by
      refine List.ext_getElem? fun n => ?_
      by_cases hn : n < (id :: chain).length
      · rw [getElem?_of_isChain h.links hn,
          getElem?_of_isChain hwalk.links (hperm.length_eq ▸ hn)]
      · rw [List.getElem?_eq_none (Nat.le_of_not_lt hn),
          List.getElem?_eq_none (hperm.length_eq ▸ Nat.le_of_not_lt hn)]
    exact (List.cons.inj hsame).2
  · rintro rfl
    exact isBaseChain_baseChain c id

/-! ### Circles -/

/-- In a list without repetitions the part that begins with an entry is what is left when all before
that entry is dropped. -/
theorem dropWhile_ne_of_suffix {l back : List TypeId} {first : TypeId} (distinct : l.Nodup)
    (h : first :: back <:+ l) : l.dropWhile (· ≠ first) = first :: back := by
  obtain ⟨front, rfl⟩ := h
  have hfront : ∀ x ∈ front, decide (x ≠ first) = true := by
    intro x hx
    rw [decide_eq_true_iff]
    exact (List.nodup_append.mp distinct).2.2 x hx first List.mem_cons_self
  rw [List.dropWhile_append_of_pos hfront, List.dropWhile_cons]
  simp

/-- The circle that the walk finds is one. -/
theorem isCircleAbove_of_loopAbove? {circle : List TypeId}
    (h : c.loopAbove? id = some circle) : c.IsCircleAbove id circle := by
  rw [loopAbove?, Option.map_eq_some_iff] at h
  obtain ⟨again, hagain, rfl⟩ := h
  have hdistinct := nodup_met_ascend c id
  have hmet : again ∈ (c.ascend id).met := by
    have hspec := met_of_meetsAgain hagain
    exact hspec.2 ((mem_typeIds c again).mpr ((isSome_type? c again).mp hspec.1))
  obtain ⟨front, back, hsplit⟩ := List.append_of_mem hmet
  have hsuffix : again :: back <:+ (c.ascend id).met := ⟨front, hsplit.symm⟩
  rw [dropWhile_ne_of_suffix hdistinct hsuffix]
  have hdrop : (again :: back ++ [again]).dropLast = again :: back := List.dropLast_concat
  refine ⟨by simp, ?_, ?_, ?_, ?_⟩
  · rw [List.getLast?_concat, List.cons_append, List.head?_cons]
  · rw [hdrop]
    exact hdistinct.sublist hsuffix.sublist
  · rw [List.isChain_append]
    refine ⟨(isChain_met_ascend c id).suffix hsuffix, List.isChain_singleton again, ?_⟩
    rintro last hlast _ ⟨⟩
    have hend : (c.ascend id).met.getLast? = some last := by
      rw [hsplit, List.getLast?_append, hlast, Option.some_or]
    exact (base?_of_getLast?_met hend).trans hagain
  · rw [hdrop, ← met_ascend]
    exact hsuffix

/-- There is only one circle that the base links above a type run into, and the walk finds it. -/
theorem isCircleAbove_iff {circle : List TypeId} :
    c.IsCircleAbove id circle ↔ c.loopAbove? id = some circle := by
  constructor
  · intro h
    have hne : circle ≠ [] := by
      rintro rfl
      exact absurd h.twoEntries (by simp)
    obtain ⟨way, last, rfl⟩ := (List.eq_nil_or_concat circle).resolve_left hne
    rw [List.concat_eq_append] at h ⊢
    have hway := h.wayUp
    have hlinks := h.links
    have hclosed := h.closed
    rw [List.dropLast_concat, ← met_ascend] at hway
    rw [List.isChain_append] at hlinks
    obtain ⟨first, back, rfl⟩ : ∃ first back, way = first :: back := by
      cases way with
      | nil => exact absurd h.twoEntries (by simp)
      | cons first back => exact ⟨first, back, rfl⟩
    obtain rfl : first = last := by
      rw [List.getLast?_concat, List.cons_append, List.head?_cons] at hclosed
      exact Option.some.inj hclosed
    -- The last type before the circle closes is the last one of the walk.
    obtain ⟨top, htop⟩ : ∃ top, (first :: back).getLast? = some top :=
      ⟨_, List.getLast?_eq_some_getLast (List.cons_ne_nil first back)⟩
    have hagain : (c.ascend id).meetsAgain = some first := by
      obtain ⟨front, hfront⟩ := hway
      have hlast : (c.ascend id).met.getLast? = some top := by
        rw [← hfront, List.getLast?_append, htop, Option.some_or]
      rw [← base?_of_getLast?_met hlast]
      exact hlinks.2.2 top htop first rfl
    rw [loopAbove?, hagain, Option.map_some,
      dropWhile_ne_of_suffix (nodup_met_ascend c id) hway]
  · exact isCircleAbove_of_loopAbove?

/-- In any compilation, also where base links dangle or lead in a circle: no circle is found exactly if
the sequence of bases ends, and what is found otherwise is the circle that it runs into.  The bases that
are found are the types met on the way, each once and nearest first. -/
theorem baseCircles_spec (c : Compilation) (id : TypeId) :
    (c.loopAbove? id = none ↔ c.ChainEnds id) ∧
      (∀ circle, c.loopAbove? id = some circle ↔ c.IsCircleAbove id circle) ∧
      ∀ chain, c.baseChain id = chain ↔ c.IsBaseChain id chain := by
  refine ⟨loopAbove?_eq_none_iff, fun circle => isCircleAbove_iff.symm, fun chain => ?_⟩
  rw [isBaseChain_iff, eq_comm]

end Companion.Compilation
