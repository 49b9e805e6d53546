import Companion.Model.Ancestry
import Mathlib.Data.List.Nodup
import Mathlib.Logic.Relation

/-!
# Following base links

The types above a type are the sequence that starts at it and follows base links.  The sequence ends
or runs into a circle.  Here the walk `ascend` is told in terms of this sequence.

* `baseAfter`: the type reached by a number of base links.
* `ChainEnds`: the sequence from a type comes to an end.
* `mem_met_ascend`: the walk meets exactly the types of the sequence.
* `meetsAgain_ascend_eq_none_iff`: it meets a type again exactly if the sequence has no end.
* `derives_base_iff`: deriving from a named type is to reach one by one or more links.
* `transGen_baseLink_iff`: what one or more links lead to is what the sequence comes to.
-/

namespace Companion.Compilation

/-- The type reached from `id` by `n` base links. -/
def baseAfter (c : Compilation) : Nat → TypeId → Option TypeId
  | 0, id => some id
  | n + 1, id => (c.base? id).bind (c.baseAfter n)

/-- The sequence of base links from `id` comes to an end. -/
def ChainEnds (c : Compilation) (id : TypeId) : Prop :=
  ∃ n, c.baseAfter n id = none

variable {c : Compilation} {id other : TypeId}

/-! ### The sequence -/

theorem baseAfter_add (c : Compilation) (m n : Nat) (id : TypeId) :
    c.baseAfter (m + n) id = (c.baseAfter m id).bind (c.baseAfter n) := by
  induction m generalizing id with
  | zero => simp [baseAfter]
  | succ m ih =>
    rw [Nat.succ_add, baseAfter, baseAfter, Option.bind_assoc]
    congr 1
    funext base
    exact ih base

theorem baseAfter_eq_none_of_le {m n : Nat} (h : c.baseAfter m id = none) (hmn : m ≤ n) :
    c.baseAfter n id = none := by
  obtain ⟨k, rfl⟩ := Nat.exists_eq_add_of_le hmn
  rw [baseAfter_add, h, Option.bind_none]

/-- What lies above a type whose sequence ends has a sequence that ends. -/
theorem ChainEnds.of_baseAfter (ends : c.ChainEnds id) {n : Nat}
    (h : c.baseAfter n id = some other) : c.ChainEnds other := by
  obtain ⟨m, hm⟩ := ends
  refine ⟨m, ?_⟩
  have hnone : c.baseAfter (n + m) id = none := baseAfter_eq_none_of_le hm (Nat.le_add_left m n)
  rwa [baseAfter_add, h, Option.bind_some] at hnone

/-- A type that comes back to itself does so any number of times. -/
theorem baseAfter_mul {n : Nat} (h : c.baseAfter n id = some id) (k : Nat) :
    c.baseAfter (k * n) id = some id := by
  induction k with
  | zero => rw [Nat.zero_mul, baseAfter]
  | succ k ih => rw [Nat.succ_mul, baseAfter_add, ih, Option.bind_some, h]

theorem ChainEnds.baseAfter_succ_ne (ends : c.ChainEnds id) (n : Nat) :
    c.baseAfter (n + 1) id ≠ some id := by
  intro back
  obtain ⟨m, hm⟩ := ends
  have hle : m ≤ m * (n + 1) := Nat.le_mul_of_pos_right m (Nat.succ_pos n)
  have hnone := baseAfter_eq_none_of_le hm hle
  rw [baseAfter_mul back m] at hnone
  exact absurd hnone (by simp)

/-! ### The walk among some types

Each lemma is by the cases of the walk: an unknown type, a type without a base, a type with a base,
and a type that has been met before. -/

/-- What the walk meets is an initial part of the sequence. -/
theorem getElem?_met_ascendAmong (c : Compilation) (unmet : List TypeId) (id : TypeId) (n : Nat)
    (h : n < (c.ascendAmong unmet id).met.length) :
    (c.ascendAmong unmet id).met[n]? = c.baseAfter n id := by
  induction unmet, id using ascendAmong.induct c generalizing n with
  | case1 unmet id unknown =>
    rw [ascendAmong_unknown unknown] at h ⊢
    obtain rfl : n = 0 := by simpa using h
    rfl
  | case2 unmet id symbol known hm rootless =>
    rw [ascendAmong_rootless known rootless hm] at h ⊢
    obtain rfl : n = 0 := by simpa using h
    rfl
  | case3 unmet id symbol known hm base hb ih =>
    rw [ascendAmong_base known hb hm] at h ⊢
    cases n with
    | zero => rfl
    | succ n =>
      rw [List.getElem?_cons_succ, ih n (by simpa using h), baseAfter, base?, known]
      simp [hb]
  | case4 unmet id symbol known hm =>
    rw [ascendAmong_again known hm] at h
    simp at h

/-- The sequence goes on with the type that is met again, if there is one. -/
theorem baseAfter_length_met (c : Compilation) (unmet : List TypeId) (id : TypeId) :
    c.baseAfter (c.ascendAmong unmet id).met.length id = (c.ascendAmong unmet id).meetsAgain := by
  induction unmet, id using ascendAmong.induct c with
  | case1 unmet id unknown =>
    rw [ascendAmong_unknown unknown]
    simp [baseAfter, base?, unknown]
  | case2 unmet id symbol known hm rootless =>
    rw [ascendAmong_rootless known rootless hm]
    simp [baseAfter, base?, known, rootless]
  | case3 unmet id symbol known hm base hb ih =>
    rw [ascendAmong_base known hb hm, List.length_cons, baseAfter, base?, known]
    simpa [hb] using ih
  | case4 unmet id symbol known hm =>
    rw [ascendAmong_again known hm]
    rfl

/-- A known type is met only where it has not been met before. -/
theorem mem_of_mem_met_ascendAmong {unmet : List TypeId}
    (h : other ∈ (c.ascendAmong unmet id).met) (known : (c.type? other).isSome = true) :
    other ∈ unmet := by
  induction unmet, id using ascendAmong.induct c with
  | case1 unmet id unknown =>
    rw [ascendAmong_unknown unknown, List.mem_singleton] at h
    subst h
    rw [unknown] at known
    exact absurd known (by simp)
  | case2 unmet id symbol found hm rootless =>
    rw [ascendAmong_rootless found rootless hm, List.mem_singleton] at h
    exact h ▸ hm
  | case3 unmet id symbol found hm base hb ih =>
    rw [ascendAmong_base found hb hm, List.mem_cons] at h
    rcases h with rfl | h
    · exact hm
    · exact List.mem_of_mem_erase (ih h)
  | case4 unmet id symbol found hm =>
    rw [ascendAmong_again found hm] at h
    exact absurd h (by simp)

theorem nodup_met_ascendAmong {unmet : List TypeId} (distinct : unmet.Nodup) :
    (c.ascendAmong unmet id).met.Nodup := by
  induction unmet, id using ascendAmong.induct c with
  | case1 unmet id unknown =>
    rw [ascendAmong_unknown unknown]
    exact List.nodup_singleton id
  | case2 unmet id symbol known hm rootless =>
    rw [ascendAmong_rootless known rootless hm]
    exact List.nodup_singleton id
  | case3 unmet id symbol known hm base hb ih =>
    rw [ascendAmong_base known hb hm, List.nodup_cons]
    refine ⟨fun back => ?_, ih (distinct.erase id)⟩
    have hback := mem_of_mem_met_ascendAmong back (by simp [known])
    exact distinct.not_mem_erase hback
  | case4 unmet id symbol known hm =>
    rw [ascendAmong_again known hm]
    exact List.nodup_nil

/-- A type that is met again is known and has been met. -/
theorem met_of_meetsAgain {unmet : List TypeId}
    (h : (c.ascendAmong unmet id).meetsAgain = some other) :
    (c.type? other).isSome = true ∧ (other ∈ unmet → other ∈ (c.ascendAmong unmet id).met) := by
  induction unmet, id using ascendAmong.induct c with
  | case1 unmet id unknown =>
    rw [ascendAmong_unknown unknown] at h
    exact absurd h (by simp)
  | case2 unmet id symbol known hm rootless =>
    rw [ascendAmong_rootless known rootless hm] at h
    exact absurd h (by simp)
  | case3 unmet id symbol known hm base hb ih =>
    rw [ascendAmong_base known hb hm] at h ⊢
    refine ⟨(ih h).1, fun hu => ?_⟩
    by_cases he : other = id
    · exact he ▸ List.mem_cons_self
    · exact List.mem_cons_of_mem _ ((ih h).2 ((List.mem_erase_of_ne he).mpr hu))
  | case4 unmet id symbol known hm =>
    rw [ascendAmong_again known hm] at h
    obtain rfl : id = other := by simpa using h
    exact ⟨by simp [known], fun hu => absurd hu hm⟩

/-! ### The whole walk -/

theorem nodup_typeIds (c : Compilation) : c.typeIds.Nodup := by
  refine List.Nodup.map ?_ List.nodup_range
  intro i j h
  exact TypeId.mk.inj h

/-- A walk that meets a type again comes to it at two places of the sequence. -/
theorem exists_baseAfter_of_meetsAgain {again : TypeId}
    (h : (c.ascend id).meetsAgain = some again) :
    ∃ k, k < (c.ascend id).met.length ∧ c.baseAfter k id = some again ∧
      c.baseAfter (c.ascend id).met.length id = some again := by
  have hmet : again ∈ (c.ascend id).met := by
    have hspec := met_of_meetsAgain h
    exact hspec.2 ((mem_typeIds c again).mpr ((isSome_type? c again).mp hspec.1))
  obtain ⟨k, hk, hak⟩ := List.getElem_of_mem hmet
  refine ⟨k, hk, ?_, (baseAfter_length_met c c.typeIds id).trans h⟩
  rw [← getElem?_met_ascendAmong c c.typeIds id k hk]
  exact List.getElem?_eq_some_iff.mpr ⟨hk, hak⟩

/-- A walk that meets a type again has met all types of the sequence. -/
theorem exists_mem_met_of_meetsAgain {again : TypeId}
    (h : (c.ascend id).meetsAgain = some again) (n : Nat) :
    ∃ y ∈ (c.ascend id).met, c.baseAfter n id = some y := by
  obtain ⟨k, hk, hagain, hlast⟩ := exists_baseAfter_of_meetsAgain h
  -- The sequence repeats itself from `k` on, so a late position has an earlier twin.
  induction n using Nat.strongRecOn with
  | ind n ih =>
    by_cases hn : n < (c.ascend id).met.length
    · refine ⟨(c.ascend id).met[n], List.getElem_mem hn, ?_⟩
      rw [← getElem?_met_ascendAmong c c.typeIds id n hn]
      exact List.getElem?_eq_getElem hn
    · obtain ⟨j, hj⟩ := Nat.exists_eq_add_of_le (Nat.le_of_not_lt hn)
      have htwin : c.baseAfter n id = c.baseAfter (k + j) id := by
        rw [hj, baseAfter_add, hlast, baseAfter_add, hagain]
      rw [htwin]
      exact ih (k + j) (by omega)

/-- The walk meets a type again exactly if the sequence has no end. -/
theorem meetsAgain_ascend_eq_none_iff : (c.ascend id).meetsAgain = none ↔ c.ChainEnds id := by
  constructor
  · intro h
    exact ⟨_, (baseAfter_length_met c c.typeIds id).trans h⟩
  · intro hall
    obtain ⟨n, hn⟩ := hall
    cases h : (c.ascend id).meetsAgain with
    | none => rfl
    | some again =>
      obtain ⟨y, -, hy⟩ := exists_mem_met_of_meetsAgain h n
      rw [hn] at hy
      exact absurd hy (by simp)

/-- The walk meets exactly the types of the sequence. -/
theorem mem_met_ascend : other ∈ (c.ascend id).met ↔ ∃ n, c.baseAfter n id = some other := by
  constructor
  · intro h
    obtain ⟨n, hn, hother⟩ := List.getElem_of_mem h
    refine ⟨n, ?_⟩
    rw [← getElem?_met_ascendAmong c c.typeIds id n hn]
    exact List.getElem?_eq_some_iff.mpr ⟨hn, hother⟩
  · intro hall
    obtain ⟨n, hn⟩ := hall
    cases h : (c.ascend id).meetsAgain with
    | some again =>
      obtain ⟨y, hy, hny⟩ := exists_mem_met_of_meetsAgain h n
      obtain rfl : other = y := Option.some.inj (hn.symm.trans hny)
      exact hy
    | none =>
      have hend := (baseAfter_length_met c c.typeIds id).trans h
      have hlt : n < (c.ascend id).met.length := by
        by_contra hge
        rw [baseAfter_eq_none_of_le hend (Nat.le_of_not_lt hge)] at hn
        exact absurd hn (by simp)
      have hget := (getElem?_met_ascendAmong c c.typeIds id n hlt).trans hn
      exact List.mem_of_getElem? hget

/-- The walk begins with the type it starts at. -/
theorem met_ascend (c : Compilation) (id : TypeId) :
    (c.ascend id).met = id :: c.baseChain id := by
  have hne : 0 < (c.ascend id).met.length :=
    List.length_pos_of_mem (mem_met_ascend.mpr ⟨0, rfl⟩)
  have hhead := getElem?_met_ascendAmong c c.typeIds id 0 hne
  change (c.ascend id).met[0]? = some id at hhead
  unfold baseChain
  cases hm : (c.ascend id).met with
  | nil => rw [hm] at hhead; exact absurd hhead (by simp)
  | cons first rest =>
    rw [hm] at hhead
    obtain rfl : first = id := by simpa using hhead
    rfl

/-- The bases of a type are the other types of its sequence. -/
theorem mem_baseChain :
    other ∈ c.baseChain id ↔ other ≠ id ∧ ∃ n, c.baseAfter n id = some other := by
  have hnodup : (c.ascend id).met.Nodup := nodup_met_ascendAmong (nodup_typeIds c)
  rw [← mem_met_ascend, met_ascend, List.mem_cons]
  rw [met_ascend, List.nodup_cons] at hnodup
  constructor
  · intro h
    exact ⟨fun he => hnodup.1 (he ▸ h), Or.inr h⟩
  · intro hall
    obtain ⟨hne, he | h⟩ := hall
    · exact absurd he hne
    · exact h

/-! ### Deriving from a named type -/

/-- A type derives from a named one exactly if one or more links lead there. -/
theorem derives_base_iff {marker : String} :
    c.derives (c.base? id) marker = true ↔
      ∃ n other, c.baseAfter (n + 1) id = some other ∧ c.isNamed marker other = true := by
  cases hb : c.base? id with
  | none => simp [derives, baseAfter, hb]
  | some base =>
    simp only [derives, Option.any_some, List.any_eq_true, mem_met_ascend, baseAfter, hb,
      Option.bind_some]
    constructor
    · intro hall
      obtain ⟨other, ⟨n, hn⟩, named⟩ := hall
      exact ⟨n, other, hn, named⟩
    · intro hall
      obtain ⟨n, other, hn, named⟩ := hall
      exact ⟨other, ⟨n, hn⟩, named⟩

/-- Above a type whose sequence ends the walk from its base meets its bases and nothing else. -/
theorem ChainEnds.derives_base_iff (ends : c.ChainEnds id) {marker : String} :
    c.derives (c.base? id) marker = true ↔
      ∃ base ∈ c.baseChain id, c.isNamed marker base = true := by
  rw [Compilation.derives_base_iff]
  constructor
  · intro hall
    obtain ⟨n, base, hn, named⟩ := hall
    refine ⟨base, mem_baseChain.mpr ⟨?_, n + 1, hn⟩, named⟩
    rintro rfl
    exact ends.baseAfter_succ_ne n hn
  · intro hall
    obtain ⟨base, hbase, named⟩ := hall
    obtain ⟨hne, n, hn⟩ := mem_baseChain.mp hbase
    cases n with
    | zero => exact absurd (Option.some.inj hn).symm hne
    | succ n => exact ⟨n, base, hn, named⟩

/-! ### Single links -/

/-- A base link leads from one type to another. -/
def BaseLink (c : Compilation) (id base : TypeId) : Prop :=
  c.base? id = some base

/-- What one or more links lead to is what the sequence comes to. -/
theorem transGen_baseLink_iff :
    Relation.TransGen c.BaseLink id other ↔ ∃ n, c.baseAfter (n + 1) id = some other := by
  constructor
  · intro h
    induction h with
    | single link =>
      refine ⟨0, ?_⟩
      rw [baseAfter, link, Option.bind_some, baseAfter]
    | tail _ link ih =>
      obtain ⟨n, hn⟩ := ih
      refine ⟨n + 1, ?_⟩
      rw [baseAfter_add, hn, Option.bind_some, baseAfter, link, Option.bind_some, baseAfter]
  · intro hall
    obtain ⟨n, hn⟩ := hall
    induction n generalizing id with
    | zero =>
      rw [baseAfter, Option.bind_eq_some_iff] at hn
      obtain ⟨base, link, hbase⟩ := hn
      obtain rfl := Option.some.inj hbase
      exact .single link
    | succ n ih =>
      rw [baseAfter, Option.bind_eq_some_iff] at hn
      obtain ⟨base, link, hbase⟩ := hn
      exact .head link (ih hbase)

end Companion.Compilation
