import Companion.Proofs.Model.Consistency
import Companion.Proofs.Model.Symbols

/-!
# The verdict on a compilation

The check passes over types that are known to run into no circle, and it counts the parts of all
types in one pass.  What it comes to is told here type by type.

* `Revisits`: base links lead from a type to some type twice.
* `IsConsistent`: everything has a name, base links come to no type twice, and what is split into
  parts is marked `partial` throughout.
* `IsFirst`: the type with the lowest position that has a property.
* `FirstInconsistency`: names come before base types and these before parts, and in each the lowest
  position counts.
* `check_spec`: a compilation is accepted exactly if it is consistent, and otherwise the first
  inconsistency is reported.
-/

namespace Companion.Compilation

variable {c : Compilation} {id : TypeId} {found : Inconsistency}

/-! ### Circles -/

/-- Following base links from a type comes to some type twice. -/
def Revisits (c : Compilation) (id : TypeId) : Prop :=
  ∃ m n other, m < n ∧ c.baseAfter m id = some other ∧ c.baseAfter n id = some other

theorem revisits_iff_not_chainEnds : c.Revisits id ↔ ¬ c.ChainEnds id := by
  constructor
  · intro h ends
    obtain ⟨m, n, other, hmn, hm, hn⟩ := h
    obtain ⟨k, rfl⟩ := Nat.exists_eq_add_of_lt hmn
    rw [Nat.add_assoc, baseAfter_add, hm, Option.bind_some] at hn
    exact (ends.of_baseAfter hm).baseAfter_succ_ne k hn
  · intro h
    rw [← meetsAgain_ascend_eq_none_iff, ← ne_eq, Option.ne_none_iff_exists'] at h
    obtain ⟨again, hagain⟩ := h
    obtain ⟨k, hk, hfirst, hlast⟩ := exists_baseAfter_of_meetsAgain hagain
    exact ⟨k, _, again, hk, hfirst, hlast⟩

theorem not_revisits_iff : ¬ c.Revisits id ↔ c.ChainEnds id := by
  rw [revisits_iff_not_chainEnds, not_not]

/-! ### First types -/

/-- The type with the lowest position that has a property. -/
structure IsFirst (c : Compilation) (p : TypeId → Prop) (id : TypeId) : Prop where
  known : id ∈ c.typeIds
  holds : p id
  none_before : ∀ other ∈ c.typeIds, other.index < id.index → ¬ p other

theorem pairwise_typeIds (c : Compilation) : c.typeIds.Pairwise (·.index < ·.index) :=
  List.pairwise_map.mpr List.pairwise_lt_range

theorem isFirst_iff_split {p : TypeId → Prop} :
    c.IsFirst p id ↔ p id ∧ ∃ front back, c.typeIds = front ++ id :: back ∧
      ∀ other ∈ front, ¬ p other := by
  have hsorted := c.pairwise_typeIds
  constructor
  · intro h
    obtain ⟨front, back, hsplit⟩ := List.append_of_mem h.known
    refine ⟨h.holds, front, back, hsplit, ?_⟩
    intro other hother
    rw [hsplit, List.pairwise_append] at hsorted
    refine h.none_before other ?_ (hsorted.2.2 other hother id List.mem_cons_self)
    rw [hsplit]
    exact List.mem_append_left _ hother
  · intro hall
    obtain ⟨hp, front, back, hsplit, hfront⟩ := hall
    refine ⟨?_, hp, ?_⟩
    · rw [hsplit]
      exact List.mem_append_right _ List.mem_cons_self
    · intro other hmem hlt
      rw [hsplit, List.pairwise_append, List.pairwise_cons] at hsorted
      rw [hsplit, List.mem_append, List.mem_cons] at hmem
      rcases hmem with hmem | rfl | hmem
      · exact hfront other hmem
      · exact absurd hlt (Nat.lt_irrefl _)
      · have hgt := hsorted.2.1.1 other hmem
        omega

theorem find?_typeIds_eq_some_iff {p : TypeId → Bool} :
    c.typeIds.find? p = some id ↔ c.IsFirst (p · = true) id := by
  rw [List.find?_eq_some_iff_append, isFirst_iff_split]
  simp

theorem isFirst_congr {p q : TypeId → Prop} (h : ∀ other ∈ c.typeIds, p other ↔ q other) :
    c.IsFirst p id ↔ c.IsFirst q id := by
  have hone : ∀ {p q : TypeId → Prop}, (∀ other ∈ c.typeIds, p other ↔ q other) →
      c.IsFirst p id → c.IsFirst q id := by
    intro p q h hfirst
    refine ⟨hfirst.known, (h id hfirst.known).mp hfirst.holds, ?_⟩
    intro other hmem hlt
    rw [← h other hmem]
    exact hfirst.none_before other hmem hlt
  exact ⟨hone h, hone fun other hmem => (h other hmem).symm⟩

theorem findSome?_typeIds_eq_some_iff {α : Type} {f : TypeId → Option α} {value : α} :
    c.typeIds.findSome? f = some value ↔
      ∃ id, c.IsFirst (fun other => f other ≠ none) id ∧ f id = some value := by
  rw [List.findSome?_eq_some_iff]
  simp only [isFirst_iff_split, not_not]
  constructor
  · intro hall
    obtain ⟨front, id, back, hsplit, hvalue, hfront⟩ := hall
    exact ⟨id, ⟨by simp [hvalue], front, back, hsplit, hfront⟩, hvalue⟩
  · intro hall
    obtain ⟨id, ⟨-, front, back, hsplit, hfront⟩, hvalue⟩ := hall
    exact ⟨front, id, back, hsplit, hvalue, hfront⟩

/-! ### What is consistent -/

/-- Every scope has a name. -/
def NamesScopes (c : Compilation) : Prop :=
  ∀ symbol ∈ c.namespaces, symbol.name ≠ ""

/-- Every type has a name. -/
def NamesTypes (c : Compilation) : Prop :=
  ∀ id ∈ c.typeIds, c.isNamed "" id = false

/-- Nothing is wrong with a compilation. -/
structure IsConsistent (c : Compilation) : Prop where
  namesScopes : c.NamesScopes
  namesTypes : c.NamesTypes
  noCircle : ∀ id ∈ c.typeIds, ¬ c.Revisits id
  allPartial : ∀ id ∈ c.typeIds, 2 ≤ (c.declarationsOf id).length →
    ∀ d ∈ c.declarationsOf id, d.isPartial = true

/-- The first thing that is wrong with a compilation. -/
inductive FirstInconsistency (c : Compilation) : Inconsistency → Prop
  | emptyNamespaceName {id : NamespaceId} {symbol : NamespaceSymbol}
      (known : c.namespace? id = some symbol) (empty : symbol.name = "")
      (first : ∀ other symbol', other.index < id.index → c.namespace? other = some symbol' →
        symbol'.name ≠ "") :
      FirstInconsistency c (.emptyNamespaceName (c.pathOf? symbol.parent))
  | emptyTypeName {id : TypeId} (scopes : c.NamesScopes)
      (first : c.IsFirst (fun other => c.isNamed "" other = true) id) :
      FirstInconsistency c (.emptyTypeName id)
  | circularInheritance {id : TypeId} {loop : List TypeId} (scopes : c.NamesScopes)
      (types : c.NamesTypes) (first : c.IsFirst c.Revisits id) (above : c.loopAbove? id = some loop) :
      FirstInconsistency c (.circularInheritance (loop.map c.fullName))
  | missingPartial {id : TypeId} (scopes : c.NamesScopes) (types : c.NamesTypes)
      (noCircle : ∀ other ∈ c.typeIds, ¬ c.Revisits other)
      (first : c.IsFirst c.LacksPartial id) :
      FirstInconsistency c (.missingPartial (c.fullName id))

/-! ### The four checks -/

theorem emptyNamespaceName?_eq_none_iff : c.emptyNamespaceName? = none ↔ c.NamesScopes := by
  rw [emptyNamespaceName?, Option.map_eq_none_iff, List.find?_eq_none, NamesScopes]
  simp

theorem emptyNamespaceName?_eq_some_iff :
    c.emptyNamespaceName? = some found ↔ ∃ id symbol, c.namespace? id = some symbol ∧
      symbol.name = "" ∧ (∀ other symbol', other.index < id.index →
        c.namespace? other = some symbol' → symbol'.name ≠ "") ∧
      found = .emptyNamespaceName (c.pathOf? symbol.parent) := by
  rw [emptyNamespaceName?, Option.map_eq_some_iff]
  simp only [List.find?_eq_some_iff_getElem]
  constructor
  · intro hall
    obtain ⟨symbol, ⟨hempty, i, hi, rfl, hfirst⟩, rfl⟩ := hall
    refine ⟨⟨i⟩, _, List.getElem?_eq_getElem hi, by simpa using hempty, ?_, rfl⟩
    intro other symbol' hlt hother
    obtain ⟨ho, rfl⟩ := List.getElem?_eq_some_iff.mp hother
    simpa using hfirst other.index hlt
  · intro hall
    obtain ⟨id, symbol, hknown, hempty, hfirst, rfl⟩ := hall
    obtain ⟨hi, rfl⟩ := List.getElem?_eq_some_iff.mp hknown
    refine ⟨_, ⟨by simpa using hempty, id.index, hi, rfl, ?_⟩, rfl⟩
    intro j hj
    have hne := hfirst ⟨j⟩ _ hj (List.getElem?_eq_getElem (Nat.lt_trans hj hi))
    simpa using hne

theorem emptyTypeName?_eq (c : Compilation) :
    c.emptyTypeName? = (c.typeIds.find? (c.isNamed "")).map .emptyTypeName := by
  have hfind := c.findIdx?_types_eq_find? (·.name.isEmpty)
  have hnamed : (fun id => (c.type? id).any (·.name.isEmpty)) = c.isNamed "" := by
    funext id
    rw [isNamed]
    congr 1
    funext symbol
    rw [Bool.eq_iff_iff, String.isEmpty_iff, decide_eq_true_iff]
  rw [hnamed] at hfind
  rw [emptyTypeName?, ← hfind, Option.map_map]
  rfl

theorem emptyTypeName?_eq_none_iff : c.emptyTypeName? = none ↔ c.NamesTypes := by
  rw [emptyTypeName?_eq, Option.map_eq_none_iff, List.find?_eq_none, NamesTypes]
  simp

theorem emptyTypeName?_eq_some_iff :
    c.emptyTypeName? = some found ↔
      ∃ id, c.IsFirst (fun other => c.isNamed "" other = true) id ∧ found = .emptyTypeName id := by
  rw [emptyTypeName?_eq, Option.map_eq_some_iff]
  simp only [find?_typeIds_eq_some_iff]
  exact exists_congr fun id => and_congr_right fun _ => eq_comm

theorem circularInheritance?_eq_some_iff :
    c.circularInheritance? = some found ↔ ∃ id loop, c.IsFirst c.Revisits id ∧
      c.loopAbove? id = some loop ∧ found = .circularInheritance (loop.map c.fullName) := by
  have hrevisits : (fun other => c.loopAbove? other ≠ none) = c.Revisits := by
    funext other
    rw [ne_eq, loopAbove?_eq_none_iff, revisits_iff_not_chainEnds]
  rw [circularInheritance?, Option.map_eq_some_iff, firstLoop?_eq_findSome? (by simp)]
  simp only [findSome?_typeIds_eq_some_iff, hrevisits]
  constructor
  · intro hall
    obtain ⟨loop, ⟨id, hfirst, hloop⟩, rfl⟩ := hall
    exact ⟨id, loop, hfirst, hloop, rfl⟩
  · intro hall
    obtain ⟨id, loop, hfirst, hloop, rfl⟩ := hall
    exact ⟨loop, ⟨id, hfirst, hloop⟩, rfl⟩

theorem missingPartial?_eq_some_iff :
    c.missingPartial? = some found ↔
      ∃ id, c.IsFirst c.LacksPartial id ∧ found = .missingPartial (c.fullName id) := by
  rw [missingPartial?, Option.map_eq_some_iff]
  simp only [find?_typeIds_eq_some_iff, lacksPartial_tally_iff]
  exact exists_congr fun id => and_congr_right fun _ => eq_comm

/-! ### The whole check -/

theorem inconsistency?_eq_none_iff_isConsistent :
    c.inconsistency? = none ↔ c.IsConsistent := by
  rw [inconsistency?_eq_none_iff, emptyNamespaceName?_eq_none_iff, emptyTypeName?_eq_none_iff,
    circularInheritance?_eq_none_iff, missingPartial?_eq_none_iff]
  constructor
  · intro hall
    obtain ⟨hscopes, htypes, hends, hparts⟩ := hall
    refine ⟨hscopes, htypes, fun id hid => not_revisits_iff.mpr (hends id hid), ?_⟩
    intro id hid hmany d hd
    by_contra hnot
    exact hparts id hid ⟨hmany, d, hd, Bool.not_eq_true _ ▸ hnot⟩
  · intro h
    refine ⟨h.namesScopes, h.namesTypes, fun id hid => not_revisits_iff.mp (h.noCircle id hid), ?_⟩
    intro id hid hlacks
    obtain ⟨hmany, d, hd, hpartial⟩ := hlacks
    rw [h.allPartial id hid hmany d hd] at hpartial
    exact absurd hpartial (by simp)

/-- The checks are made one after the other. -/
theorem inconsistency?_eq_some_iff :
    c.inconsistency? = some found ↔ c.emptyNamespaceName? = some found ∨
      c.emptyNamespaceName? = none ∧ (c.emptyTypeName? = some found ∨
        c.emptyTypeName? = none ∧ (c.circularInheritance? = some found ∨
          c.circularInheritance? = none ∧ c.missingPartial? = some found)) := by
  unfold inconsistency?
  cases c.emptyNamespaceName? with
  | some first => simp
  | none =>
    cases c.emptyTypeName? with
    | some first => simp
    | none => cases c.circularInheritance? <;> simp

theorem inconsistency?_eq_some_iff_firstInconsistency :
    c.inconsistency? = some found ↔ c.FirstInconsistency found := by
  rw [inconsistency?_eq_some_iff, emptyNamespaceName?_eq_some_iff, emptyNamespaceName?_eq_none_iff,
    emptyTypeName?_eq_some_iff, emptyTypeName?_eq_none_iff, circularInheritance?_eq_some_iff,
    circularInheritance?_eq_none_iff, missingPartial?_eq_some_iff]
  simp only [← not_revisits_iff]
  constructor
  · intro hall
    rcases hall with ⟨id, symbol, known, empty, first, rfl⟩ | ⟨scopes, hall⟩
    · exact .emptyNamespaceName known empty first
    rcases hall with ⟨id, first, rfl⟩ | ⟨types, hall⟩
    · exact .emptyTypeName scopes first
    rcases hall with ⟨id, loop, first, above, rfl⟩ | ⟨noCircle, id, first, rfl⟩
    · exact .circularInheritance scopes types first above
    · exact .missingPartial scopes types noCircle first
  · intro h
    cases h with
    | emptyNamespaceName known empty first => exact Or.inl ⟨_, _, known, empty, first, rfl⟩
    | emptyTypeName scopes first => exact Or.inr ⟨scopes, Or.inl ⟨_, first, rfl⟩⟩
    | circularInheritance scopes types first above =>
      exact Or.inr ⟨scopes, Or.inr ⟨types, Or.inl ⟨_, _, first, above, rfl⟩⟩⟩
    | missingPartial scopes types noCircle first =>
      exact Or.inr ⟨scopes, Or.inr ⟨types, Or.inr ⟨noCircle, _, first, rfl⟩⟩⟩

/-- A compilation is accepted exactly if it is consistent, and it is refused with the first thing that
is wrong with it. -/
theorem check_spec (c : Compilation) :
    (c.check = .ok () ↔ c.IsConsistent) ∧
      ∀ found, c.check = .error found ↔ c.FirstInconsistency found := by
  refine ⟨(check_eq_ok_iff c).trans inconsistency?_eq_none_iff_isConsistent, ?_⟩
  intro found
  rw [← inconsistency?_eq_some_iff_firstInconsistency, check]
  cases c.inconsistency? with
  | none => simp
  | some first => simp

end Companion.Compilation
