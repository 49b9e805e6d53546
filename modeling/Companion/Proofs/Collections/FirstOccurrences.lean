import Mathlib.Data.List.Basic
import Mathlib.Data.List.Induction
import Mathlib.Data.List.Nodup

/-!
# First occurrences

`eraseDups` keeps the first occurrence of each entry.

* `eraseDups_concat`: one more entry at the end counts if it is new.
* `eraseDups_map`: entries that are renamed apart are kept as before.
* `lookup_eraseDups`: the first value of a key stays the first one.
* `eraseDups_eq_append_cons`: what stands before an entry is what stood before it at first.
* `pairwise_findIdx_eraseDups`: the kept entries stand in the order of their first occurrences.
* `eq_of_pairwise_index`: entries that stand in the order of an index stand so in one way only.
-/

namespace Companion.FirstOccurrences

variable {α β : Type}

theorem eraseDups_concat [BEq β] [LawfulBEq β] (l : List β) (a : β) :
    (l ++ [a]).eraseDups = if a ∈ l then l.eraseDups else l.eraseDups ++ [a] := by
  rw [List.eraseDups_append]
  by_cases h : a ∈ l
  · simp [List.removeAll, h]
  · simp [List.removeAll, h, List.eraseDups_cons]

theorem nodup_eraseDups [BEq β] [LawfulBEq β] (l : List β) : l.eraseDups.Nodup := by
  induction l using List.reverseRecOn with
  | nil => exact List.nodup_nil
  | append_singleton l a ih =>
    rw [eraseDups_concat]
    split
    · exact ih
    · next h =>
      rw [← List.concat_eq_append, List.nodup_concat]
      exact ⟨fun hm => h (List.mem_eraseDups.mp hm), ih⟩

/-- Where no entry occurs twice all are kept. -/
theorem eraseDups_eq_self [BEq β] [LawfulBEq β] {l : List β} (h : l.Nodup) : l.eraseDups = l := by
  induction l using List.reverseRecOn with
  | nil => rfl
  | append_singleton l a ih =>
    rw [← List.concat_eq_append, List.nodup_concat] at h
    rw [eraseDups_concat, if_neg h.1, ih h.2]

/-- Entries that are renamed apart are kept as before. -/
theorem eraseDups_map [BEq α] [LawfulBEq α] [BEq β] [LawfulBEq β] {f : α → β}
    (hf : Function.Injective f) (l : List α) : (l.map f).eraseDups = l.eraseDups.map f := by
  induction l using List.reverseRecOn with
  | nil => rfl
  | append_singleton l a ih =>
    rw [List.map_append, List.map_singleton, eraseDups_concat, eraseDups_concat, ih]
    by_cases h : a ∈ l
    · rw [if_pos h, if_pos (List.mem_map_of_mem h)]
    · rw [if_neg h, if_neg (fun hm => h ((List.mem_map_of_injective hf).mp hm)), List.map_append,
        List.map_singleton]

/-- The first value of a key stays the first one. -/
theorem lookup_eraseDups [BEq α] [LawfulBEq α] [BEq β] [LawfulBEq β] (l : List (α × β)) (key : α) :
    l.eraseDups.lookup key = l.lookup key := by
  induction l using List.reverseRecOn with
  | nil => rfl
  | append_singleton l a ih =>
    rw [eraseDups_concat]
    split
    · next h =>
      rw [ih, List.lookup_append]
      cases hl : l.lookup key with
      | some value => rfl
      | none =>
        have hkey : (key == a.1) = false := by simpa using List.lookup_eq_none_iff.mp hl a h
        rw [Option.none_or, List.lookup_cons, hkey, List.lookup_nil]
    · rw [List.lookup_append, List.lookup_append, ih]

/-- An entry that is new stands behind the kept entries of the front. -/
theorem eraseDups_append_cons [BEq β] [LawfulBEq β] {front : List β} {a : β} (h : a ∉ front)
    (back : List β) : ∃ more, (front ++ a :: back).eraseDups = front.eraseDups ++ a :: more := by
  rw [List.append_cons, List.eraseDups_append, eraseDups_concat, if_neg h, List.append_assoc]
  exact ⟨_, rfl⟩

/-- What stands before a kept entry is kept from what stood before its first occurrence. -/
theorem eraseDups_eq_append_cons [BEq β] [LawfulBEq β] {l front back : List β} {a : β}
    (h : l.eraseDups = front ++ a :: back) :
    ∃ before after, l = before ++ a :: after ∧ a ∉ before ∧ front = before.eraseDups := by
  have hmem : a ∈ l := by
    rw [← List.mem_eraseDups, h]
    simp
  obtain ⟨before, after, rfl, hnew⟩ := List.eq_append_cons_of_mem hmem
  obtain ⟨more, hmore⟩ := eraseDups_append_cons hnew after
  refine ⟨before, after, rfl, hnew, ?_⟩
  -- The entry is kept once, so there is only one place to cut at it.
  have hnodup := nodup_eraseDups (before ++ a :: after)
  rw [hmore] at hnodup h
  have hback : a ∉ more := (List.nodup_cons.mp (List.nodup_append.mp hnodup).2.1).1
  have hfront : a ∉ before.eraseDups := fun hin => hnew (List.mem_eraseDups.mp hin)
  exact ((List.append_cons_inj_of_notMem hfront hback).mp h).1.symm

section Order

variable [DecidableEq β]

/-- Where the first entry stands that passes a test and has the given image. -/
def firstIndex (p : α → Bool) (f : α → β) (l : List α) (b : β) : Nat :=
  l.findIdx fun a => p a && decide (f a = b)

theorem firstIndex_lt_length_iff {p : α → Bool} {f : α → β} {l : List α} {b : β} :
    firstIndex p f l b < l.length ↔ b ∈ (l.filter p).map f := by
  simp [firstIndex, List.findIdx_lt_length, and_assoc]

/-- Only entries with the given image are tested. -/
theorem firstIndex_congr {p q : α → Bool} {f : α → β} {l : List α} {b : β}
    (h : ∀ a ∈ l, f a = b → p a = q a) : firstIndex p f l b = firstIndex q f l b := by
  have hsame : ∀ a ∈ l, (p a && decide (f a = b)) = (q a && decide (f a = b)) := by
    intro a ha
    by_cases hb : f a = b
    · rw [h a ha hb]
    · simp [hb]
  apply Nat.le_antisymm
  · refine List.findIdx_le_findIdx ?_
    intro a ha hq
    rwa [hsame a ha]
  · refine List.findIdx_le_findIdx ?_
    intro a ha hp
    rwa [← hsame a ha]

/-- What is appended does not move the first entry. -/
theorem firstIndex_append_of_mem {p : α → Bool} {f : α → β} {l : List α} {b : β}
    (h : b ∈ (l.filter p).map f) (more : List α) :
    firstIndex p f (l ++ more) b = firstIndex p f l b := by
  have hlt := firstIndex_lt_length_iff.mpr h
  unfold firstIndex at hlt ⊢
  rw [List.findIdx_append, if_pos hlt]

/-- The kept entries stand in the order of their first occurrences. -/
theorem pairwise_findIdx_eraseDups (p : α → Bool) (f : α → β) (l : List α) :
    ((l.filter p).map f).eraseDups.Pairwise
      fun x y => firstIndex p f l x < firstIndex p f l y := by
  induction l using List.reverseRecOn with
  | nil => exact List.Pairwise.nil
  | append_singleton l a ih =>
    -- Entries of the old list keep their place, a new one stands behind all of them.
    have old : ((l.filter p).map f).eraseDups.Pairwise
        fun x y => firstIndex p f (l ++ [a]) x < firstIndex p f (l ++ [a]) y := by
      refine ih.imp_of_mem ?_
      intro x y hx hy hxy
      rw [firstIndex_append_of_mem (List.mem_eraseDups.mp hx),
        firstIndex_append_of_mem (List.mem_eraseDups.mp hy)]
      exact hxy
    rw [List.filter_append, List.map_append]
    cases hp : p a with
    | false => simpa [hp] using old
    | true =>
      rw [List.filter_cons_of_pos hp, List.filter_nil, List.map_singleton, eraseDups_concat]
      split
      · exact old
      · next hnew =>
        rw [List.pairwise_append]
        refine ⟨old, List.pairwise_singleton _ _, ?_⟩
        intro x hx y hy
        obtain rfl : y = f a := List.mem_singleton.mp hy
        have hx' := List.mem_eraseDups.mp hx
        rw [firstIndex_append_of_mem hx']
        have hlt : firstIndex p f l x < l.length := firstIndex_lt_length_iff.mpr hx'
        have hge : l.length ≤ firstIndex p f l (f a) :=
          Nat.le_of_not_lt fun h => hnew (firstIndex_lt_length_iff.mp h)
        unfold firstIndex at hge ⊢
        rw [List.findIdx_append, if_neg (Nat.not_lt_of_le hge)]
        exact Nat.lt_of_lt_of_le hlt (Nat.le_add_left _ _)

end Order

/-- Entries that stand in the order of an index stand so in one way only. -/
theorem eq_of_pairwise_index {l l' : List β} (index : β → Nat) (hmem : ∀ b, b ∈ l ↔ b ∈ l')
    (h : l.Pairwise (index · < index ·)) (h' : l'.Pairwise (index · < index ·)) : l = l' := by
  have hne : ∀ {a b : β}, index a < index b → a ≠ b := by
    rintro a b hab rfl
    exact Nat.lt_irrefl _ hab
  have hperm : l.Perm l' := (List.perm_ext_iff_of_nodup (h.imp hne) (h'.imp hne)).mpr hmem
  refine hperm.eq_of_pairwise ?_ h h'
  intro a b _ _ hab hba
  exact absurd (Nat.lt_trans hab hba) (Nat.lt_irrefl _)

end Companion.FirstOccurrences
