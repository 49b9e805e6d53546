import Mathlib.Data.List.Basic
import Mathlib.Data.List.Forall2

/-!
# Entries with those before them

What is said of every entry, given the entries before it, is said entry by entry.

* `forall_split_cons`: entry by entry from the front.
* `forall_split_concat`: entry by entry from the end.
* `flatMap_eq_append_cons`: an entry of a list of lists lies in one of these, behind others.
* `find?_eq_some_of_before`: what is found first stays so if no entry before it fits now.
* `forall_mem_iff_of_forall₂`: what is said of entries is said of those that stand in their places.
-/

namespace Companion.Entries

variable {α : Type} {P : List α → α → Prop} {l : List α} {x : α}

theorem forall_split_nil :
    ∀ front a back, ([] : List α) = front ++ a :: back → P front a := by
  intro front a back h
  exact absurd h (by simp)

theorem forall_split_cons :
    (∀ front a back, x :: l = front ++ a :: back → P front a) ↔
      P [] x ∧ ∀ front a back, l = front ++ a :: back → P (x :: front) a := by
  constructor
  · intro h
    refine ⟨h [] x l rfl, ?_⟩
    intro front a back hsplit
    exact h (x :: front) a back (by rw [hsplit, List.cons_append])
  · rintro ⟨hfirst, hrest⟩ front a back hsplit
    cases front with
    | nil =>
      obtain ⟨rfl, rfl⟩ := List.cons.inj hsplit
      exact hfirst
    | cons y front =>
      obtain ⟨rfl, rfl⟩ := List.cons.inj hsplit
      exact hrest front a back rfl

theorem forall_split_concat :
    (∀ front a back, l ++ [x] = front ++ a :: back → P front a) ↔
      (∀ front a back, l = front ++ a :: back → P front a) ∧ P l x := by
  induction l generalizing P with
  | nil =>
    rw [List.nil_append, forall_split_cons]
    constructor
    · intro h
      exact ⟨forall_split_nil, h.1⟩
    · intro h
      exact ⟨h.2, forall_split_nil⟩
  | cons y l ih => rw [List.cons_append, forall_split_cons, ih, forall_split_cons, and_assoc]

/-- An entry of a list of lists lies in one of these, behind others. -/
theorem flatMap_eq_append_cons {β : Type} {f : α → List β} {before after : List β} {b : β}
    (h : l.flatMap f = before ++ b :: after) :
    ∃ front a back inner rest, l = front ++ a :: back ∧ f a = inner ++ b :: rest ∧
      before = front.flatMap f ++ inner := by
  induction l generalizing before with
  | nil => exact absurd h (by simp)
  | cons a l ih =>
    rw [List.flatMap_cons, List.append_eq_append_iff] at h
    rcases h with ⟨more, hbefore, hrest⟩ | ⟨more, hfirst, hrest⟩
    · obtain ⟨front, a', back, inner, rest, rfl, hf, rfl⟩ := ih hrest
      refine ⟨a :: front, a', back, inner, rest, rfl, hf, ?_⟩
      rw [hbefore, List.flatMap_cons, List.append_assoc]
    · cases more with
      | nil =>
        rw [List.append_nil] at hfirst
        have hrest' : l.flatMap f = [] ++ b :: after := hrest.symm
        obtain ⟨front, a', back, inner, rest, rfl, hf, hnil⟩ := ih hrest'
        obtain ⟨hfront, rfl⟩ := List.append_eq_nil_iff.mp hnil.symm
        refine ⟨a :: front, a', back, [], rest, rfl, hf, ?_⟩
        rw [List.flatMap_cons, hfront, hfirst, List.append_nil, List.append_nil]
      | cons x more =>
        obtain ⟨rfl, -⟩ := List.cons.inj hrest
        exact ⟨[], a, l, before, more, rfl, hfirst, rfl⟩

/-- What is found first stays so if no entry before it fits now. -/
theorem find?_eq_some_of_before [DecidableEq α] {p q : α → Bool} (h : l.find? p = some x)
    (hx : q x = true) (hbefore : ∀ a ∈ l.takeWhile (· ≠ x), q a = true → p a = true) :
    l.find? q = some x := by
  induction l with
  | nil => exact absurd h (by simp)
  | cons a l ih =>
    rw [List.find?_cons] at h
    cases hp : p a with
    | true =>
      rw [hp] at h
      obtain rfl := Option.some.inj h
      rw [List.find?_cons, hx]
    | false =>
      rw [hp] at h
      have hne : a ≠ x := by
        intro heq
        rw [heq, List.find?_some h] at hp
        exact absurd hp (by simp)
      rw [List.takeWhile_cons_of_pos (p := fun b => decide (b ≠ x)) (decide_eq_true hne),
        List.forall_mem_cons] at hbefore
      have hq : q a = false := by
        rw [← Bool.not_eq_true]
        intro hq
        rw [hbefore.1 hq] at hp
        exact absurd hp (by simp)
      rw [List.find?_cons, hq]
      exact ih h hbefore.2

/-- What is said of every entry of a list is said of those that stand in their places. -/
theorem forall_mem_iff_of_forall₂ {β : Type} {R : α → β → Prop} {l' : List β}
    (h : List.Forall₂ R l l') {p : α → Prop} {q : β → Prop}
    (hpq : ∀ a b, R a b → (p a ↔ q b)) : (∀ a ∈ l, p a) ↔ ∀ b ∈ l', q b := by
  induction h with
  | nil => simp
  | cons hab _ ih => rw [List.forall_mem_cons, List.forall_mem_cons, hpq _ _ hab, ih]

end Companion.Entries
