/-!
# Loops taken turn by turn

A loop without a bound is told by what one of its turns comes to.

* `Turn`: a turn goes on with another state or answers.
* `Turn.answerWithin`: the answer that a loop gives within a number of turns.
* `Turn.answerWithin_of_le`: further turns do not change an answer.
-/

namespace Companion

/-- What one turn of a loop comes to. -/
inductive Turn (σ ρ : Type)
  | goesOn (state : σ)
  | answers (answer : ρ)

namespace Turn

variable {σ ρ : Type} {turn : σ → Turn σ ρ} {state next : σ} {answer : ρ}

/-- The answer of a loop, if it gives one within the given number of turns. -/
def answerWithin (turn : σ → Turn σ ρ) : Nat → σ → Option ρ
  | 0, _ => none
  | turns + 1, state =>
    match turn state with
    | .goesOn next => answerWithin turn turns next
    | .answers answer => some answer

theorem answerWithin_goesOn (h : turn state = .goesOn next) (turns : Nat) :
    answerWithin turn (turns + 1) state = answerWithin turn turns next := by
  rw [answerWithin, h]

theorem answerWithin_answers (h : turn state = .answers answer) (turns : Nat) :
    answerWithin turn (turns + 1) state = some answer := by
  rw [answerWithin, h]

/-- An answer stays the same when more turns are allowed. -/
theorem answerWithin_of_le {few many : Nat} (h : answerWithin turn few state = some answer)
    (hle : few ≤ many) : answerWithin turn many state = some answer := by
  induction few generalizing many state with
  | zero => exact absurd h (by simp [answerWithin])
  | succ few ih =>
    obtain ⟨many, rfl⟩ := Nat.exists_eq_add_of_le' (Nat.le_of_add_left_le hle)
    cases hturn : turn state with
    | goesOn next =>
      rw [answerWithin_goesOn hturn] at h ⊢
      exact ih h (Nat.le_of_succ_le_succ hle)
    | answers found =>
      rw [answerWithin_answers hturn] at h ⊢
      exact h

end Turn

end Companion
