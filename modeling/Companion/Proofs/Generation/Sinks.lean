import Companion.Generation.Sink

/-!
# What handing over comes to for any sink

Units are handed over one by one, and the first one that is refused ends it.  Nothing is known of the
sink, which may take or refuse whatever it likes, and change its state in both cases.

* `Sink.Accepts`: units are taken one after another.
* `Sink.Stops`: some units are taken, and the next one is refused.
* `Sink.feed_eq_ok_iff`, `Sink.feed_eq_error_iff`: handing over succeeds or fails exactly so.
* `Sink.recording`: the same sink, which keeps all that it is offered.
-/

namespace Companion.Sink

variable {σ ε : Type} {sink : Sink σ ε} {units done : List SourceUnit} {unit : SourceUnit}
  {refusal : ε} {state before after final : σ}

/-! ### Taking and refusing -/

/-- Units are taken one after another. -/
inductive Accepts (sink : Sink σ ε) : List SourceUnit → σ → σ → Prop
  | nil (state : σ) : Accepts sink [] state state
  | cons {unit : SourceUnit} {rest : List SourceUnit} {state next final : σ}
      (taken : sink.accept unit state = (.ok (), next)) (later : Accepts sink rest next final) :
    Accepts sink (unit :: rest) state final

/-- The units in front are taken, and the next one is refused. -/
inductive Stops (sink : Sink σ ε) (units done : List SourceUnit) (unit : SourceUnit)
    (refusal : ε) (state after : σ) : Prop
  | intro {left : List SourceUnit} {before : σ} (split : units = done ++ unit :: left)
      (accepted : sink.Accepts done state before)
      (refused : sink.accept unit before = (.error refusal, after))

/-- All units are taken, or one of them is the first to be refused. -/
theorem accepts_or_stops (sink : Sink σ ε) (units : List SourceUnit) (state : σ) :
    (∃ final, sink.Accepts units state final) ∨
      ∃ done unit refusal after, sink.Stops units done unit refusal state after := by
  induction units generalizing state with
  | nil => exact Or.inl ⟨state, .nil state⟩
  | cons unit rest ih =>
    cases haccept : sink.accept unit state with
    | mk answer next =>
      cases answer with
      | error refusal => exact Or.inr ⟨[], unit, refusal, next, .intro rfl (.nil state) haccept⟩
      | ok taken =>
        rcases ih next with ⟨final, hfinal⟩ | ⟨done, refused, refusal, after, hstops⟩
        · exact Or.inl ⟨final, .cons haccept hfinal⟩
        · obtain ⟨rfl, hdone, hrefused⟩ := hstops
          exact Or.inr ⟨unit :: done, refused, refusal, after,
            .intro rfl (.cons haccept hdone) hrefused⟩

theorem Accepts.feed_eq (h : sink.Accepts units state final) :
    sink.feed units state = (.ok (), final) := by
  induction h with
  | nil state => rfl
  | cons taken _ ih =>
    rw [feed, taken]
    exact ih

theorem Stops.feed_eq (h : sink.Stops units done unit refusal state after) :
    sink.feed units state = (.error refusal, after) := by
  obtain ⟨rfl, hdone, hrefused⟩ := h
  rw [feed_append, hdone.feed_eq]
  dsimp only
  rw [feed, hrefused]

/-- Handing over succeeds exactly if all units are taken. -/
theorem feed_eq_ok_iff :
    sink.feed units state = (.ok (), final) ↔ sink.Accepts units state final := by
  constructor
  · intro hfeed
    rcases sink.accepts_or_stops units state with ⟨final', h⟩ | ⟨done, unit, refusal, after, h⟩
    · rw [h.feed_eq] at hfeed
      cases hfeed
      exact h
    · rw [h.feed_eq] at hfeed
      cases hfeed
  · exact Accepts.feed_eq

/-- Handing over fails exactly if some unit is the first to be refused, and with its refusal. -/
theorem feed_eq_error_iff :
    sink.feed units state = (.error refusal, after) ↔
      ∃ done unit, sink.Stops units done unit refusal state after := by
  constructor
  · intro hfeed
    rcases sink.accepts_or_stops units state with ⟨final, h⟩ | ⟨done, unit, refusal', after', h⟩
    · rw [h.feed_eq] at hfeed
      cases hfeed
    · rw [h.feed_eq] at hfeed
      cases hfeed
      exact ⟨done, unit, h⟩
  · rintro ⟨done, unit, h⟩
    exact h.feed_eq

/-! ### Keeping what is offered -/

/-- The same sink, which also keeps all units that it is offered, taken or not. -/
def recording (sink : Sink σ ε) : Sink (List SourceUnit × σ) ε where
  accept unit state :=
    ((sink.accept unit state.2).1, state.1 ++ [unit], (sink.accept unit state.2).2)

theorem accept_recording {answer : Except ε Unit} (h : sink.accept unit state = (answer, after))
    (offered : List SourceUnit) :
    sink.recording.accept unit (offered, state) = (answer, offered ++ [unit], after) := by
  rw [recording]
  dsimp only
  rw [h]

/-- A sink that takes all units is offered all of them. -/
theorem Accepts.recording (h : sink.Accepts units state final) (offered : List SourceUnit) :
    sink.recording.Accepts units (offered, state) (offered ++ units, final) := by
  induction h generalizing offered with
  | nil state =>
    rw [List.append_nil]
    exact .nil _
  | @cons unit rest state next final taken _ ih =>
    rw [List.append_cons]
    exact .cons (accept_recording taken offered) (ih (offered ++ [unit]))

/-- A sink that refuses a unit is offered those in front and this one. -/
theorem Stops.recording (h : sink.Stops units done unit refusal state after)
    (offered : List SourceUnit) :
    sink.recording.Stops units done unit refusal (offered, state)
      (offered ++ done ++ [unit], after) := by
  obtain ⟨hsplit, hdone, hrefused⟩ := h
  exact .intro hsplit (hdone.recording offered) (accept_recording hrefused _)

end Companion.Sink
