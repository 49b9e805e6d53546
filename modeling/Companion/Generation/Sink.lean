import Companion.Generation.Pass

/-!
# Handing units over

* `Sink`: takes units one by one, may keep a state and may refuse.
* `Sink.feed`: hands over units until one is refused.
* `Compilation.emit`: a pass whose units go to a sink.
-/

namespace Companion

/-- A receiver of units with states of type `σ`, which refuses with an error of type `ε`. -/
structure Sink (σ ε : Type) where
  /-- Takes one unit or refuses it.  The state may change in both cases. -/
  accept : SourceUnit → σ → Except ε Unit × σ

namespace Sink

variable {σ ε : Type}

/-- Hands over units in order, up to and with the first one that is refused. -/
def feed (sink : Sink σ ε) : List SourceUnit → σ → Except ε Unit × σ
  | [], state => (.ok (), state)
  | unit :: rest, state =>
    match sink.accept unit state with
    | (.error refusal, state) => (.error refusal, state)
    | (.ok _, state) => sink.feed rest state

/-- Two runs of units are handed over one after the other. -/
theorem feed_append (sink : Sink σ ε) (front back : List SourceUnit) (state : σ) :
    sink.feed (front ++ back) state =
      match sink.feed front state with
      | (.error refusal, state) => (.error refusal, state)
      | (.ok _, state) => sink.feed back state := by
  induction front generalizing state with
  | nil => simp [feed]
  | cons unit rest ih =>
    simp only [List.cons_append, feed]
    split <;> simp_all

/-- Keeps what it takes in order, and refuses with `refusal` what is more than `limit` units.
Without a limit it takes all. -/
def keeping (limit : Option Nat) (refusal : SourceUnit → ε) : Sink (List SourceUnit) ε where
  accept unit kept :=
    if limit.all (kept.length < ·) then (.ok (), kept ++ [unit]) else (.error (refusal unit), kept)

end Sink

/-- Runs a pass and hands its units to a sink.  The answer is their number, or the error of the
first refusal. -/
def Compilation.emit {σ ε : Type} (c : Compilation) (settings : Settings) (sink : Sink σ ε)
    (state : σ) : Except ε Nat × σ :=
  match sink.feed (c.generate settings) state with
  | (.error refusal, state) => (.error refusal, state)
  | (.ok _, state) => (.ok (c.generate settings).length, state)

end Companion
