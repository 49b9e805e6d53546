import Companion.Proofs.Generation.Deliveries
import Companion.Proofs.Generation.Overwriting
import Companion.Sample

/-!
# Passes whose units go to a sink

A pass with a sink hands over its units in order, up to and with the first one that is refused.  With
the sink of a directory this is the run that writes the units of a manifest there.

* `Compilation.emit_of_accepts`, `Compilation.emit_of_stops`: the answer of a pass with a sink.
* `Compilation.emit_directorySink`: what a pass with the sink of a directory asks of the disk.
* `Compilation.generateToDirectory_of_emit`: a run to a directory is such a pass.
* `Compilation.emit_spec`: all of these, and what a sink is offered.
-/

namespace Companion

namespace Compilation

variable {c : Compilation} {settings : Settings} {σ ε : Type} {state final after : σ}

/-! ### Any sink -/

/-- Where all units are taken the answer is their number. -/
theorem emit_of_accepts {sink : Sink σ ε} (h : sink.Accepts (c.generate settings) state final) :
    c.emit settings sink state = (.ok (c.generate settings).length, final) := by
  rw [emit, h.feed_eq]

/-- Where a unit is refused the answer is its refusal. -/
theorem emit_of_stops {sink : Sink σ ε} {done : List SourceUnit} {unit : SourceUnit} {refusal : ε}
    (h : sink.Stops (c.generate settings) done unit refusal state after) :
    c.emit settings sink state = (.error refusal, after) := by
  rw [emit, h.feed_eq]

/-! ### Directories -/

section Directory

variable (disk : Disk σ) (directory : String)

/-- The sink of a directory delivers all units, or those in front of the first one that is refused, and
asks for nothing behind that. -/
theorem emit_directorySink (c : Compilation) (settings : Settings) (state : σ) :
    let path := Disk.targetPath directory settings.extension
    let emitted := c.emit settings (disk.directorySink directory settings.extension) { disk := state }
    (∃ final, disk.Delivers directory settings.extension (c.generate settings) state final ∧
        emitted = (.ok (c.generate settings).length, ⟨final, (c.generate settings).map path⟩)) ∨
      ∃ done unit left before problem after, c.generate settings = done ++ unit :: left ∧
        disk.Delivers directory settings.extension done state before ∧
        disk.Refuses directory settings.extension unit before problem after ∧
        emitted = (.error (.output unit.key problem.message), ⟨after, done.map path⟩) := by
  dsimp only
  rw [emit]
  rcases disk.feed_spec directory settings.extension (c.generate settings) { disk := state } with
    ⟨final, hall, hfeed⟩ | ⟨done, unit, left, before, problem, after, hunits, hdone, hrefuses, hfeed⟩
  · rw [hfeed]
    exact Or.inl ⟨final, hall, rfl⟩
  · rw [hfeed]
    exact Or.inr ⟨done, unit, left, before, problem, after, hunits, hdone, hrefuses, rfl⟩

variable {disk directory}

/-- A run to a directory hands the units of its manifest to the sink of the directory, and answers with
the written paths instead of their number. -/
theorem generateToDirectory_of_emit {manifest text : String} {answer : Except GenerationError Nat}
    {delivery : Delivery σ} (hread : disk.readText manifest state = .ok text)
    (hmanifest : compileManifest text = .ok c)
    (hemit : c.emit settings (disk.directorySink directory settings.extension) { disk := state } =
      (answer, delivery)) :
    disk.generateToDirectory settings manifest directory state =
      (answer.map fun _ => delivery.written, delivery) := by
  have hunits : disk.generateFromFile settings manifest state = .ok (c.generate settings) := by
    rw [Disk.generateFromFile, hread]
    dsimp only
    rw [generateFromText, hmanifest]
    rfl
  rw [Disk.generateToDirectory, hunits]
  dsimp only
  rw [emit] at hemit
  cases hfeed : (disk.directorySink directory settings.extension).feed (c.generate settings)
      { disk := state } with
  | mk result left =>
    rw [hfeed] at hemit
    cases result with
    | error problem =>
      cases hemit
      rfl
    | ok taken =>
      cases hemit
      rfl

end Directory

/-! ### Both -/

/-- A pass with a sink offers it the units in order.  If all are taken the answer is their number,
otherwise it is the refusal of the first one that is refused, behind which nothing is offered.  With
the sink of a directory a pass over the compilation of a manifest makes the same requests as a run
from the manifest to the directory, and ends with the same paths or the same error. -/
theorem emit_spec (c : Compilation) (settings : Settings) :
    (∀ {σ ε : Type} (sink : Sink σ ε) (state : σ),
      (∃ final, sink.Accepts (c.generate settings) state final ∧
        c.emit settings sink state = (.ok (c.generate settings).length, final) ∧
        c.emit settings sink.recording ([], state) =
          (.ok (c.generate settings).length, c.generate settings, final)) ∨
      ∃ done unit refusal after,
        sink.Stops (c.generate settings) done unit refusal state after ∧
        c.emit settings sink state = (.error refusal, after) ∧
        c.emit settings sink.recording ([], state) = (.error refusal, done ++ [unit], after)) ∧
    ∀ {σ : Type} (disk : Disk σ) (manifest directory text : String) (state : σ),
      disk.readText manifest state = .ok text → compileManifest text = .ok c →
      ∃ answer delivery,
        c.emit settings (disk.directorySink directory settings.extension) { disk := state } =
          (answer, delivery) ∧
        disk.generateToDirectory settings manifest directory state =
          (answer.map fun _ => delivery.written, delivery) ∧
        ((∃ final, disk.Delivers directory settings.extension (c.generate settings) state final ∧
            answer = .ok (c.generate settings).length ∧
            delivery = ⟨final,
              (c.generate settings).map (Disk.targetPath directory settings.extension)⟩) ∨
          ∃ done unit left before problem after, c.generate settings = done ++ unit :: left ∧
            disk.Delivers directory settings.extension done state before ∧
            disk.Refuses directory settings.extension unit before problem after ∧
            answer = .error (.output unit.key problem.message) ∧
            delivery = ⟨after, done.map (Disk.targetPath directory settings.extension)⟩) := by
  refine ⟨?_, ?_⟩
  · intro σ ε sink state
    rcases sink.accepts_or_stops (c.generate settings) state with
      ⟨final, h⟩ | ⟨done, unit, refusal, after, h⟩
    · exact Or.inl ⟨final, h, emit_of_accepts h, emit_of_accepts (h.recording [])⟩
    · exact Or.inr ⟨done, unit, refusal, after, h, emit_of_stops h,
        emit_of_stops (h.recording [])⟩
  · intro σ disk manifest directory text state hread hmanifest
    rcases emit_directorySink disk directory c settings state with
      ⟨final, hall, hemit⟩ |
        ⟨done, unit, left, before, problem, after, hunits, hdone, hrefuses, hemit⟩
    · exact ⟨_, _, hemit, generateToDirectory_of_emit hread hmanifest hemit,
        Or.inl ⟨final, hall, rfl, rfl⟩⟩
    · exact ⟨_, _, hemit, generateToDirectory_of_emit hread hmanifest hemit,
        Or.inr ⟨done, unit, left, before, problem, after, hunits, hdone, hrefuses, rfl, rfl⟩⟩

/-- A sink that takes one unit is offered two of three.  A pass over the compilation of two classes of one
simple name offers both units to the sink of a directory, and writes what the run from their manifest
writes. -/
theorem emit_spec_namesakes :
    (∃ first second third, (Sample.compilation 7 0).generate {} = [first, second, third] ∧
      [first.key, second.key, third.key] = ["Settings0_g", "Settings3_g", "Settings6_g"] ∧
      (Sample.compilation 7 0).emit {} (Sink.keeping (some 1) SourceUnit.key).recording ([], []) =
        (.error "Settings3_g", [first, second], [first])) ∧
    ∃ c unit last delivery, FileTree.disk.readText "m.xml" namesakesTree = .ok namesakes ∧
      compileManifest namesakes = .ok c ∧
      c.generate { marker := "M" } = [unit, last] ∧
      c.emit { marker := "M" } (FileTree.disk.directorySink "out" "cs") { disk := namesakesTree } =
        (.ok 2, delivery) ∧
      delivery.written = ["out/A_g.cs", "out/A_g.cs"] ∧
      namesakesRun = (.ok delivery.written, delivery) := by
  refine ⟨?_, ?_⟩
  · have hkeys : ((Sample.compilation 7 0).generate {}).map (·.key) =
        ["Settings0_g", "Settings3_g", "Settings6_g"] := by decide +kernel
    have hlength : ((Sample.compilation 7 0).generate {}).length = 3 := by
      rw [← List.length_map, hkeys]
      rfl
    obtain ⟨first, second, third, hunits⟩ := List.length_eq_three.mp hlength
    rw [hunits] at hkeys
    have hsecond : second.key = "Settings3_g" := (List.cons.inj (List.cons.inj hkeys).2).1
    have hstops : (Sink.keeping (some 1) SourceUnit.key).Stops
        ((Sample.compilation 7 0).generate {}) [first] second second.key [] [first] :=
      .intro hunits (.cons rfl (.nil _)) rfl
    refine ⟨first, second, third, hunits, hkeys, ?_⟩
    rw [← hsecond]
    exact emit_of_stops (hstops.recording [])
  · have hread : FileTree.disk.readText "m.xml" namesakesTree = .ok namesakes := by decide +kernel
    have hpaths : namesakesRun.1.toOption = some ["out/A_g.cs", "out/A_g.cs"] := by decide +kernel
    have hcount : (compileManifest namesakes).toOption.map
        (fun c => (c.generate { marker := "M" }).length) = some 2 := by decide +kernel
    cases hmanifest : compileManifest namesakes with
    | error problem =>
      rw [hmanifest] at hcount
      cases hcount
    | ok c =>
      rw [hmanifest] at hcount
      have hlength : (c.generate { marker := "M" }).length = 2 := Option.some.inj hcount
      obtain ⟨unit, last, hunits⟩ := List.length_eq_two.mp hlength
      obtain ⟨answer, delivery, hemit, hrun, hcases⟩ :=
        (emit_spec c { marker := "M" }).2 FileTree.disk "m.xml" "out" namesakes namesakesTree hread
          hmanifest
      change namesakesRun = _ at hrun
      rw [hrun] at hpaths
      rcases hcases with ⟨final, -, rfl, -⟩ | ⟨done, refused, left, before, problem, after, -, -, -, rfl, -⟩
      · rw [hlength] at hemit
        exact ⟨c, unit, last, delivery, hread, rfl, hunits, hemit, Option.some.inj hpaths, hrun⟩
      · cases hpaths

end Compilation

end Companion
