import Companion.Generation.Run
import Companion.Proofs.Generation.Sinks

/-!
# What a delivery comes to on any disk

Units are delivered one by one, each in two requests, and the first request that is refused ends the
delivery.  Nothing is known of the disk, which may refuse whatever and whenever it likes.

* `Disk.Delivers`: both requests of each unit succeed, one unit after the other.
* `Disk.Refuses`: one of the requests of a unit fails.
* `Disk.feed_spec`: a delivery delivers all units, or those in front of the first one that is refused.
* `Disk.generateToDirectory_of_error`, `Disk.generateToDirectory_of_ok`: a run asks nothing of the disk
  but the manifest unless it has units, and then it delivers these.
-/

namespace Companion.Disk

variable {σ : Type}

/-! ### Requests that succeed and requests that fail -/

section Relations

variable (disk : Disk σ) (directory extension : String)

/-- Units are written to their files, each after the directory has been made. -/
inductive Delivers : List SourceUnit → σ → σ → Prop
  | nil (state : σ) : Delivers [] state state
  | cons {unit : SourceUnit} {rest : List SourceUnit} {state made written final : σ}
      (directory_made : disk.makeDirectories directory state = (.ok (), made))
      (file_written :
        disk.writeText (targetPath directory extension unit) unit.text made = (.ok (), written))
      (after : Delivers rest written final) : Delivers (unit :: rest) state final

/-- The directory of a unit cannot be made, or else its file cannot be written. -/
inductive Refuses (unit : SourceUnit) (state : σ) : FileError → σ → Prop
  | directory {problem : FileError} {left : σ}
      (refused : disk.makeDirectories directory state = (.error problem, left)) :
      Refuses unit state problem left
  | file {problem : FileError} {made left : σ}
      (directory_made : disk.makeDirectories directory state = (.ok (), made))
      (refused :
        disk.writeText (targetPath directory extension unit) unit.text made =
          (.error problem, left)) : Refuses unit state problem left

/-- A unit is delivered, or one of its requests fails. -/
theorem deliver_spec (unit : SourceUnit) (delivery : Delivery σ) :
    (∃ made written, disk.makeDirectories directory delivery.disk = (.ok (), made) ∧
        disk.writeText (targetPath directory extension unit) unit.text made = (.ok (), written) ∧
        disk.deliver directory extension unit delivery =
          (.ok (), ⟨written, delivery.written ++ [targetPath directory extension unit]⟩)) ∨
      ∃ problem left, disk.Refuses directory extension unit delivery.disk problem left ∧
        disk.deliver directory extension unit delivery =
          (.error (.output unit.key problem.message), ⟨left, delivery.written⟩) := by
  rw [deliver]
  cases hmade : disk.makeDirectories directory delivery.disk with
  | mk result made =>
    cases result with
    | error problem => exact Or.inr ⟨problem, made, .directory hmade, rfl⟩
    | ok done =>
      dsimp only
      cases hwritten : disk.writeText (targetPath directory extension unit) unit.text made with
      | mk result written =>
        cases result with
        | error problem => exact Or.inr ⟨problem, written, .file hmade hwritten, rfl⟩
        | ok done => exact Or.inl ⟨made, written, rfl, hwritten, rfl⟩

variable {disk directory extension}

/-- Units that the sink takes are delivered, and their paths are noted. -/
theorem delivers_of_accepts {units : List SourceUnit} {delivery final : Delivery σ}
    (h : (disk.directorySink directory extension).Accepts units delivery final) :
    disk.Delivers directory extension units delivery.disk final.disk ∧
      final.written = delivery.written ++ units.map (targetPath directory extension) := by
  induction h with
  | nil delivery => exact ⟨.nil _, by rw [List.map_nil, List.append_nil]⟩
  | @cons unit rest delivery next final taken _ ih =>
    change disk.deliver directory extension unit delivery = _ at taken
    rcases disk.deliver_spec directory extension unit delivery with
      ⟨made, written, hmade, hwritten, hone⟩ | ⟨problem, left, -, hone⟩
    · rw [hone] at taken
      cases taken
      refine ⟨.cons hmade hwritten ih.1, ?_⟩
      rw [ih.2, List.append_assoc]
      rfl
    · rw [hone] at taken
      cases taken

/-- The sink refuses a unit when one of its requests fails. -/
theorem refuses_of_accept {unit : SourceUnit} {delivery after : Delivery σ}
    {refusal : GenerationError}
    (h : (disk.directorySink directory extension).accept unit delivery = (.error refusal, after)) :
    ∃ problem left, disk.Refuses directory extension unit delivery.disk problem left ∧
      refusal = .output unit.key problem.message ∧ after = ⟨left, delivery.written⟩ := by
  change disk.deliver directory extension unit delivery = _ at h
  rcases disk.deliver_spec directory extension unit delivery with
    ⟨made, written, -, -, hone⟩ | ⟨problem, left, hrefuses, hone⟩
  · rw [hone] at h
    cases h
  · rw [hone] at h
    cases h
    exact ⟨problem, left, hrefuses, rfl, rfl⟩

variable (disk directory extension)

/-- A delivery delivers all units, or those in front of the first one that is refused, and asks for
nothing behind that. -/
theorem feed_spec (units : List SourceUnit) (delivery : Delivery σ) :
    (∃ final, disk.Delivers directory extension units delivery.disk final ∧
        (disk.directorySink directory extension).feed units delivery =
          (.ok (), ⟨final, delivery.written ++ units.map (targetPath directory extension)⟩)) ∨
      ∃ done unit left before problem after, units = done ++ unit :: left ∧
        disk.Delivers directory extension done delivery.disk before ∧
        disk.Refuses directory extension unit before problem after ∧
        (disk.directorySink directory extension).feed units delivery =
          (.error (.output unit.key problem.message),
            ⟨after, delivery.written ++ done.map (targetPath directory extension)⟩) := by
  rcases (disk.directorySink directory extension).accepts_or_stops units delivery with
    ⟨final, h⟩ | ⟨done, unit, refusal, after, h⟩
  · obtain ⟨hall, hwritten⟩ := delivers_of_accepts h
    refine Or.inl ⟨final.disk, hall, ?_⟩
    rw [h.feed_eq, ← hwritten]
  · have hfeed := h.feed_eq
    obtain ⟨hsplit, hdone, hrefused⟩ := h
    obtain ⟨hdelivers, hwritten⟩ := delivers_of_accepts hdone
    obtain ⟨problem, left, hrefuses, rfl, rfl⟩ := refuses_of_accept hrefused
    refine Or.inr ⟨done, unit, _, _, problem, left, hsplit, hdelivers, hrefuses, ?_⟩
    rw [hfeed, hwritten]

end Relations

/-! ### Runs -/

section Runs

variable (disk : Disk σ) (settings : Settings) (manifest directory : String) (state : σ)

/-- A run without units asks nothing of the disk but the manifest. -/
theorem generateToDirectory_of_error {problem : GenerationError}
    (h : disk.generateFromFile settings manifest state = .error problem) :
    disk.generateToDirectory settings manifest directory state =
      (.error problem, { disk := state }) := by
  rw [generateToDirectory, h]

/-- A run with units delivers all of them, or those in front of the first one that is refused. -/
theorem generateToDirectory_of_ok {units : List SourceUnit}
    (h : disk.generateFromFile settings manifest state = .ok units) :
    (∃ final, disk.Delivers directory settings.extension units state final ∧
        disk.generateToDirectory settings manifest directory state =
          (.ok (units.map (targetPath directory settings.extension)),
            ⟨final, units.map (targetPath directory settings.extension)⟩)) ∨
      ∃ done unit left before problem after, units = done ++ unit :: left ∧
        disk.Delivers directory settings.extension done state before ∧
        disk.Refuses directory settings.extension unit before problem after ∧
        disk.generateToDirectory settings manifest directory state =
          (.error (.output unit.key problem.message),
            ⟨after, done.map (targetPath directory settings.extension)⟩) := by
  rw [generateToDirectory, h]
  dsimp only
  rcases disk.feed_spec directory settings.extension units { disk := state } with
    ⟨final, hall, hfeed⟩ | ⟨done, unit, left, before, problem, after, hunits, hdone, hrefuses, hfeed⟩
  · rw [hfeed]
    exact Or.inl ⟨final, hall, rfl⟩
  · rw [hfeed]
    exact Or.inr ⟨done, unit, left, before, problem, after, hunits, hdone, hrefuses, rfl⟩

/-- The units of a file are those of the manifest in it, or else reading it has failed in the file, in
the manifest or in the model. -/
theorem generateFromFile_spec :
    (∃ text c, disk.readText manifest state = .ok text ∧ Compilation.ofManifest text = .ok c ∧
        c.check = .ok () ∧
        disk.generateFromFile settings manifest state = .ok (c.generate settings)) ∨
      ∃ problem, disk.generateFromFile settings manifest state = .error problem ∧
        ∀ key reason, problem ≠ .output key reason := by
  rw [generateFromFile]
  cases hread : disk.readText manifest state with
  | error problem => exact Or.inr ⟨.file problem, rfl, fun _ _ h => by cases h⟩
  | ok text =>
    dsimp only
    rw [generateFromText, compileManifest]
    cases hmanifest : Compilation.ofManifest text with
    | error problem => exact Or.inr ⟨.manifest problem, rfl, fun _ _ h => by cases h⟩
    | ok c =>
      dsimp only
      cases hcheck : c.check with
      | error found => exact Or.inr ⟨.model found, rfl, fun _ _ h => by cases h⟩
      | ok done => exact Or.inl ⟨text, c, rfl, hmanifest, hcheck, rfl⟩

end Runs

end Companion.Disk
