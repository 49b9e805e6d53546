import Companion.Proofs.Files.Requests
import Companion.Proofs.Generation.Deliveries

/-!
# Going on after a refusal

A sink may be offered more units after it has refused one.  Here units are offered one after another,
whatever becomes of each, and the directory that takes them may refuse whatever and whenever it likes.

* `Sink.offerAll`: all units are offered, with an account of each offer.
* `Sink.takenUnits`: the units of the offers that were taken.
* `Disk.written_offerAll`: the paths noted are those of the units taken.
* `Disk.content_offerAll`: a file holds the last unit taken for it, and what it held before if there is
  none.
* `Disk.repeatedOffers_spec`: the two together, with what a refusal is and what it leaves alone.
-/

namespace Companion

/-! ### Offers -/

/-- One unit that is offered to a sink, the answer, and the states before and after. -/
structure Offer (σ ε : Type) where
  unit : SourceUnit
  before : σ
  answer : Except ε Unit
  after : σ

/-- Whether the unit has been taken. -/
def Offer.isTaken {σ ε : Type} (offer : Offer σ ε) : Bool :=
  offer.answer.isOk

namespace Sink

variable {σ ε : Type}

/-- Offers units one after another, also behind one that is refused. -/
def offerAll (sink : Sink σ ε) : List SourceUnit → σ → List (Offer σ ε) × σ
  | [], state => ([], state)
  | unit :: rest, state =>
    let (answer, after) := sink.accept unit state
    let (later, final) := sink.offerAll rest after
    (⟨unit, state, answer, after⟩ :: later, final)

/-- The units of the offers that were taken. -/
def takenUnits (offers : List (Offer σ ε)) : List SourceUnit :=
  (offers.filter (·.isTaken)).map (·.unit)

variable {sink : Sink σ ε} {unit : SourceUnit} {state after : σ} {answer : Except ε Unit}

theorem offerAll_cons (h : sink.accept unit state = (answer, after)) (rest : List SourceUnit) :
    sink.offerAll (unit :: rest) state =
      (⟨unit, state, answer, after⟩ :: (sink.offerAll rest after).1, (sink.offerAll rest after).2) := by
  rw [offerAll, h]

/-- There is one offer for each unit. -/
theorem units_offerAll (sink : Sink σ ε) (units : List SourceUnit) (state : σ) :
    (sink.offerAll units state).1.map (·.unit) = units := by
  induction units generalizing state with
  | nil => rfl
  | cons unit rest ih =>
    rw [offerAll_cons rfl, List.map_cons, ih]

/-- What holds of every call holds of every offer. -/
theorem forall_mem_offerAll {P : Offer σ ε → Prop}
    (call : ∀ unit state, P ⟨unit, state, (sink.accept unit state).1, (sink.accept unit state).2⟩)
    (units : List SourceUnit) (state : σ) : ∀ offer ∈ (sink.offerAll units state).1, P offer := by
  induction units generalizing state with
  | nil => exact fun offer hoffer => absurd hoffer (by simp [offerAll])
  | cons unit rest ih =>
    rw [offerAll_cons rfl, List.forall_mem_cons]
    exact ⟨call unit state, ih _⟩

theorem takenUnits_ok (unit : SourceUnit) (before after : σ) (later : List (Offer σ ε)) :
    takenUnits (⟨unit, before, .ok (), after⟩ :: later) = unit :: takenUnits later := rfl

theorem takenUnits_error (unit : SourceUnit) (before after : σ) (refusal : ε)
    (later : List (Offer σ ε)) :
    takenUnits (⟨unit, before, .error refusal, after⟩ :: later) = takenUnits later := rfl

end Sink

namespace Disk

open Sink

variable {σ φ : Type} (disk : Disk σ) (directory extension : String)

/-! ### Single offers -/

/-- What one offer to a directory comes to: the path is noted, or a request has been refused and no
path is noted. -/
inductive DeliveryOutcome (offer : Offer (Delivery σ) GenerationError) : Prop
  | taken {made : σ} (ok : offer.answer = .ok ())
      (directory_made : disk.makeDirectories directory offer.before.disk = (.ok (), made))
      (file_written :
        disk.writeText (targetPath directory extension offer.unit) offer.unit.text made =
          (.ok (), offer.after.disk))
      (noted : offer.after.written =
        offer.before.written ++ [targetPath directory extension offer.unit])
  | refused {problem : FileError}
      (output : offer.answer = .error (.output offer.unit.key problem.message))
      (request : disk.Refuses directory extension offer.unit offer.before.disk problem
        offer.after.disk)
      (nothing_noted : offer.after.written = offer.before.written)

theorem deliveryOutcome (unit : SourceUnit) (delivery : Delivery σ) :
    disk.DeliveryOutcome directory extension
      ⟨unit, delivery, (disk.deliver directory extension unit delivery).1,
        (disk.deliver directory extension unit delivery).2⟩ := by
  rcases disk.deliver_spec directory extension unit delivery with
    ⟨made, written, hmade, hwritten, hone⟩ | ⟨problem, left, hrefuses, hone⟩
  · rw [hone]
    exact .taken rfl hmade hwritten rfl
  · rw [hone]
    exact .refused rfl hrefuses rfl

/-! ### Paths -/

/-- The paths that are noted are those of the units taken, in order and as often as they were taken. -/
theorem written_offerAll (units : List SourceUnit) (delivery : Delivery σ) :
    ((disk.directorySink directory extension).offerAll units delivery).2.written =
      delivery.written ++
        (takenUnits ((disk.directorySink directory extension).offerAll units delivery).1).map
          (targetPath directory extension) := by
  induction units generalizing delivery with
  | nil => exact (List.append_nil _).symm
  | cons unit rest ih =>
    rcases disk.deliver_spec directory extension unit delivery with
      ⟨made, written, -, -, hone⟩ | ⟨problem, left, -, hone⟩
    · rw [offerAll_cons hone, takenUnits_ok, List.map_cons, ih, List.append_assoc,
        List.singleton_append]
    · rw [offerAll_cons hone, takenUnits_error, ih]

/-! ### Files -/

/-- The last of some units that goes to a file. -/
structure IsLastFor (file : String → φ) (target : φ) (units : List SourceUnit) (unit : SourceUnit) :
    Prop where
  goes : file (targetPath directory extension unit) = target
  last : ∃ front back, units = front ++ unit :: back ∧
    ∀ later ∈ back, file (targetPath directory extension later) ≠ target

variable {disk directory extension} {file : String → φ} {content : φ → σ → Option String}

theorem IsLastFor.cons {target : φ} {units : List SourceUnit} {unit : SourceUnit}
    (h : IsLastFor directory extension file target units unit) (first : SourceUnit) :
    IsLastFor directory extension file target (first :: units) unit := by
  obtain ⟨hgoes, front, back, rfl, hback⟩ := h
  exact ⟨hgoes, first :: front, back, rfl, hback⟩

/-- Making the directory and failing to write change no file. -/
theorem KeepsContents.refuses (keeps : disk.KeepsContents file content) {unit : SourceUnit}
    {state left : σ} {problem : FileError}
    (h : disk.Refuses directory extension unit state problem left) (target : φ) :
    content target left = content target state := by
  cases h with
  | directory refused => exact keeps.made target refused
  | @file made _ directory_made refused =>
    rw [← keeps.made target directory_made]
    by_cases hsame : target = file (targetPath directory extension unit)
    · rw [hsame]
      exact keeps.refused refused
    · exact keeps.others refused hsame

/-- A file holds the last unit taken for it, and what it held before if none was.  The induction is
on the units from the front: what the later ones leave alone is as the first one has left it. -/
theorem content_offerAll (keeps : disk.KeepsContents file content) (units : List SourceUnit)
    (delivery : Delivery σ) (target : φ) :
    let run := (disk.directorySink directory extension).offerAll units delivery
    (∃ unit, IsLastFor directory extension file target (takenUnits run.1) unit ∧
        content target run.2.disk = some unit.text) ∨
      (∀ unit ∈ takenUnits run.1, file (targetPath directory extension unit) ≠ target) ∧
        content target run.2.disk = content target delivery.disk := by
  induction units generalizing delivery with
  | nil => exact Or.inr ⟨fun unit hunit => absurd hunit (by simp [offerAll, takenUnits]), rfl⟩
  | cons first rest ih =>
    rcases disk.deliver_spec directory extension first delivery with
      ⟨made, written, hmade, hwritten, hone⟩ | ⟨problem, left, hrefuses, hone⟩
    · intro run
      have hrun : run = _ := offerAll_cons hone rest
      rw [hrun, takenUnits_ok]
      rcases ih ⟨written, delivery.written ++ [targetPath directory extension first]⟩ with
        ⟨unit, hlast, hcontent⟩ | ⟨hnone, hcontent⟩
      · exact Or.inl ⟨unit, hlast.cons first, hcontent⟩
      · by_cases hgoes : file (targetPath directory extension first) = target
        · refine Or.inl ⟨first, ⟨hgoes, [], _, rfl, hnone⟩, ?_⟩
          rw [hcontent, ← hgoes]
          exact keeps.written hwritten
        · refine Or.inr ⟨List.forall_mem_cons.mpr ⟨hgoes, hnone⟩, ?_⟩
          rw [hcontent, keeps.others hwritten (Ne.symm hgoes), keeps.made target hmade]
    · intro run
      have hrun : run = _ := offerAll_cons hone rest
      rw [hrun, takenUnits_error]
      rcases ih ⟨left, delivery.written⟩ with hlast | ⟨hnone, hcontent⟩
      · exact Or.inl hlast
      · refine Or.inr ⟨hnone, ?_⟩
        rw [hcontent]
        exact keeps.refuses hrefuses target

/-! ### Runs -/

/-- Units are offered to a directory one after another, on any disk and whatever becomes of each.

* There is one offer for each unit, and one that is taken has made the directory, written its file and
  noted its path.
* A unit that is refused is answered by an output error with its own key, and no path is noted.
* In the end the paths noted are those of the units taken, in order and with all repetitions.
* Where files change by what is written to them and by nothing else, the file of every path noted holds
  the text of the last unit taken whose path denotes that file. -/
theorem repeatedOffers_spec (disk : Disk σ) (directory extension : String) (units : List SourceUnit)
    (state : σ) :
    let run := (disk.directorySink directory extension).offerAll units { disk := state }
    run.1.map (·.unit) = units ∧
    (∀ offer ∈ run.1, disk.DeliveryOutcome directory extension offer) ∧
    (∀ offer ∈ run.1, ∀ refusal, offer.answer = .error refusal →
      (∃ reason, refusal = .output offer.unit.key reason) ∧
        offer.after.written = offer.before.written) ∧
    run.2.written = (takenUnits run.1).map (targetPath directory extension) ∧
    ∀ {φ : Type} (file : String → φ) (content : φ → σ → Option String),
      disk.KeepsContents file content →
        ∀ path ∈ run.2.written, ∃ unit,
          IsLastFor directory extension file (file path) (takenUnits run.1) unit ∧
            content (file path) run.2.disk = some unit.text := by
  intro run
  have houtcome : ∀ offer ∈ run.1, disk.DeliveryOutcome directory extension offer :=
    forall_mem_offerAll (disk.deliveryOutcome directory extension) units _
  have hwritten : run.2.written = (takenUnits run.1).map (targetPath directory extension) :=
    disk.written_offerAll directory extension units { disk := state }
  refine ⟨units_offerAll _ units _, houtcome, ?_, hwritten, ?_⟩
  · intro offer hoffer refusal hrefusal
    cases houtcome offer hoffer with
    | taken ok => exact absurd (ok.symm.trans hrefusal) (by simp)
    | refused output _ nothing_noted =>
      rw [output] at hrefusal
      cases hrefusal
      exact ⟨⟨_, rfl⟩, nothing_noted⟩
  · intro φ file content keeps path hpath
    rw [hwritten, List.mem_map] at hpath
    obtain ⟨unit, hunit, rfl⟩ := hpath
    rcases content_offerAll keeps units { disk := state }
      (file (targetPath directory extension unit)) with hlast | ⟨hnone, -⟩
    · exact hlast
    · exact absurd rfl (hnone unit hunit)

/-- A unit, one whose file lies in a directory that is missing, and the first one with another text. -/
def offeredUnits : List SourceUnit :=
  [⟨"A_g", "first"⟩, ⟨"missing/B_g", "lost"⟩, ⟨"A_g", "second"⟩]

/-- They are offered to the directory `out` of an empty tree. -/
def offeredRun : List (Offer (Delivery FileTree) GenerationError) × Delivery FileTree :=
  (FileTree.disk.directorySink "out" "cs").offerAll offeredUnits { disk := .empty }

/-- The second one is refused, the path of the others is noted twice, and its file holds the last
text. -/
theorem repeatedOffers_spec_offeredUnits :
    FileTree.disk.KeepsContents Path.location FileTree.textAt? ∧
      offeredRun.1.map (·.isTaken) = [true, false, true] ∧
      offeredRun.2.written = ["out/A_g.cs", "out/A_g.cs"] ∧
      FileTree.textAt? ["out", "A_g.cs"] offeredRun.2.disk = some "second" := by
  have htaken : takenUnits offeredRun.1 = [⟨"A_g", "first"⟩, ⟨"A_g", "second"⟩] := by
    decide +kernel
  obtain ⟨-, -, -, hwritten, hcontent⟩ :=
    repeatedOffers_spec FileTree.disk "out" "cs" offeredUnits .empty
  change offeredRun.2.written = (takenUnits offeredRun.1).map _ at hwritten
  rw [htaken] at hwritten
  have hpaths : offeredRun.2.written = ["out/A_g.cs", "out/A_g.cs"] := by
    rw [hwritten]
    decide +kernel
  refine ⟨FileTree.keepsContents, by decide +kernel, hpaths, ?_⟩
  obtain ⟨unit, hlast, htext⟩ := hcontent Path.location FileTree.textAt? FileTree.keepsContents
    "out/A_g.cs" (by
      change _ ∈ offeredRun.2.written
      rw [hpaths]
      exact List.mem_cons_self)
  have hplace : Path.location "out/A_g.cs" = ["out", "A_g.cs"] := by decide +kernel
  rw [hplace] at htext
  have hsecond : unit = ⟨"A_g", "second"⟩ := by
    change IsLastFor _ _ _ _ (takenUnits offeredRun.1) unit at hlast
    rw [htaken] at hlast
    obtain ⟨hgoes, front, back, hsplit, hback⟩ := hlast
    rcases front with _ | ⟨first, _ | ⟨second, front⟩⟩
    · -- The first unit has a later one of its key behind it.
      obtain ⟨rfl, rfl⟩ := List.cons.inj hsplit
      exact absurd hgoes (hback ⟨"A_g", "second"⟩ List.mem_cons_self)
    · exact (List.cons.inj (List.cons.inj hsplit).2).1.symm
    · exact absurd (congrArg List.length hsplit) (by simp)
  rw [hsecond] at htext
  exact htext

end Disk

end Companion
