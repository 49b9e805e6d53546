import Companion.Manifest.Linking
import Companion.Markup.Reader

/-!
# From a manifest to a compilation

* `Compilation.ofEvents`: the compilation of a manifest given by its events.
* `Compilation.ofManifest`: the compilation of a manifest text.
-/

namespace Companion

open Markup (Event Reading)

/-- The compilation of a draft that has had its outermost element. -/
def Draft.finish (draft : Draft) : Except ManifestError Compilation :=
  if draft.hasRoot then .ok draft.link else .error .missingRoot

namespace Compilation

/-- The compilation of a manifest given by its events. -/
def ofEvents (events : List Event) : Except ManifestError Compilation := do
  (← Draft.ofEvents events).finish

/-- The compilation of a reading.  A broken rule comes before the fault that ended the reading. -/
def ofReading (reading : Reading) : Except ManifestError Compilation := do
  let draft ← Draft.ofEvents reading.events
  match reading.fault? with
  | some fault => .error (.markup fault)
  | none => draft.finish

/-- The compilation of a manifest text. -/
def ofManifest (text : String) : Except ManifestError Compilation :=
  ofReading (Reading.ofText text)

/-- A reading that came to the end of its text is as good as its events. -/
theorem ofReading_complete (events : List Event) :
    ofReading ⟨events, none⟩ = ofEvents events := rfl

end Compilation

end Companion
