import Companion.Proofs.Model.Profiles
import Companion.Sample

/-!
# Names in the samples

The classes of a sample are numbered.  No two of them have the same simple name, and no simple name
holds a dot, so that no two full names are the same either.

* `settingsName`, `settingsPath`: the simple name of a settings class and the path of its namespace.
* `numbered_inj`: different numbers behind a text give different texts.
* `initials`, `ne_of_initials`: texts that begin differently differ.
* `Dotless`, `Dotless.fullName_ne`: types with simple names without dots have different full names if
  these names differ.
-/

namespace Companion.Sample

/-! ### Texts with numbers -/

/-- Reading the digits gives the number back. -/
theorem toString_inj {i j : Nat} : toString i = toString j ↔ i = j := by
  refine ⟨fun h => ?_, fun h => h ▸ rfl⟩
  have hdigits := congrArg (fun text : String => Nat.ofDigitChars 10 text.toList 0) h
  simpa using hdigits

theorem numbered_inj {front : String} {i j : Nat} :
    front ++ toString i = front ++ toString j ↔ i = j := by
  rw [String.append_right_inj, toString_inj]

/-- What stands in a number is a digit. -/
theorem isDigit_of_mem_toString {i : Nat} {c : Char} (h : c ∈ (toString i).toList) :
    c.isDigit = true := by
  rw [Nat.toString_eq_repr, Nat.toList_repr] at h
  exact Nat.isDigit_of_mem_toDigits (by decide) (by decide) h

theorem not_mem_numbered {front : String} {c : Char} (hc : c.isDigit = false)
    (hfront : c ∉ front.toList) (i : Nat) : c ∉ (front ++ toString i).toList := by
  rw [String.toList_append, List.mem_append, not_or]
  refine ⟨hfront, fun hmem => ?_⟩
  rw [isDigit_of_mem_toString hmem] at hc
  exact absurd hc (by decide)

/-- The first two characters of a text. -/
def initials (text : String) : List Char :=
  text.toList.take 2

theorem initials_append {front : String} (h : 2 ≤ front.toList.length) (behind : String) :
    initials (front ++ behind) = initials front := by
  rw [initials, String.toList_append, List.take_append_of_le_length h, initials]

/-- Texts that begin differently differ. -/
theorem ne_of_initials {text other : String} (h : initials text ≠ initials other) : text ≠ other :=
  fun hsame => h (congrArg initials hsame)

/-! ### Settings classes -/

/-- The simple name of the settings class of a number. -/
def settingsName (number : Nat) : String :=
  "Settings" ++ toString number

/-- The path of its namespace. -/
def settingsPath (number : Nat) : String :=
  "App.Module" ++ toString (number % 8)

theorem initials_settingsName (number : Nat) : initials (settingsName number) = ['S', 'e'] :=
  initials_append (by decide) _

theorem settingsName_inj {i j : Nat} : settingsName i = settingsName j ↔ i = j :=
  numbered_inj

theorem dotless_settingsName (number : Nat) : '.' ∉ (settingsName number).toList :=
  not_mem_numbered (by decide) (by decide) number

/-- Neither of the two scopes of the namespace is without a name. -/
theorem segments_settingsPath (number : Nat) :
    ∀ segment ∈ Text.Dotted.allSegments (settingsPath number), segment ≠ "" := by
  have hpath : settingsPath number = "App" ++ "." ++ ("Module" ++ toString (number % 8)) := by
    rw [settingsPath, ← String.append_assoc]
    rfl
  have hdot : '.' ∉ ("Module" ++ toString (number % 8)).toList :=
    not_mem_numbered (by decide) (by decide) _
  rw [Text.Dotted.allSegments, hpath, Text.Dotted.segments_append,
    Text.Dotted.segments_of_not_mem (show '.' ∉ "App".toList by decide),
    Text.Dotted.segments_of_not_mem hdot]
  simp

/-! ### Full names -/

/-- No simple name of a type holds a dot. -/
def Dotless (types : List TypeProfile) : Prop :=
  ∀ p ∈ types, '.' ∉ p.symbol.name.toList

/-- A type whose simple name is new has a full name that is new. -/
theorem Dotless.fullName_ne {types : List TypeProfile} (h : Dotless types) {profile : TypeProfile}
    (hdot : '.' ∉ profile.symbol.name.toList)
    (fresh : ∀ p ∈ types, p.symbol.name ≠ profile.symbol.name) :
    ∀ p ∈ types, p.fullName ≠ profile.fullName :=
  fun p hp hsame => fresh p hp (TypeProfile.name_eq_of_fullName_eq (h p hp) hdot hsame)

theorem settingsPath_ne_empty (number : Nat) : settingsPath number ≠ "" :=
  ne_of_initials (by rw [settingsPath, initials_append (by decide)]; decide)

/-- The full name of a settings class does not depend on what else is known of it. -/
theorem fullName_of_settings {profile : TypeProfile} {number : Nat}
    (hpath : profile.path = settingsPath number) (hname : profile.symbol.name = settingsName number) :
    profile.fullName = settingsPath number ++ "." ++ settingsName number := by
  have hnonempty : ¬ profile.path.isEmpty = true := by
    rw [hpath, String.isEmpty_iff]
    exact settingsPath_ne_empty number
  rw [TypeProfile.fullName, if_neg hnonempty, hpath, hname]

end Companion.Sample
