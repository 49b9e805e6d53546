import Companion.Proofs.Model.Calls
import Companion.Proofs.Model.SimpleNames
import Companion.Proofs.Model.Symbols

/-!
# Names of external references

A reference registers its type under the name that it was asked for.  The exception is a dot with a
name behind it that has no further dots: a scope without a name has the empty path, which is also
that of the global namespace, so the type goes by the name behind the dot.

* `externalName_of_dot`, `externalName_eq_self_iff`: where the full name is the name asked for.
* `Refers`: what a reference to the type of a full name comes to.
* `refers_externalName`: what every reference comes to.
* `internExternal_refers_spec`: which references are to the name that they were asked for.
-/

namespace Companion

namespace Compilation

open Text.Dotted

variable {c : Compilation} {text name : String} {result : Compilation × TypeId}

/-! ### The full name of a reference -/

theorem splitLast?_dot (hd : '.' ∉ name.toList) : splitLast? ("." ++ name) = some ("", name) := by
  have hsplit := splitLast?_append_dot "" hd
  rwa [String.empty_append] at hsplit

/-- Of a dot in front of a name without further dots nothing is left. -/
theorem externalName_of_dot (hd : '.' ∉ name.toList) : externalName ("." ++ name) = name := by
  rw [externalName, splitLast?_dot hd]
  rfl

/-- Any other name is the full name as it is. -/
theorem externalName_eq_self_iff :
    externalName text = text ↔ ∀ name, '.' ∉ name.toList → text ≠ "." ++ name := by
  constructor
  · intro hself name hd htext
    rw [htext, externalName_of_dot hd] at hself
    have hlength := congrArg String.length hself
    rw [String.length_append] at hlength
    have hdot : ".".length = 1 := rfl
    omega
  · intro hother
    cases hs : splitLast? text with
    | none => rw [externalName, hs]
    | some parts =>
      obtain ⟨path, name⟩ := parts
      have htext := append_of_splitLast? hs
      have hpath : path.isEmpty = false := by
        rw [← Bool.not_eq_true, String.isEmpty_iff]
        rintro rfl
        exact hother name (not_mem_of_splitLast? hs) (by rw [htext, String.empty_append])
      rw [externalName, hs]
      dsimp only
      rw [hpath, if_neg Bool.false_ne_true, htext]

/-! ### What a reference comes to -/

/-- What a reference to the type with this full name comes to.  The type is found under the name
from then on.  If it was found before, no type is added or changed, and if not, one type is added
behind the others, which is marked external. -/
structure Refers (c : Compilation) (name : String) (result : Compilation × TypeId) : Prop where
  fullName : result.1.fullName result.2 = name
  found : result.1.lookup? name = some result.2
  known : ∀ id, c.lookup? name = some id → result.2 = id ∧ result.1.types = c.types
  new : c.lookup? name = none → result.2 = ⟨c.types.length⟩ ∧ ∃ simpleName scope,
    result.1.types = c.types ++ [⟨name, { name := simpleName, scope, isExternal := true }⟩]
  fullNames : ∀ id ∈ c.typeIds, result.1.fullName id = c.fullName id
  declarations : result.1.declarations = c.declarations

/-- Every reference is one to the type of some full name. -/
theorem Interned.refers_externalName (h : c.Interned) (text : String) :
    c.Refers (externalName text) (c.internExternal text) := by
  have hspec := internExternal_spec h text
  have hcases := internExternal_cases h text
  refine ⟨hspec.fullName, ?_, ?_, ?_, ?_, declarations_internExternal c text⟩
  · exact hspec.interned.lookup?_eq_some_iff.mpr ⟨hspec.known, hspec.fullName⟩
  · intro id hid
    rcases hcases with ⟨id', hl, htypes, hresult⟩ | ⟨hl, -, -⟩
    · rw [hid, Option.some.injEq] at hl
      exact ⟨by rw [hresult, hl], htypes⟩
    · rw [hid] at hl
      exact absurd hl (by simp)
  · intro hnone
    rcases hcases with ⟨id, hl, -, -⟩ | ⟨-, hadded, hid⟩
    · rw [hnone] at hl
      exact absurd hl (by simp)
    · exact ⟨hid, hadded⟩
  · intro id hmem
    exact hspec.extends_.fullName_eq h hmem

/-- In a compilation that is built up from nothing a reference comes to the type with the full name
that it was asked for, unless this is a dot and behind it a name without dots.  Then it comes to the
type whose full name is the name behind the dot. -/
theorem internExternal_refers_spec (hb : Builds {} c) (text : String) :
    (c.Refers text (c.internExternal text) ↔
      ∀ name, '.' ∉ name.toList → text ≠ "." ++ name) ∧
    ∀ name, '.' ∉ name.toList → text = "." ++ name →
      c.Refers name (c.internExternal text) := by
  obtain ⟨h, -⟩ := hb.interned_extends interned_empty
  have hrefers := h.refers_externalName text
  refine ⟨?_, ?_⟩
  · rw [← externalName_eq_self_iff]
    constructor
    · intro hself
      exact hrefers.fullName.symm.trans hself.fullName
    · intro hself
      rwa [hself] at hrefers
  · intro name hd htext
    rw [htext, externalName_of_dot hd, ← htext] at hrefers
    exact hrefers

/-- A type directly under the global namespace whose simple name is a dot and a letter. -/
def dotNamed : Compilation :=
  Call.run {} (.internType none ".A")

theorem builds_dotNamed : Builds {} dotNamed :=
  Relation.ReflTransGen.single ⟨.internType none ".A", knowsScope_none _, rfl⟩

/-- A reference with a scope in front is to the type of that name, also with dots that lead or meet,
and one with nothing in front of its dot is to the type behind the dot. -/
theorem internExternal_refers_spec_dotNamed :
    dotNamed.Refers "..N.B" (dotNamed.internExternal "..N.B") ∧
      dotNamed.Refers "A" (dotNamed.internExternal ".A") := by
  have hdots : ∀ name : String, '.' ∉ name.toList → "..N.B" ≠ "." ++ name := by
    intro name hd htext
    have hlist := congrArg String.toList htext
    rw [String.toList_append] at hlist
    have hname : ['.', 'N', '.', 'B'] = name.toList := (List.cons.inj hlist).2
    rw [← hname] at hd
    exact hd List.mem_cons_self
  exact ⟨(internExternal_refers_spec builds_dotNamed "..N.B").1.mpr hdots,
    (internExternal_refers_spec builds_dotNamed ".A").2 "A" (by decide) rfl⟩

/-- A type whose full name begins with its only dot is not found by a reference to that name, which
adds a type with another full name. -/
theorem not_refers_dotNamed :
    Builds {} dotNamed ∧ dotNamed.lookup? ".A" = some ⟨0⟩ ∧
      (dotNamed.internExternal ".A").2 = ⟨1⟩ ∧
      (dotNamed.internExternal ".A").1.fullName ⟨1⟩ = "A" ∧
      (dotNamed.internExternal ".A").1.types.length = dotNamed.types.length + 1 ∧
      ¬ dotNamed.Refers ".A" (dotNamed.internExternal ".A") := by
  have hid : (dotNamed.internExternal ".A").2 = ⟨1⟩ := by decide +kernel
  have hname : (dotNamed.internExternal ".A").1.fullName ⟨1⟩ = "A" := by decide +kernel
  refine ⟨builds_dotNamed, by decide +kernel, hid, hname, by decide +kernel, ?_⟩
  intro hrefers
  have hfull := hrefers.fullName
  rw [hid, hname] at hfull
  exact absurd hfull (by decide)

end Compilation

end Companion
