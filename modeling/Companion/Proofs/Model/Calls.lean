import Companion.Proofs.Model.FullNames
import Mathlib.Logic.Relation

/-!
# Compilations that are built up by calls

* `Call`: one operation that adds to a compilation or edits it.
* `Call.Permitted`: what a caller has to see to: scopes are known, and an edit touches neither the
  name nor the scope of a type.
* `Builds`: what any number of permitted calls makes of a compilation.
* `builds_spec`: each type is found under its full name and nowhere else, and no call renames a
  type that is there.
-/

namespace Companion

/-- One operation that adds to a compilation or edits it. -/
inductive Call
  | internScope (parent : Option NamespaceId) (name : String)
  | internType (scope : Option NamespaceId) (name : String)
  | internExternal (qualifiedName : String)
  | declare (id : TypeId) (isPartial : Bool)
  | setBase (id : TypeId) (base : Option TypeId)
  | edit (id : TypeId) (change : TypeSymbol → TypeSymbol)

namespace Call

/-- The compilation after a call. -/
def run (c : Compilation) : Call → Compilation
  | .internScope parent name => (c.internScope parent name).1
  | .internType scope name => (c.internType scope name).1
  | .internExternal qualifiedName => (c.internExternal qualifiedName).1
  | .declare id isPartial => (c.declare id isPartial).1
  | .setBase id base => c.setBase id base
  | .edit id change => c.updateType id change

/-- Scopes are known, and an edit touches neither the name nor the scope of a type. -/
def Permitted (c : Compilation) : Call → Prop
  | .internScope parent _ => c.KnowsScope parent
  | .internType scope _ => c.KnowsScope scope
  | .edit _ change =>
    ∀ symbol, (change symbol).scope = symbol.scope ∧ (change symbol).name = symbol.name
  | _ => True

/-- A permitted call keeps names and registration in agreement, and what is there in place. -/
theorem run_spec {c : Compilation} (h : c.Interned) {call : Call} (permitted : call.Permitted c) :
    (call.run c).Interned ∧ c.Extends (call.run c) := by
  cases call with
  | internScope parent name => exact h.internScope permitted name
  | internType scope name =>
    have hspec := Compilation.internType_spec h permitted name
    exact ⟨hspec.interned, hspec.extends_⟩
  | internExternal qualifiedName =>
    have hspec := Compilation.internExternal_spec h qualifiedName
    exact ⟨hspec.interned, hspec.extends_⟩
  | declare id isPartial => exact h.declare id isPartial
  | setBase id base =>
    exact h.updateType id (fun symbol => { symbol with base }) (fun _ => rfl) (fun _ => rfl)
  | edit id change =>
    exact h.updateType id change (fun symbol => (permitted symbol).1)
      (fun symbol => (permitted symbol).2)

end Call

namespace Compilation

/-- One permitted call leads from a compilation to the next one. -/
def Step (c c' : Compilation) : Prop :=
  ∃ call : Call, call.Permitted c ∧ c' = call.run c

/-- Any number of permitted calls leads from a compilation to another one. -/
def Builds : Compilation → Compilation → Prop :=
  Relation.ReflTransGen Step

variable {c c' : Compilation}

/-- Calls that are permitted anywhere can be made one after another. -/
theorem builds_foldl {calls : List Call} (permitted : ∀ call ∈ calls, ∀ c, call.Permitted c)
    (c : Compilation) : c.Builds (calls.foldl Call.run c) := by
  induction calls generalizing c with
  | nil => exact Relation.ReflTransGen.refl
  | cons call rest ih =>
    rw [List.forall_mem_cons] at permitted
    exact Relation.ReflTransGen.head ⟨call, permitted.1 c, rfl⟩ (ih permitted.2 _)

/-- Any number of permitted calls keeps names and registration in agreement, and what is there in
place. -/
theorem Builds.interned_extends (hb : c.Builds c') (h : c.Interned) :
    c'.Interned ∧ c.Extends c' := by
  induction hb with
  | refl => exact ⟨h, Extends.refl c⟩
  | tail _ hstep ih =>
    obtain ⟨call, permitted, rfl⟩ := hstep
    obtain ⟨hinterned, hextends⟩ := Call.run_spec ih.1 permitted
    exact ⟨hinterned, ih.2.trans hextends⟩

/-- In a compilation that is built up from nothing each type is found under its full name and
nowhere else, so full names tell types apart.  Building on does not rename a type. -/
theorem builds_spec (hb : Builds {} c) :
    (∀ id ∈ c.typeIds, c.lookup? (c.fullName id) = some id) ∧
    (∀ name id, c.lookup? name = some id → id ∈ c.typeIds ∧ c.fullName id = name) ∧
    (∀ a ∈ c.typeIds, ∀ b ∈ c.typeIds, c.fullName a = c.fullName b → a = b) ∧
    ∀ c', c.Builds c' → ∀ id ∈ c.typeIds, id ∈ c'.typeIds ∧ c'.fullName id = c.fullName id := by
  obtain ⟨h, -⟩ := hb.interned_extends interned_empty
  refine ⟨?_, ?_, ?_, ?_⟩
  · intro id known
    exact h.lookup?_fullName known
  · intro name id hid
    exact h.lookup?_eq_some_iff.mp hid
  · intro a ha b hb' hab
    exact h.fullName_inj ha hb' hab
  · intro c' hb' id known
    obtain ⟨-, hx⟩ := hb'.interned_extends h
    exact ⟨hx.mem_typeIds known, hx.fullName_eq h known⟩

/-- A class `C` in the scope `A.B`. -/
def dottedSample : Compilation :=
  Call.run (Call.run {} (.internScope none "A.B")) (.internType (some ⟨1⟩) "C")

theorem builds_dottedSample : Builds {} dottedSample := by
  have hscope : Step {} (Call.run {} (.internScope none "A.B")) :=
    ⟨.internScope none "A.B", knowsScope_none _, rfl⟩
  have htype : Step (Call.run {} (.internScope none "A.B")) dottedSample := by
    refine ⟨.internType (some ⟨1⟩) "C", ?_, rfl⟩
    rintro id ⟨⟩
    decide +kernel
  exact (Relation.ReflTransGen.single hscope).tail htype

/-- The class is found under its qualified name, and a reference to it by that name leaves it so. -/
theorem builds_spec_dottedSample :
    Builds {} dottedSample ∧ dottedSample.lookup? "A.B.C" = some ⟨0⟩ ∧
      (Call.run dottedSample (.internExternal "A.B.C")).fullName ⟨0⟩ = "A.B.C" := by
  have hspec := builds_spec builds_dottedSample
  have known : (⟨0⟩ : TypeId) ∈ dottedSample.typeIds := by decide +kernel
  have hname : dottedSample.fullName ⟨0⟩ = "A.B.C" := by decide +kernel
  have hstep : dottedSample.Builds (Call.run dottedSample (.internExternal "A.B.C")) :=
    Relation.ReflTransGen.single ⟨.internExternal "A.B.C", trivial, rfl⟩
  refine ⟨builds_dottedSample, ?_, ?_⟩
  · rw [← hname]
    exact hspec.1 ⟨0⟩ known
  · rw [(hspec.2.2.2 _ hstep ⟨0⟩ known).2, hname]

end Compilation

end Companion
