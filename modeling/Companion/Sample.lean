import Companion.Generation.Settings
import Companion.Model.Interning

/-!
# Sample inputs

Compilations and manifests of any size, for measuring.

* `Sample.compilation`: classes spread over a few namespaces, a third of which get a unit.
* `Sample.manifest`: a manifest text of the same kind.
-/

namespace Companion.Sample

/-- The samples use the marker type of the standard settings. -/
def marker : String := ({} : Settings).marker

/-- Declares a class with a base and a change to its symbol. -/
def addClass (c : Compilation) (scope : Option NamespaceId) (name : String) (isPartial : Bool)
    (base : TypeId) (change : TypeSymbol → TypeSymbol) : Compilation × TypeId :=
  let (c, id) := c.internType scope name
  ((((c.declare id isPartial).1.setBase id (some base)).updateType id change), id)

/-- Makes a type abstract. -/
def makeAbstract (symbol : TypeSymbol) : TypeSymbol :=
  { symbol with isAbstract := true }

/-- Makes a type public. -/
def makePublic (symbol : TypeSymbol) : TypeSymbol :=
  { symbol with accessibility := .publicAccess }

/-- Stacks abstract classes on a base, each deriving from the one below.  Gives the top one. -/
def addLayers (c : Compilation) (scope : NamespaceId) (base : TypeId) (level : Nat) :
    Nat → Compilation × TypeId
  | 0 => (c, base)
  | count + 1 =>
    let (c, id) :=
      addClass c (some scope) ("Layer" ++ toString level) false base makeAbstract
    addLayers c scope id (level + 1) count

/-- Adds the settings class of the given number.  In turns of six it is eligible, abstract, not
partial, eligible, and twice outside of the hierarchy of the marker. -/
def addSettings (c : Compilation) (root base : TypeId) (number : Nat) : Compilation :=
  let (c, scope) := c.internScope none ("App.Module" ++ toString (number % 8))
  let name := "Settings" ++ toString number
  match number % 6 with
  | 0 | 3 => (addClass c (some scope) name true base makePublic).1
  | 1 => (addClass c (some scope) name true base makeAbstract).1
  | 2 => (addClass c (some scope) name false base id).1
  | _ => (addClass c (some scope) name true root id).1

/-- A compilation with `count` settings classes, whose bases reach the marker type through `depth`
abstract layers. -/
def compilation (count depth : Nat) : Compilation :=
  let (c, core) := ({} : Compilation).internScope none "Game.Core"
  let (c, root) := c.internExternal "UnityEngine.ScriptableObject"
  let (c, markerType) := addClass c (some core) marker false root makeAbstract
  let (c, base) := addLayers c core markerType 0 depth
  (List.range count).foldl (fun c number => addSettings c root base number) c

/-- The line of the settings class of the given number. -/
def manifestLine (number : Nat) : String :=
  "  <namespace name=\"App.Module" ++ toString (number % 8) ++ "\"><class name=\"Settings" ++
    toString number ++ "\" base=\"" ++ marker ++ "\" partial=\"" ++ toString (number % 6 != 2) ++
    "\"/></namespace>\n"

/-- A manifest with `count` settings classes directly under the marker type. -/
def manifest (count : Nat) : String :=
  "<compilation>\n  <class name=\"" ++ marker ++
    "\" base=\"ScriptableObject\" abstract=\"true\"/>\n" ++
    String.join ((List.range count).map manifestLine) ++ "</compilation>\n"

end Companion.Sample
