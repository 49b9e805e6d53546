/-!
# Template fragments

The text of a companion unit is put together from fragments.  In them `$0` stands for the name of
the class, `$1` for its namespace and `$2` for its accessibility.

* `Fragment`: the four fragments.
* `Fragment.text`: their text.
* `Fragment.sequence`: which of them make up a unit, and in which order.
-/

namespace Companion

/-- A piece of the template of a companion unit. -/
inductive Fragment
  /-- The banner and the `using` directives. -/
  | header
  /-- Opens the namespace `$1`. -/
  | namespaceOpen
  /-- The partial class `$0` with accessibility `$2`. -/
  | body
  /-- Closes the namespace. -/
  | namespaceClose
  deriving DecidableEq, Repr

namespace Fragment

/-- The lines of a fragment. -/
def lines : Fragment → List String
  | .header => [
    "// This file is auto-generated. Don't edit it.",
    "using System;",
    "using System.IO;",
    "using UnityEngine;",
    "",
    "#if UNITY_EDITOR",
    "using UnityEditor;",
    "#endif"]
  | .namespaceOpen => [
    "namespace $1 \x7b"]
  | .body => [
    "    $2 partial class $0 \x7b",
    "        private static $0 s_instance;",
    "        public static $0 Instance \x7b",
    "            get \x7b",
    "                if (typeof($0).IsAbstract)",
    "                    throw new InvalidOperationException($\"Cannot get instance of abstract type \x7btypeof($0).Name\x7d\");",
    "                if (s_instance) \x7b",
    "                    return s_instance;",
    "                \x7d",
    "                s_instance = Resources.Load<$0>(ResourcesPath);",
    "                if (!s_instance) \x7b",
    "                    Debug.LogWarning($\"created new instance of \x7btypeof($0).Name\x7d. singleton instance not found at location: \x7bResourcesPath\x7d\");",
    "                    s_instance = CreateInstance<$0>();",
    "                \x7d",
    "                return s_instance;",
    "            \x7d",
    "        \x7d",
    "",
    "        protected const string ResourcesFolderPath = \"SingletonSOs\";",
    "        protected static readonly string ResourcesPath = Path.Combine(ResourcesFolderPath, typeof($0).Name);",
    "",
    "        protected virtual void Awake() \x7b",
    "            if (!s_instance || s_instance == this) return;",
    "            Debug.LogError($\"\x7btypeof($0).Name\x7d deleted. Another instance is already available.\");",
    "#if UNITY_EDITOR",
    "            if (!Application.isPlaying)",
    "                DestroyImmediate(this);",
    "            else",
    "#endif",
    "                Destroy(this);",
    "        \x7d",
    "",
    "        protected virtual void OnDestroy() \x7b",
    "            if (s_instance == this) \x7b",
    "                Debug.LogWarning($\"\x7btypeof($0).Name\x7d instance destroyed. Singleton instance is no longer available.\");",
    "            \x7d",
    "        \x7d",
    "",
    "#if UNITY_EDITOR",
    "        /// <summary>",
    "        /// for In-Editor use only. Don't use it.",
    "        /// </summary>",
    "        [MenuItem(\"Tools/Singleton Scriptable Objects/Game.Core/Select '$0'\")]",
    "        static void Editor_SelectInstance() \x7b",
    "            Selection.activeObject = Instance;",
    "            EditorGUIUtility.PingObject(Instance);",
    "        \x7d",
    "",
    "        /// <summary>",
    "        /// For In-Editor use only. Don't use it.",
    "        /// </summary>",
    "        [InitializeOnLoadMethod]",
    "        static void Editor_EnsureInstanceExists() \x7b",
    "            if (typeof($0).IsAbstract) return;",
    "            EditorApplication.delayCall += AssetManagementUtils.UpdateResourcesForSingletonAsset<$0>;",
    "        \x7d",
    "#endif",
    "",
    "    \x7d"]
  | .namespaceClose => [
    "\x7d"]

/-- A fragment begins with an empty line, and each of its lines is ended. -/
def text (fragment : Fragment) : String :=
  String.join ("\n" :: fragment.lines.map (· ++ "\n"))

/-- The fragments of a unit in order.  Those for the namespace are left out for a class that lives
in none. -/
def sequence (hasNamespace : Bool) : List Fragment :=
  if hasNamespace then [.header, .namespaceOpen, .body, .namespaceClose] else [.header, .body]

end Fragment

end Companion
