import Companion.Generation.SourceUnit
import Companion.Proofs.Template.LaterPasses

/-!
# The text of a unit

Name, namespace and accessibility are put into the joined fragments one after the other.  No pass
finds a placeholder that was not in the fragments, so the text of a unit is that of its fragments, each
of them filled on its own and at once.

* `Fragment.indices`: the placeholders of a fragment.
* `Fragment.tidy`: they keep their distance, whatever is put in.
* `fillAtOnce_join`: fragments are filled on their own.
* `Settings.text_unitFor_ne`: a class in a namespace gets another text than one in none.
* `Settings.text_unitFor_spec`: what the text of a unit is.
-/

namespace Companion

open Template

namespace Fragment

/-- The placeholders of a fragment. -/
def indices : Fragment → List Nat
  | .header => []
  | .namespaceOpen => [1]
  | .body => [0, 2]
  | .namespaceClose => []

variable {indices : List Nat} {fragment : Fragment}

theorem toList_text (fragment : Fragment) :
    fragment.text.toList = '\n' :: fragment.lines.flatMap fun line => line.toList ++ ['\n'] := by
  simp [text, String.toList_join, List.flatMap_def, Function.comp_def]

/-- Every line of a fragment is ended. -/
theorem getLast?_text (fragment : Fragment) : fragment.text.toList.getLast? = some '\n' := by
  rw [toList_text]
  rcases List.eq_nil_or_concat fragment.lines with hnone | ⟨front, line, hlines⟩
  · rw [hnone]
    rfl
  · rw [hlines, List.concat_eq_append, List.flatMap_append, List.flatMap_singleton,
      ← List.append_assoc, ← List.cons_append, List.getLast?_concat]

/-! ### Placeholders of the fragments -/

/-- The placeholders of a line keep their distance. -/
def TidyLine (indices : List Nat) (line : String) : Prop :=
  Tidy indices line.toList

theorem TidyLine.mono {more : List Nat} {line : String} (h : TidyLine indices line)
    (hsub : indices ⊆ more) : TidyLine more line :=
  Tidy.mono h hsub

/-- A line is looked at as the list of its characters. -/
theorem tidyLine_ofList {characters : List Char} (h : Tidy indices characters) :
    TidyLine indices (String.ofList characters) := by
  rw [TidyLine, String.toList_ofList]
  exact h

/-- A fragment in front of a tidy text is tidy if its lines are. -/
theorem tidy_text_append (h : ∀ line ∈ fragment.lines, TidyLine indices line) {back : List Char}
    (hback : Tidy indices back) : Tidy indices (fragment.text.toList ++ back) := by
  rw [toList_text]
  have hlines : Tidy indices
      ((fragment.lines.flatMap fun line => line.toList ++ ['\n']) ++ back) := by
    generalize fragment.lines = lines at h
    induction lines with
    | nil => exact hback
    | cons line rest ih =>
      rw [List.forall_mem_cons] at h
      rw [List.flatMap_cons, List.append_assoc, List.append_assoc]
      exact Tidy.append_line h.1 (ih h.2)
  exact Tidy.append_line tidy_nil hlines

set_option maxRecDepth 2000 in
theorem tidyLine_of_mem_lines (fragment : Fragment) :
    ∀ line ∈ fragment.lines, TidyLine fragment.indices line := by
  cases fragment <;>
    simp only [lines, Fragment.indices, List.forall_mem_cons, List.not_mem_nil, false_imp_iff,
      implies_true, and_true] <;>
    and_intros <;>
    exact tidyLine_ofList (by decide +kernel)

/-- The placeholders of a fragment are its own and keep their distance. -/
theorem tidy (fragment : Fragment) : Tidy fragment.indices fragment.text.toList := by
  have h := tidy_text_append fragment.tidyLine_of_mem_lines tidy_nil
  rwa [List.append_nil] at h

/-- Joined fragments are tidy as a whole. -/
theorem tidy_join {indices : List Nat} {fragments : List Fragment}
    (h : ∀ fragment ∈ fragments, fragment.indices ⊆ indices) :
    Tidy indices (String.join (fragments.map text)).toList := by
  induction fragments with
  | nil => exact tidy_nil
  | cons fragment rest ih =>
    rw [List.forall_mem_cons] at h
    rw [List.map_cons, String.join_cons, String.toList_append]
    refine tidy_text_append ?_ (ih h.2)
    intro line hline
    exact (fragment.tidyLine_of_mem_lines line hline).mono h.1

/-- Joined fragments are filled on their own. -/
theorem fillAtOnce_join (fragments : List Fragment) (arguments : List String) :
    fillAtOnce arguments (String.join (fragments.map text)) =
      String.join (fragments.map fun fragment => fillAtOnce arguments fragment.text) := by
  induction fragments with
  | nil => rfl
  | cons fragment rest ih =>
    rw [List.map_cons, List.map_cons, String.join_cons, String.join_cons, ← ih]
    apply String.toList_inj.mp
    simp only [fillAtOnce, String.toList_append, String.toList_ofList]
    refine scanFill_append_of_cut fun hdollar => ?_
    rw [getLast?_text] at hdollar
    exact absurd (Option.some.inj hdollar) (by decide)

/-! ### How fragments begin -/

theorem not_mem_text_header : '$' ∉ header.text.toList := by
  have hlines : ∀ line ∈ header.lines, '$' ∉ line.toList := by decide +kernel
  rw [toList_text, List.mem_cons, List.mem_flatMap, not_or]
  refine ⟨by decide, ?_⟩
  rintro ⟨line, hline, hmem⟩
  rw [List.mem_append, List.mem_singleton] at hmem
  exact hmem.elim (hlines line hline) (by decide)

/-- What stands behind the header begins with an empty line.  Then it opens the namespace, or it begins
with the indented class. -/
theorem exists_text_sequence (hasNamespace : Bool) :
    ∃ rest, (String.join ((sequence hasNamespace).map text)).toList =
      header.text.toList ++ ['\n', if hasNamespace then 'n' else ' '] ++ rest := by
  have hopen : ∃ rest, namespaceOpen.text.toList = ['\n', 'n'] ++ rest := ⟨_, toList_text _⟩
  have hbody : ∃ rest, body.text.toList = ['\n', ' '] ++ rest := ⟨_, toList_text _⟩
  cases hasNamespace with
  | false =>
    obtain ⟨rest, hrest⟩ := hbody
    refine ⟨rest, ?_⟩
    rw [sequence, if_neg Bool.false_ne_true, List.map_cons, List.map_singleton, String.join_cons,
      String.join_cons, String.join_nil, String.append_empty, String.toList_append, hrest,
      List.append_assoc]
    rfl
  | true =>
    obtain ⟨rest, hrest⟩ := hopen
    refine ⟨rest ++ (String.join [body.text, namespaceClose.text]).toList, ?_⟩
    rw [sequence, if_pos rfl, List.map_cons, List.map_cons, String.join_cons, String.join_cons,
      String.toList_append, String.toList_append, hrest, List.append_assoc, List.append_assoc]
    rfl

end Fragment

/-! ### The text of a unit -/

/-- The text of a unit begins as the joined fragments do, up to where they tell whether there is a
namespace. -/
theorem Settings.exists_text_unitFor (settings : Settings) (descriptor : Descriptor) :
    ∃ rest, (settings.unitFor descriptor).text.toList =
      Fragment.header.text.toList ++ ['\n', if descriptor.hasNamespace then 'n' else ' '] ++ rest := by
  obtain ⟨rest, hrest⟩ := Fragment.exists_text_sequence descriptor.hasNamespace
  have hplain : '$' ∉ Fragment.header.text.toList ++
      ['\n', if descriptor.hasNamespace then 'n' else ' '] := by
    rw [List.mem_append, not_or]
    exact ⟨Fragment.not_mem_text_header, by cases descriptor.hasNamespace <;> decide⟩
  refine ⟨fillFrom 0 (descriptor.arguments.map String.toList) rest, ?_⟩
  rw [unitFor, render, fill, String.toList_ofList, hrest, fillFrom_append hplain]

/-- A class in a namespace gets another text than one in none, whatever there is to put in. -/
theorem Settings.text_unitFor_ne (settings : Settings) {descriptor other : Descriptor}
    (h : descriptor.hasNamespace ≠ other.hasNamespace) :
    (settings.unitFor descriptor).text ≠ (settings.unitFor other).text := by
  obtain ⟨rest, hrest⟩ := settings.exists_text_unitFor descriptor
  obtain ⟨rest', hrest'⟩ := settings.exists_text_unitFor other
  intro hsame
  rw [hsame, hrest', List.append_assoc, List.append_assoc, List.append_cancel_left_eq] at hrest
  have hchar := (List.cons.inj (List.cons.inj hrest).2).1
  revert h hchar
  cases descriptor.hasNamespace <;> cases other.hasNamespace <;> decide

theorem noLaterPlaceholder_arguments {descriptor : Descriptor}
    (name₁ : ¬ "$1".toList <:+: descriptor.name.toList)
    (name₂ : ¬ "$2".toList <:+: descriptor.name.toList)
    (scope₂ : ¬ "$2".toList <:+: descriptor.scopePath.toList) :
    NoLaterPlaceholder (descriptor.arguments.map String.toList) := by
  intro index argument later hget hlt hlater
  have hthree : (descriptor.arguments.map String.toList).length = 3 := rfl
  rw [hthree] at hlater
  have hcases : (index = 0 ∧ later = 1) ∨ (index = 0 ∧ later = 2) ∨ (index = 1 ∧ later = 2) := by
    omega
  rcases hcases with ⟨rfl, rfl⟩ | ⟨rfl, rfl⟩ | ⟨rfl, rfl⟩
  · obtain rfl := Option.some.inj hget
    exact name₁
  · obtain rfl := Option.some.inj hget
    exact name₂
  · obtain rfl := Option.some.inj hget
    exact scope₂

/-- A unit is made of the header, the opened namespace if there is one, the body, and what closes the
namespace.  The namespace stands where `$1` does, and in the body name and accessibility stand where
`$0` and `$2` do, at once and as they are: what else there is to put in does not matter.  So it is
after each pass with the arguments up to there, which says that no later pass changes what has been
put in. -/
theorem Settings.text_unitFor_spec (settings : Settings) {descriptor : Descriptor}
    (name₁ : ¬ "$1".toList <:+: descriptor.name.toList)
    (name₂ : ¬ "$2".toList <:+: descriptor.name.toList)
    (scope₂ : ¬ "$2".toList <:+: descriptor.scopePath.toList) :
    (∀ other₀ other₁ other₂ : String,
      (settings.unitFor descriptor).text =
        Fragment.header.text ++
          (if descriptor.scopePath = "" then ""
            else fillAtOnce [other₀, descriptor.scopePath, other₂] Fragment.namespaceOpen.text) ++
          fillAtOnce [descriptor.name, other₁, descriptor.accessibility] Fragment.body.text ++
          (if descriptor.scopePath = "" then "" else Fragment.namespaceClose.text)) ∧
      ∀ passes,
        fill (descriptor.arguments.take passes)
            (String.join ((Fragment.sequence descriptor.hasNamespace).map Fragment.text)) =
          String.join ((Fragment.sequence descriptor.hasNamespace).map fun fragment =>
            fillAtOnce (descriptor.arguments.take passes) fragment.text) := by
  have htidy : Tidy [0, 1, 2]
      (String.join ((Fragment.sequence descriptor.hasNamespace).map Fragment.text)).toList := by
    refine Fragment.tidy_join fun fragment _ => ?_
    cases fragment <;> decide
  have hpasses : ∀ passes,
      fill (descriptor.arguments.take passes)
          (String.join ((Fragment.sequence descriptor.hasNamespace).map Fragment.text)) =
        String.join ((Fragment.sequence descriptor.hasNamespace).map fun fragment =>
          fillAtOnce (descriptor.arguments.take passes) fragment.text) := by
    intro passes
    rw [fill_take_eq_fillAtOnce htidy (noLaterPlaceholder_arguments name₁ name₂ scope₂),
      Fragment.fillAtOnce_join]
  refine ⟨?_, hpasses⟩
  intro other₀ other₁ other₂
  have hheader := fillAtOnce_of_tidy_nil Fragment.header.tidy descriptor.arguments
  have hclose := fillAtOnce_of_tidy_nil Fragment.namespaceClose.tidy descriptor.arguments
  have hopen : fillAtOnce descriptor.arguments Fragment.namespaceOpen.text =
      fillAtOnce [other₀, descriptor.scopePath, other₂] Fragment.namespaceOpen.text :=
    fillAtOnce_congr Fragment.namespaceOpen.tidy (by simp [Fragment.indices, Descriptor.arguments])
  have hbody : fillAtOnce descriptor.arguments Fragment.body.text =
      fillAtOnce [descriptor.name, other₁, descriptor.accessibility] Fragment.body.text :=
    fillAtOnce_congr Fragment.body.tidy (by simp [Fragment.indices, Descriptor.arguments])
  have htext : (settings.unitFor descriptor).text =
      String.join ((Fragment.sequence descriptor.hasNamespace).map fun fragment =>
        fillAtOnce descriptor.arguments fragment.text) := hpasses 3
  rw [htext, ← hopen, ← hbody]
  by_cases hscope : descriptor.scopePath = ""
  · have hnone : descriptor.hasNamespace = false := by simp [Descriptor.hasNamespace, hscope]
    simp [hnone, hscope, Fragment.sequence, String.join_cons, String.join_nil, hheader]
  · have hsome : descriptor.hasNamespace = true := by simp [Descriptor.hasNamespace, hscope]
    simp [hsome, hscope, Fragment.sequence, String.join_cons, String.join_nil, hheader, hclose,
      String.append_assoc]

/-- A class whose name begins with a digit and ends in a dollar sign, with placeholders in name,
namespace and accessibility. -/
def dollarDescriptor : Descriptor where
  name := "1$0$"
  scopePath := "$.2$1.$0"
  accessibility := "$0$1$2"

/-- All three are put in as they are. -/
theorem text_unitFor_spec_dollarDescriptor :
    (¬ "$1".toList <:+: dollarDescriptor.name.toList) ∧
      (¬ "$2".toList <:+: dollarDescriptor.name.toList) ∧
      (¬ "$2".toList <:+: dollarDescriptor.scopePath.toList) ∧
      ((default : Settings).unitFor dollarDescriptor).text =
        Fragment.header.text ++ "\nnamespace $.2$1.$0 \x7b\n" ++
          fillAtOnce ["1$0$", "", "$0$1$2"] Fragment.body.text ++ "\n\x7d\n" := by
  have name₁ : ¬ "$1".toList <:+: dollarDescriptor.name.toList := by decide +kernel
  have name₂ : ¬ "$2".toList <:+: dollarDescriptor.name.toList := by decide +kernel
  have scope₂ : ¬ "$2".toList <:+: dollarDescriptor.scopePath.toList := by decide +kernel
  have hopen : fillAtOnce ["", dollarDescriptor.scopePath, ""] Fragment.namespaceOpen.text =
      "\nnamespace $.2$1.$0 \x7b\n" := by decide +kernel
  have hclose : Fragment.namespaceClose.text = "\n\x7d\n" := by decide +kernel
  have hscope : dollarDescriptor.scopePath ≠ "" := by decide +kernel
  refine ⟨name₁, name₂, scope₂, ?_⟩
  have hspec := ((default : Settings).text_unitFor_spec name₁ name₂ scope₂).1 "" "" ""
  rw [if_neg hscope, if_neg hscope, hopen, hclose] at hspec
  exact hspec

end Companion
