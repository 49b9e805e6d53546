import Companion.Proofs.Template.OnePass

/-!
# What later passes leave alone

Arguments may hold dollar signs, and even placeholders, without a later pass touching them.  An
argument has to hold no placeholder that a later pass looks for, and none may come about at its ends.
The ends are a matter of the template, so whole templates are safe for any arguments of that kind.

* `Tidy`: a template in which nothing that is put in can go on into a placeholder.
* `NoLaterPlaceholder`: no argument holds a placeholder of a later one.
* `fillOne_append_of_standsClear`: a pass goes over an argument without its placeholder.
* `fill_take_eq_fillAtOnce`: after each pass the text is that of one scan.
* `fillAtOnce_congr`: a scan asks for the arguments whose placeholders there are, and for no others.
-/

namespace Companion.Template

/-- A placeholder as it stands in a text. -/
def placeholder (index : Nat) : List Char :=
  '$' :: indexDigits index

/-- The text begins with no digit, which would go on a placeholder in front of it, and with no dollar
sign. -/
def StandsClear (text : List Char) : Prop :=
  ∀ c ∈ text.head?, c ≠ '$' ∧ digit? c = none

/-- What may stand behind a dollar sign: no other one, and a digit only as a placeholder of one of the
given indices with nothing close behind it. -/
def Follows (indices : List Nat) : List Char → Prop
  | [] => True
  | c :: rest => c ≠ '$' ∧ ∀ index ∈ digit? c, index ∈ indices ∧ StandsClear rest

/-- The placeholders of a template have given indices and stand apart from other dollar signs and
from digits. -/
def Tidy (indices : List Nat) (text : List Char) : Prop :=
  ∀ rest, '$' :: rest <:+ text → Follows indices rest

/-- No argument holds a placeholder of a later one. -/
def NoLaterPlaceholder (arguments : List (List Char)) : Prop :=
  ∀ index argument later, arguments[index]? = some argument → index < later →
    later < arguments.length → ¬ placeholder later <:+: argument

variable {indices : List Nat} {arguments : List (List Char)} {argument text front back rest : List Char}
  {index : Nat} {c : Char}

/-! ### Tidy templates -/

theorem tidy_nil : Tidy indices [] := by
  intro rest hsuffix
  exact absurd (List.suffix_nil.mp hsuffix) (List.cons_ne_nil _ _)

theorem tidy_cons :
    Tidy indices (c :: text) ↔ (c = '$' → Follows indices text) ∧ Tidy indices text := by
  constructor
  · intro h
    refine ⟨?_, fun rest hsuffix => h rest (hsuffix.trans (List.suffix_cons c text))⟩
    rintro rfl
    exact h text List.suffix_rfl
  · rintro ⟨hhead, htail⟩ rest hsuffix
    rcases List.suffix_cons_iff.mp hsuffix with heq | hinner
    · obtain ⟨hc, rfl⟩ := List.cons.inj heq
      exact hhead hc.symm
    · exact htail rest hinner

-- The instance is named, as others run through all characters that there are.
instance (text : List Char) : Decidable (StandsClear text) :=
  Option.decidableForallMem text.head?

instance : (text : List Char) → Decidable (Follows indices text)
  | [] => inferInstanceAs (Decidable True)
  | c :: rest =>
    inferInstanceAs (Decidable (c ≠ '$' ∧ ∀ index ∈ digit? c, index ∈ indices ∧ StandsClear rest))

instance decidableTidy : (text : List Char) → Decidable (Tidy indices text)
  | [] => isTrue tidy_nil
  | _ :: text =>
    have := decidableTidy text
    decidable_of_iff _ tidy_cons.symm

theorem Follows.mono {more : List Nat} (h : Follows indices rest) (hsub : indices ⊆ more) :
    Follows more rest := by
  cases rest with
  | nil => trivial
  | cons c rest => exact ⟨h.1, fun index hindex => ⟨hsub (h.2 index hindex).1, (h.2 index hindex).2⟩⟩

theorem Tidy.mono {more : List Nat} (h : Tidy indices text) (hsub : indices ⊆ more) :
    Tidy more text :=
  fun rest hsuffix => (h rest hsuffix).mono hsub

/-- In a tidy template no two dollar signs meet. -/
theorem Tidy.dollarsApart (h : Tidy indices text) : DollarsApart text := by
  rintro ⟨front, back, rfl⟩
  refine (h ('$' :: back) ⟨front, ?_⟩).1 rfl
  rw [List.append_assoc]
  rfl

theorem Follows.append_line (h : Follows indices rest) (back : List Char) :
    Follows indices (rest ++ '\n' :: back) := by
  have hline : digit? '\n' = none := by decide
  cases rest with
  | nil => exact ⟨by decide, by simp [hline]⟩
  | cons c rest =>
    refine ⟨h.1, fun index hindex => ⟨(h.2 index hindex).1, ?_⟩⟩
    cases rest with
    | nil =>
      rintro _ ⟨⟩
      exact ⟨by decide, hline⟩
    | cons d rest => exact (h.2 index hindex).2

/-- Lines are tidy on their own. -/
theorem Tidy.append_line (hfront : Tidy indices front) (hback : Tidy indices back) :
    Tidy indices (front ++ '\n' :: back) := by
  induction front with
  | nil => exact tidy_cons.mpr ⟨fun h => absurd h (by decide), hback⟩
  | cons c front ih =>
    obtain ⟨hhead, htail⟩ := tidy_cons.mp hfront
    exact tidy_cons.mpr ⟨fun h => (hhead h).append_line back, ih htail⟩

/-! ### Passes over what has been put in -/

theorem digit?_ne_none_of_mem_indexDigits (h : c ∈ indexDigits index) : digit? c ≠ none := by
  rw [digit?, if_pos (Nat.isDigit_of_mem_toDigits (by decide) (by decide) h)]
  exact Option.some_ne_none _

/-- The digits of an index that are not all in one text go on into the next one. -/
theorem isPrefix_of_isPrefix_append (clear : StandsClear rest)
    (h : indexDigits index <+: argument ++ rest) : indexDigits index <+: argument := by
  rcases List.prefix_or_prefix_of_prefix h (List.prefix_append argument rest) with hin | hover
  · exact hin
  · obtain ⟨more, hmore⟩ := hover
    rw [← hmore, List.prefix_append_right_inj] at h
    cases more with
    | nil =>
      have hwhole : indexDigits index = argument := by rw [← hmore, List.append_nil]
      exact hwhole ▸ List.prefix_refl _
    | cons d more =>
      obtain ⟨tail, rfl⟩ := h
      have hdigit : d ∈ indexDigits index := by
        rw [← hmore]
        exact List.mem_append_right _ List.mem_cons_self
      exact absurd (clear d rfl).2 (digit?_ne_none_of_mem_indexDigits hdigit)

/-- A pass goes over a text without its placeholder, if no digit stands behind it. -/
theorem fillOne_append_of_standsClear (fresh : ¬ placeholder index <:+: argument)
    (clear : StandsClear rest) (added : List Char) :
    fillOne index added (argument ++ rest) = argument ++ fillOne index added rest := by
  induction argument with
  | nil => rfl
  | cons c argument ih =>
    have hmiss : ¬ (c = '$' ∧ (indexDigits index).isPrefixOf (argument ++ rest) = true) := by
      rintro ⟨rfl, hprefix⟩
      have hin := isPrefix_of_isPrefix_append clear (List.isPrefixOf_iff_prefix.mp hprefix)
      exact fresh (List.cons_prefix_cons.mpr ⟨rfl, hin⟩).isInfix
    have hrest : ¬ placeholder index <:+: argument := fun hinner =>
      fresh (hinner.trans (List.suffix_cons c argument).isInfix)
    rw [List.cons_append, fillOne, Text.replaceAll_miss hmiss, ← fillOne, ih hrest, List.cons_append]

/-- What stands clear does so after it has been scanned. -/
theorem StandsClear.scanFill (clear : StandsClear rest) (arguments : List (List Char)) :
    StandsClear (scanFill arguments rest) := by
  cases rest with
  | nil => exact clear
  | cons c rest =>
    rw [scanFill_cons (clear c rfl).1]
    exact clear

/-- In a tidy template one more pass puts one more argument in and does nothing else. -/
theorem Tidy.fillOne_scanFill (tidy : Tidy indices text)
    (fresh : ∀ a ∈ arguments, ¬ placeholder arguments.length <:+: a) (added : List Char) :
    fillOne arguments.length added (Template.scanFill arguments text) =
      Template.scanFill (arguments ++ [added]) text := by
  refine fillOne_scanFill_of_passed tidy.dollarsApart ?_
  intro c rest argument hsuffix found
  have hdigit : ∃ index, digit? c = some index := by
    rw [argumentAt?, Option.bind_eq_some_iff] at found
    obtain ⟨index, hindex, -⟩ := found
    exact ⟨index, hindex⟩
  obtain ⟨index, hindex⟩ := hdigit
  have clear : StandsClear rest := ((tidy (c :: rest) hsuffix).2 index hindex).2
  exact fillOne_append_of_standsClear (fresh argument (mem_of_argumentAt? found))
    (clear.scanFill arguments) added

/-! ### All passes -/

theorem NoLaterPlaceholder.take (h : NoLaterPlaceholder arguments) (n : Nat) : NoLaterPlaceholder (arguments.take n) := by
  intro index argument later hget hlt hlater
  rw [List.length_take] at hlater
  refine h index argument later ?_ hlt (by omega)
  rw [List.getElem?_take_of_lt (by omega)] at hget
  exact hget

/-- In a tidy template, and with arguments that keep to their own placeholders, the text is that of
one scan after each pass. -/
theorem fill_take_eq_fillAtOnce {arguments : List String} {text : String}
    (tidy : Tidy indices text.toList) (keep : NoLaterPlaceholder (arguments.map String.toList)) (n : Nat) :
    fill (arguments.take n) text = fillAtOnce (arguments.take n) text := by
  have hkeep : NoLaterPlaceholder ((arguments.take n).map String.toList) := by
    rw [List.map_take]
    exact keep.take n
  generalize (arguments.take n) = given at hkeep ⊢
  have hstep : ∀ front argument back, [] ++ given.map String.toList = front ++ argument :: back →
      fillOne front.length argument (scanFill front text.toList) =
        scanFill (front ++ [argument]) text.toList := by
    intro front argument back hsplit
    rw [List.nil_append] at hsplit
    refine tidy.fillOne_scanFill ?_ argument
    intro a ha
    obtain ⟨index, hlt, rfl⟩ := List.getElem_of_mem ha
    refine hkeep index _ front.length ?_ hlt ?_
    · rw [hsplit, List.getElem?_append_left hlt, List.getElem?_eq_getElem hlt]
    · rw [hsplit, List.length_append, List.length_cons]
      omega
  have hfill := fillFrom_scanFill_of_step [] (given.map String.toList) hstep
  rw [scanFill_nil, List.nil_append] at hfill
  exact congrArg String.ofList hfill

/-! ### Arguments that are asked for -/

/-- A scan asks for the arguments whose placeholders there are, and for no others. -/
theorem Tidy.scanFill_congr {other : List (List Char)} (tidy : Tidy indices text)
    (same : ∀ index ∈ indices, arguments[index]? = other[index]?) :
    Template.scanFill arguments text = Template.scanFill other text := by
  have hat : ∀ c rest, '$' :: c :: rest <:+ text → argumentAt? arguments c = argumentAt? other c := by
    intro c rest hsuffix
    have hfollows := (tidy (c :: rest) hsuffix).2
    rw [argumentAt?, argumentAt?]
    cases hdigit : digit? c with
    | none => rfl
    | some index => exact same index (hfollows index hdigit).1
  clear tidy
  induction text using scanFill.induct arguments with
  | case1 c rest argument found ih =>
    have hbehind : rest <:+ '$' :: c :: rest := ⟨['$', c], rfl⟩
    rw [scanFill_some found, scanFill_some (hat c rest List.suffix_rfl ▸ found),
      ih fun d more hsuffix => hat d more (hsuffix.trans hbehind)]
  | case2 c rest missing ih =>
    rw [scanFill_none missing, scanFill_none (hat c rest List.suffix_rfl ▸ missing),
      ih fun d more hsuffix => hat d more (hsuffix.trans (List.suffix_cons '$' (c :: rest)))]
  | case3 c rest none ih =>
    rw [Template.scanFill, Template.scanFill,
      ih fun d more hsuffix => hat d more (hsuffix.trans (List.suffix_cons c rest))]
    · exact none
    · exact none
  | case4 => rfl

theorem fillAtOnce_congr {arguments other : List String} {text : String}
    (tidy : Tidy indices text.toList) (same : ∀ index ∈ indices, arguments[index]? = other[index]?) :
    fillAtOnce arguments text = fillAtOnce other text := by
  rw [fillAtOnce, fillAtOnce, tidy.scanFill_congr]
  intro index hindex
  rw [List.getElem?_map, List.getElem?_map, same index hindex]

/-- A tidy template without placeholders stays as it is. -/
theorem fillAtOnce_of_tidy_nil {text : String} (tidy : Tidy [] text.toList)
    (arguments : List String) : fillAtOnce arguments text = text := by
  have hnone : fillAtOnce arguments text = fillAtOnce [] text :=
    fillAtOnce_congr tidy (by simp)
  rw [hnone, fillAtOnce, List.map_nil, scanFill_nil, String.ofList_toList]

end Companion.Template
