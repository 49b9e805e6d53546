import Companion.Template.Substitution

/-!
# Filling in one pass

Filling goes over the whole text once for each argument, so a pass also sees what earlier passes have
put in.  Where arguments hold no dollar sign, and no two of them meet in the text, this comes to one
scan from left to right, in which a dollar sign with a digit behind it is a placeholder.

* `fillAtOnce`: such a scan.
* `DollarsApart`: no two dollar signs meet.
* `fillOne_scanFill_of_passed`, `fillOne_scanFill`: after one more pass the text is scanned with one
  more argument.
* `fillFrom_scanFill_of_step`, `fillFrom_scanFill`: so it is after all passes.
* `render_spec`: filling is the same as one scan, and only ten arguments count.
-/

namespace Companion.Template

/-! ### One scan -/

/-- The value of a decimal digit. -/
def digit? (c : Char) : Option Nat :=
  if c.isDigit then some (c.toNat - '0'.toNat) else none

/-- The argument that a dollar sign in front of a character stands for. -/
def argumentAt? (arguments : List (List Char)) (c : Char) : Option (List Char) :=
  (digit? c).bind fun index => arguments[index]?

/-- Fills the placeholders in one scan from left to right.  A placeholder is a dollar sign with one
digit.  Where there is no argument for it, and everywhere else, characters are copied. -/
def scanFill (arguments : List (List Char)) : List Char → List Char
  | '$' :: c :: rest =>
    match argumentAt? arguments c with
    | some argument => argument ++ scanFill arguments rest
    | none => '$' :: scanFill arguments (c :: rest)
  | c :: rest => c :: scanFill arguments rest
  | [] => []

/-- Fills the placeholders of a text in one scan. -/
def fillAtOnce (arguments : List String) (text : String) : String :=
  String.ofList (scanFill (arguments.map String.toList) text.toList)

/-- No two dollar signs meet. -/
def DollarsApart (text : List Char) : Prop :=
  ¬ ['$', '$'] <:+: text

instance (text : List Char) : Decidable (DollarsApart text) :=
  inferInstanceAs (Decidable (¬ _))

variable {arguments : List (List Char)} {argument text rest : List Char} {c : Char}

theorem scanFill_cons (h : c ≠ '$') (rest : List Char) :
    scanFill arguments (c :: rest) = c :: scanFill arguments rest := by
  rw [scanFill]
  rintro _ _ rfl
  exact absurd rfl h

theorem scanFill_some (h : argumentAt? arguments c = some argument) (rest : List Char) :
    scanFill arguments ('$' :: c :: rest) = argument ++ scanFill arguments rest := by
  rw [scanFill, h]

theorem scanFill_none (h : argumentAt? arguments c = none) (rest : List Char) :
    scanFill arguments ('$' :: c :: rest) = '$' :: scanFill arguments (c :: rest) := by
  rw [scanFill, h]

/-- Without arguments all is copied. -/
theorem scanFill_nil (text : List Char) : scanFill [] text = text := by
  induction text with
  | nil => rfl
  | cons c rest ih =>
    by_cases h : c = '$'
    · subst h
      cases rest with
      | nil => rfl
      | cons d more =>
        have hnone : argumentAt? [] d = none := by simp [argumentAt?]
        rw [scanFill_none hnone, ih]
    · rw [scanFill_cons h, ih]

/-! ### Dollar signs that do not meet -/

theorem DollarsApart.tail (h : DollarsApart (c :: rest)) : DollarsApart rest :=
  fun happears => h (happears.trans (List.suffix_cons c rest).isInfix)

theorem DollarsApart.ne (h : DollarsApart ('$' :: c :: rest)) : c ≠ '$' := by
  rintro rfl
  exact h ⟨[], rest, rfl⟩

/-! ### Digits of an index -/

theorem digit?_eq_some_iff {value : Nat} :
    digit? c = some value ↔ value < 10 ∧ c = Nat.digitChar value := by
  constructor
  · intro h
    rw [digit?] at h
    split at h
    · next hdigit =>
      rw [Char.isDigit, Bool.and_eq_true, decide_eq_true_iff, decide_eq_true_iff] at hdigit
      have hlow : 48 ≤ c.toNat := hdigit.1
      have hhigh : c.toNat ≤ 57 := hdigit.2
      have hvalue : c.toNat - 48 = value := Option.some.inj h
      have hten : value < 10 := by omega
      refine ⟨hten, Char.toNat_inj.mp ?_⟩
      rw [Nat.toNat_digitChar_of_lt_ten hten]
      omega
    · exact absurd h (by simp)
  · rintro ⟨hten, rfl⟩
    have hall : ∀ value < 10, digit? (Nat.digitChar value) = some value := by decide
    exact hall value hten

/-- The index of a placeholder begins with a digit that is no larger than the index. -/
theorem exists_indexDigits_eq (index : Nat) :
    ∃ c more value, indexDigits index = c :: more ∧ digit? c = some value ∧ value ≤ index := by
  rw [indexDigits]
  induction index using Nat.strongRecOn with
  | ind index ih =>
    by_cases hsmall : index < 10
    · exact ⟨_, [], index, Nat.toDigits_of_lt_base hsmall, digit?_eq_some_iff.mpr ⟨hsmall, rfl⟩,
        Nat.le_refl index⟩
    · obtain ⟨c, more, value, hdigits, hvalue, hle⟩ := ih (index / 10) (by omega)
      refine ⟨c, more ++ [Nat.digitChar (index % 10)], value, ?_, hvalue, by omega⟩
      rw [Nat.toDigits_of_base_le (by decide) (Nat.le_of_not_lt hsmall), hdigits, List.cons_append]

theorem mem_of_argumentAt? (h : argumentAt? arguments c = some argument) :
    argument ∈ arguments := by
  rw [argumentAt?, Option.bind_eq_some_iff] at h
  obtain ⟨value, -, hget⟩ := h
  exact List.mem_of_getElem? hget

theorem argumentAt?_append (h : argumentAt? arguments c = some argument)
    (more : List (List Char)) : argumentAt? (arguments ++ more) c = some argument := by
  rw [argumentAt?, Option.bind_eq_some_iff] at h ⊢
  obtain ⟨value, hvalue, hget⟩ := h
  refine ⟨value, hvalue, ?_⟩
  rw [List.getElem?_append_left (List.getElem?_eq_some_iff.mp hget).1, hget]

/-- A character that stands for one more argument only is the digit of its index. -/
theorem eq_of_argumentAt?_concat {added : List Char}
    (hnone : argumentAt? arguments c = none)
    (hsome : argumentAt? (arguments ++ [added]) c = some argument) :
    indexDigits arguments.length = [c] ∧ argument = added := by
  rw [argumentAt?, Option.bind_eq_some_iff] at hsome
  obtain ⟨value, hvalue, hget⟩ := hsome
  rw [argumentAt?, hvalue, Option.bind_some, List.getElem?_eq_none_iff] at hnone
  obtain ⟨hten, rfl⟩ := digit?_eq_some_iff.mp hvalue
  have hlt := (List.getElem?_eq_some_iff.mp hget).1
  rw [List.length_append, List.length_singleton] at hlt
  obtain rfl : value = arguments.length := by omega
  rw [List.getElem?_concat_length, Option.some.injEq] at hget
  exact ⟨Nat.toDigits_of_lt_base hten, hget.symm⟩

/-- A character that stands for no argument does not begin the index of the last one. -/
theorem not_isPrefixOf_indexDigits {added : List Char}
    (hnone : argumentAt? (arguments ++ [added]) c = none) (rest : List Char) :
    ¬ (indexDigits arguments.length).isPrefixOf (c :: rest) := by
  obtain ⟨first, more, value, hdigits, hvalue, hle⟩ := exists_indexDigits_eq arguments.length
  rw [hdigits]
  intro hprefix
  obtain ⟨rfl, -⟩ := List.cons_prefix_cons.mp (List.isPrefixOf_iff_prefix.mp hprefix)
  rw [argumentAt?, hvalue, Option.bind_some, List.getElem?_eq_none_iff, List.length_append,
    List.length_singleton] at hnone
  omega

/-! ### One pass more -/

theorem fillOne_cons (h : c ≠ '$') (index : Nat) (argument rest : List Char) :
    fillOne index argument (c :: rest) = c :: fillOne index argument rest :=
  Text.replaceAll_miss fun hit => h hit.1

/-- What holds no dollar sign is passed over. -/
theorem fillOne_append {front : List Char} (h : '$' ∉ front) (index : Nat)
    (argument rest : List Char) :
    fillOne index argument (front ++ rest) = front ++ fillOne index argument rest := by
  induction front with
  | nil => rfl
  | cons c front ih =>
    rw [List.mem_cons, not_or] at h
    rw [List.cons_append, fillOne_cons (fun he => h.1 he.symm), ih h.2, List.cons_append]

/-- So it is in all passes. -/
theorem fillFrom_append {front : List Char} (h : '$' ∉ front) (index : Nat)
    (arguments : List (List Char)) (rest : List Char) :
    fillFrom index arguments (front ++ rest) = front ++ fillFrom index arguments rest := by
  induction arguments generalizing index rest with
  | nil => rfl
  | cons argument later ih => rw [fillFrom, fillOne_append h, ih, fillFrom]

theorem fillOne_dollar (index : Nat) (argument : List Char) :
    fillOne index argument ['$'] = ['$'] := by
  obtain ⟨first, more, -, hdigits, -⟩ := exists_indexDigits_eq index
  rw [fillOne, Text.replaceAll_miss (by simp [hdigits]), Text.replaceAll_nil]

/-- After one more pass the text is scanned with one more argument, if the pass goes over what stands
where earlier arguments have been put in. -/
theorem fillOne_scanFill_of_passed {added : List Char} (apart : DollarsApart text)
    (passed : ∀ c rest argument, '$' :: c :: rest <:+ text →
      argumentAt? arguments c = some argument →
        fillOne arguments.length added (argument ++ scanFill arguments rest) =
          argument ++ fillOne arguments.length added (scanFill arguments rest)) :
    fillOne arguments.length added (scanFill arguments text) =
      scanFill (arguments ++ [added]) text := by
  induction text using scanFill.induct arguments with
  | case1 c rest argument found ih =>
    have hbehind : rest <:+ '$' :: c :: rest := ⟨['$', c], rfl⟩
    have hrest := ih apart.tail.tail fun d more a hsuffix =>
      passed d more a (hsuffix.trans hbehind)
    rw [scanFill_some found, scanFill_some (argumentAt?_append found [added]),
      passed c rest argument List.suffix_rfl found, hrest]
  | case2 c rest missing ih =>
    have hc : c ≠ '$' := apart.ne
    have hrest := ih apart.tail fun d more a hsuffix =>
      passed d more a (hsuffix.trans (List.suffix_cons '$' (c :: rest)))
    rw [scanFill_cons hc, scanFill_cons hc, fillOne_cons hc, List.cons.injEq] at hrest
    rw [scanFill_none missing, scanFill_cons hc]
    cases hadded : argumentAt? (arguments ++ [added]) c with
    | some argument =>
      obtain ⟨hdigits, rfl⟩ := eq_of_argumentAt?_concat missing hadded
      rw [scanFill_some hadded, ← hrest.2]
      unfold fillOne
      rw [hdigits]
      exact Text.replaceAll_hit '$' [c] argument _
    | none =>
      have hmiss := not_isPrefixOf_indexDigits hadded (scanFill arguments rest)
      rw [scanFill_none hadded, scanFill_cons hc, ← hrest.2, ← fillOne_cons hc, fillOne, fillOne,
        Text.replaceAll_miss fun hit => hmiss hit.2]
  | case3 c rest other ih =>
    by_cases hc : c = '$'
    · subst hc
      cases rest with
      | nil => exact fillOne_dollar _ _
      | cons d more => exact absurd rfl (other d more rfl)
    · have hrest := ih apart.tail fun d more a hsuffix =>
        passed d more a (hsuffix.trans (List.suffix_cons c rest))
      rw [scanFill_cons hc, scanFill_cons hc, fillOne_cons hc, hrest]
  | case4 => exact Text.replaceAll_nil _ _ _

/-- A pass finds nothing in arguments without dollar signs. -/
theorem fillOne_scanFill (clean : ∀ a ∈ arguments, '$' ∉ a) (added : List Char)
    (apart : DollarsApart text) :
    fillOne arguments.length added (scanFill arguments text) =
      scanFill (arguments ++ [added]) text := by
  refine fillOne_scanFill_of_passed apart ?_
  intro c rest argument _ found
  exact fillOne_append (clean argument (mem_of_argumentAt? found)) _ _ _

/-- After all passes the text is scanned with all arguments, if each pass adds its own one. -/
theorem fillFrom_scanFill_of_step (done rest : List (List Char))
    (step : ∀ front argument back, done ++ rest = front ++ argument :: back →
      fillOne front.length argument (scanFill front text) = scanFill (front ++ [argument]) text) :
    fillFrom done.length rest (scanFill done text) = scanFill (done ++ rest) text := by
  induction rest generalizing done with
  | nil => rw [fillFrom, List.append_nil]
  | cons argument rest ih =>
    have hone := step done argument rest rfl
    rw [List.append_cons] at step ⊢
    have hnext := ih (done ++ [argument]) step
    rw [List.length_append, List.length_singleton] at hnext
    rw [fillFrom, hone, hnext]

/-- After all passes the text is scanned with all arguments. -/
theorem fillFrom_scanFill (done rest : List (List Char)) (clean : ∀ a ∈ done ++ rest, '$' ∉ a)
    (apart : DollarsApart text) :
    fillFrom done.length rest (scanFill done text) = scanFill (done ++ rest) text := by
  refine fillFrom_scanFill_of_step done rest ?_
  intro front argument back hsplit
  refine fillOne_scanFill ?_ argument apart
  intro a ha
  exact clean a (hsplit ▸ List.mem_append_left _ ha)

/-! ### What a scan sees -/

/-- Two texts are scanned on their own, unless the first one ends in a dollar sign and the second one
begins with a digit. -/
theorem scanFill_append_of_cut {front back : List Char}
    (cut : front.getLast? = some '$' → ∀ c ∈ back.head?, argumentAt? arguments c = none) :
    scanFill arguments (front ++ back) = scanFill arguments front ++ scanFill arguments back := by
  induction front using scanFill.induct arguments with
  | case1 c rest argument found ih =>
    rw [List.cons_append, List.cons_append, scanFill_some found, scanFill_some found,
      List.append_assoc]
    cases rest with
    | nil => rfl
    | cons d more => rw [ih cut]
  | case2 c rest missing ih =>
    rw [List.cons_append, List.cons_append, scanFill_none missing, ← List.cons_append, ih cut,
      scanFill_none missing, List.cons_append]
  | case3 c rest other ih =>
    by_cases hc : c = '$'
    · subst hc
      cases rest with
      | nil =>
        cases back with
        | nil => rfl
        | cons d more => exact scanFill_none (cut rfl d rfl) more
      | cons d more => exact absurd rfl (other d more rfl)
    · rw [List.cons_append, scanFill_cons hc, scanFill_cons hc, List.cons_append]
      cases rest with
      | nil => rfl
      | cons d more => rw [ih cut]
  | case4 => rfl

/-- A dollar sign cuts a text into two that are scanned on their own. -/
theorem scanFill_append (front back : List Char) :
    scanFill arguments (front ++ '$' :: back) =
      scanFill arguments front ++ scanFill arguments ('$' :: back) := by
  refine scanFill_append_of_cut ?_
  rintro - _ ⟨⟩
  rfl

/-- Arguments behind the first ten are never asked for. -/
theorem scanFill_take (arguments : List (List Char)) (text : List Char) :
    scanFill (arguments.take 10) text = scanFill arguments text := by
  have hsame : argumentAt? (arguments.take 10) = argumentAt? arguments := by
    funext c
    rw [argumentAt?, argumentAt?]
    cases hdigit : digit? c with
    | none => rfl
    | some value =>
      rw [Option.bind_some, Option.bind_some, List.getElem?_take_of_lt (digit?_eq_some_iff.mp hdigit).1]
  induction text using scanFill.induct arguments with
  | case1 c rest argument found ih =>
    rw [scanFill_some found, scanFill_some (hsame ▸ found), ih]
  | case2 c rest missing ih => rw [scanFill_none missing, scanFill_none (hsame ▸ missing), ih]
  | case3 c rest other ih =>
    rw [scanFill, scanFill, ih]
    · exact other
    · exact other
  | case4 => rfl

/-! ### Rendering -/

theorem fillAtOnce_take (arguments : List String) (text : String) :
    fillAtOnce (arguments.take 10) text = fillAtOnce arguments text := by
  rw [fillAtOnce, List.map_take, scanFill_take, fillAtOnce]

/-- A placeholder with two digits is one with its first digit, and the second digit stays. -/
theorem fillAtOnce_ten {arguments : List String} {argument : String}
    (h : arguments[1]? = some argument) (front back : String) :
    fillAtOnce arguments (front ++ "$10" ++ back) =
      fillAtOnce arguments front ++ argument ++ "0" ++ fillAtOnce arguments back := by
  have hfound : argumentAt? (arguments.map String.toList) '1' = some argument.toList := by
    show (arguments.map String.toList)[1]? = _
    rw [List.getElem?_map, h, Option.map_some]
  have htext : (front ++ "$10" ++ back).toList = front.toList ++ '$' :: '1' :: '0' :: back.toList := by
    simp
  apply String.toList_inj.mp
  simp only [fillAtOnce, htext, scanFill_append, scanFill_some hfound, String.toList_append,
    String.toList_ofList, List.append_assoc]
  rw [scanFill_cons (by decide)]
  rfl

/-- Where arguments hold no dollar sign and none meet in the text, filling is one scan from left to
right.  Then `$10` is the argument of index one with a nought behind it, and arguments behind the
first ten are never put in. -/
theorem render_spec {fragments arguments : List String} (clean : ∀ a ∈ arguments, '$' ∉ a.toList)
    (apart : DollarsApart (String.join fragments).toList) :
    render fragments arguments = fillAtOnce arguments (String.join fragments) ∧
      (∀ front back argument, String.join fragments = front ++ "$10" ++ back →
        arguments[1]? = some argument →
          render fragments arguments =
            fillAtOnce arguments front ++ argument ++ "0" ++ fillAtOnce arguments back) ∧
      render fragments arguments = render fragments (arguments.take 10) := by
  have hscan : ∀ given : List String, (∀ a ∈ given, '$' ∉ a.toList) →
      render fragments given = fillAtOnce given (String.join fragments) := by
    intro given hgiven
    have hclean : ∀ a ∈ [] ++ given.map String.toList, '$' ∉ a := by simpa using hgiven
    have hfill := fillFrom_scanFill [] (given.map String.toList) hclean apart
    rw [scanFill_nil, List.nil_append] at hfill
    exact congrArg String.ofList hfill
  refine ⟨hscan arguments clean, ?_, ?_⟩
  · intro front back argument htext hargument
    rw [hscan arguments clean, htext, fillAtOnce_ten hargument]
  · rw [hscan arguments clean, hscan (arguments.take 10) fun a ha => clean a (List.mem_of_mem_take ha),
      fillAtOnce_take]

/-- Two placeholders, of which one is cut by the end of a fragment, and two dollar signs that stay. -/
def cutFragments : List String := ["$1", "0 $", "x $7$"]

/-- Eleven arguments, of which one is empty. -/
def elevenArguments : List String := ["a", "b", "c", "d", "e", "f", "g", "", "i", "j", "k"]

/-- The eleventh argument is not put in, and dollar signs that come to meet do not matter. -/
theorem render_spec_cutFragments :
    DollarsApart (String.join cutFragments).toList ∧
      render cutFragments elevenArguments = "b0 $x $" := by
  have clean : ∀ a ∈ elevenArguments, '$' ∉ a.toList := by decide +kernel
  have apart : DollarsApart (String.join cutFragments).toList := by decide +kernel
  refine ⟨apart, ?_⟩
  rw [(render_spec clean apart).1]
  decide +kernel

end Companion.Template
