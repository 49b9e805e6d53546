import Companion.Markup.Delimiter

/-!
# Document type declarations

A document type declaration is passed over.  To find its end, quoted text and the declarations of
its internal subset have to be told apart from the rest.

* `behindDeclaration?`: the end of one declaration of an internal subset.
* `behindSubset?`: the end of an internal subset.
* `behindDocumentType?`: the end of the whole.
-/

namespace Companion.Markup

/-- The declarations in which `>` may stand between quotes. -/
def quotingDeclarations : List (List Char) :=
  ["!ENTITY".toList, "!ATTLIST".toList, "!NOTATION".toList]

/-- What stands behind one declaration of an internal subset, given what follows its `<`. -/
def behindDeclaration? (cs : List Char) : Option (List Char) :=
  match behindLiteral? ['?'] cs, behindLiteral? ['!', '-', '-'] cs with
  | some inside, _ => behind? ['?', '>'] inside
  | none, some inside => behind? ['-', '-', '>'] inside
  | none, none =>
    if quotingDeclarations.any (·.isPrefixOf cs) then (splitTag none cs).toOption.map (·.2)
    else behind? ['>'] cs

theorem length_behindDeclaration? {cs rest : List Char} (h : behindDeclaration? cs = some rest) :
    rest.length ≤ cs.length := by
  unfold behindDeclaration? at h
  split at h
  · next found =>
    exact Nat.le_trans (length_behind? h) (length_behindLiteral? found)
  · next found =>
    exact Nat.le_trans (length_behind? h) (length_behindLiteral? found)
  · split at h
    · cases hs : splitTag none cs with
      | error e => simp [hs, Except.toOption] at h
      | ok parts =>
        simp only [hs, Except.toOption, Option.map_some, Option.some.injEq] at h
        subst h
        exact Nat.le_of_lt (length_splitTag hs)
    · exact length_behind? h

/-- What stands behind the `]` that ends an internal subset. -/
def behindSubset? : List Char → Option (List Char)
  | [] => none
  | c :: cs =>
    if c = ']' then some cs
    else if c = '<' then
      match _found : behindDeclaration? cs with
      | none => none
      | some rest => behindSubset? rest
    else behindSubset? cs
termination_by cs => cs.length
decreasing_by
  · have := length_behindDeclaration? _found
    simp only [List.length_cons]
    omega
  · simp

/-- What stands behind the `>` that ends a document type declaration. -/
def behindDocumentType? : List Char → Option (List Char)
  | [] => none
  | c :: cs =>
    if c = '>' then some cs
    else if c = '[' then (behindSubset? cs).bind (behind? ['>'])
    else
      match Quote.of? c with
      | none => behindDocumentType? cs
      | some quote =>
        match _found : behind? [quote.char] cs with
        | none => none
        | some rest => behindDocumentType? rest
termination_by cs => cs.length
decreasing_by
  · simp
  · have := length_behind? _found
    simp only [List.length_cons]
    omega

theorem length_behindSubset? {cs rest : List Char} (h : behindSubset? cs = some rest) :
    rest.length ≤ cs.length := by
  fun_induction behindSubset? cs with
  | case1 => simp at h
  | case2 => simp_all
  | case3 => simp at h
  | case4 cs rest' found _ ih =>
    have := ih h
    have := length_behindDeclaration? found
    simp only [List.length_cons]
    omega
  | case5 c cs _ _ ih =>
    have := ih h
    simp only [List.length_cons]
    omega

theorem length_behindDocumentType? {cs rest : List Char}
    (h : behindDocumentType? cs = some rest) : rest.length ≤ cs.length := by
  fun_induction behindDocumentType? cs with
  | case1 => simp at h
  | case2 => simp_all
  | case3 cs =>
    obtain ⟨inner, hi, ho⟩ := Option.bind_eq_some_iff.mp h
    have := length_behindSubset? hi
    have := length_behind? ho
    simp only [List.length_cons]
    omega
  | case4 c cs _ _ _ ih =>
    have := ih h
    simp only [List.length_cons]
    omega
  | case5 => simp at h
  | case6 c cs _ _ quote _ rest' found ih =>
    have := ih h
    have := length_behind? found
    simp only [List.length_cons]
    omega

end Companion.Markup
