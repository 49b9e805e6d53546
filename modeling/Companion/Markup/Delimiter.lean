import Companion.Markup.Fault
import Companion.Text.Remainder

/-!
# Where pieces of markup end

Every function here gives what stands behind the end that it looks for, and finds no end in a text
that breaks off before.

* `isSpace`: the blanks of markup.
* `behindLiteral?`: a literal at the front.
* `behind?`: the first occurrence of a literal.
* `splitTag`: the first `>` outside of quotes.
* `length_behind?`, `length_splitTag`: what is left is shorter.
-/

namespace Companion.Markup

/-- The blanks of markup: space, tab, and the two characters that end lines. -/
def isSpace (c : Char) : Bool :=
  c = ' ' || c = '\t' || c = '\r' || c = '\n'

/-! ### Literals -/

/-- What stands behind a literal at the front of a text. -/
def behindLiteral? (literal cs : List Char) : Option (List Char) :=
  if literal.isPrefixOf cs then some (cs.drop literal.length) else none

theorem behindLiteral?_append (literal rest : List Char) :
    behindLiteral? literal (literal ++ rest) = some rest := by
  simp [behindLiteral?]

theorem length_behindLiteral? {literal cs rest : List Char}
    (h : behindLiteral? literal cs = some rest) : rest.length ≤ cs.length := by
  unfold behindLiteral? at h
  split at h
  · cases h
    simp
  · simp at h

/-- What stands behind the first occurrence of a literal in a text. -/
def behind? (literal : List Char) : List Char → Option (List Char)
  | [] => none
  | c :: cs =>
    match behindLiteral? literal (c :: cs) with
    | some rest => some rest
    | none => behind? literal cs

theorem length_behind? {literal cs rest : List Char} (h : behind? literal cs = some rest) :
    rest.length ≤ cs.length := by
  induction cs with
  | nil => simp [behind?] at h
  | cons c cs ih =>
    unfold behind? at h
    split at h
    · next found =>
      cases h
      exact length_behindLiteral? found
    · have := ih h
      simp only [List.length_cons]
      omega

/-! ### Tags -/

/-- Cuts a text at the first `>` outside of quotes.  If there is none the answer is the quote that
is open at the end. -/
def splitTag (quote : Option Quote) :
    List Char → Except (Option Quote) (List Char × List Char)
  | [] => .error quote
  | c :: cs =>
    match quote with
    | none =>
      if c = '>' then .ok ([], cs)
      else (splitTag (Quote.of? c) cs).map fun (content, rest) => (c :: content, rest)
    | some mark =>
      (splitTag (if c = mark.char then none else some mark) cs).map fun (content, rest) =>
        (c :: content, rest)

/-- The two parts with `>` between them are the text. -/
theorem splitTag_append {quote : Option Quote} {cs content rest : List Char}
    (h : splitTag quote cs = .ok (content, rest)) : cs = content ++ '>' :: rest := by
  induction cs generalizing quote content with
  | nil => simp [splitTag] at h
  | cons c cs ih =>
    cases quote with
    | none =>
      by_cases hc : c = '>'
      · simp_all [splitTag]
      · simp only [splitTag, hc, if_false] at h
        cases hs : splitTag (Quote.of? c) cs with
        | error e => simp [hs, Except.map] at h
        | ok parts =>
          simp only [hs, Except.map, Except.ok.injEq, Prod.mk.injEq] at h
          obtain ⟨rfl, rfl⟩ := h
          simp [ih hs]
    | some mark =>
      simp only [splitTag] at h
      cases hs : splitTag (if c = mark.char then none else some mark) cs with
      | error e => simp [hs, Except.map] at h
      | ok parts =>
        simp only [hs, Except.map, Except.ok.injEq, Prod.mk.injEq] at h
        obtain ⟨rfl, rfl⟩ := h
        simp [ih hs]

theorem length_splitTag {quote : Option Quote} {cs content rest : List Char}
    (h : splitTag quote cs = .ok (content, rest)) : rest.length < cs.length := by
  rw [splitTag_append h]
  simp
  omega

/-- The fault of a tag that breaks off. -/
def tagFault : Option Quote → Fault
  | none => .tagNotClosed
  | some quote => .valueNotClosed quote

end Companion.Markup
