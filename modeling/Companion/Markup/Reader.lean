import Companion.Markup.DocumentType
import Companion.Markup.Event

/-!
# Reading a markup text

A text is cut into events at `<`, `&` and the ends of markup.  That elements are closed at the end
is not asked for.

* `readEvent`: the event at the front of a text.
* `scan`: all events up to the first lexical fault.
* `matchTags`: the events up to the first close tag that closes nothing or the wrong element.
* `Reading.ofText`: both, behind a byte order mark.
-/

namespace Companion.Markup

open Text (length_dropWhile_le)

/-- An event with what stands behind it. -/
abbrev Step := Except Fault (Event × List Char)

/-- The event of markup whose end is looked for, or the fault that there is none. -/
def Step.filler (kind : Filler) (missing : Fault) : Option (List Char) → Step
  | none => .error missing
  | some rest => .ok (.filler kind, rest)

/-! ### Kinds of markup -/

/-- Reads a comment, given what follows `<!`. -/
def readComment (cs : List Char) : Step :=
  Step.filler .comment .commentNotClosed
    ((behindLiteral? ['-', '-'] cs).bind (behind? ['-', '-', '>']))

/-- Reads character data, given what follows `<!`. -/
def readCharacterData (cs : List Char) : Step :=
  Step.filler .characterData .characterDataNotClosed
    ((behindLiteral? "[CDATA[".toList cs).bind (behind? [']', ']', '>']))

/-- The keyword of a document type declaration, in capitals. -/
def documentTypeKeyword : List Char := "DOCTYPE".toList

/-- Reads a document type declaration, given what follows `<!`.  Its keyword may be written in
capitals or not. -/
def readDocumentType (cs : List Char) : Step :=
  let keyword := cs.take documentTypeKeyword.length
  let named := (cs.drop documentTypeKeyword.length).dropWhile isSpace
  if keyword.map Char.toUpper ≠ documentTypeKeyword then .error .documentTypeNotClosed
  else if ['>'].isPrefixOf named then .error .documentTypeWithoutName
  else Step.filler .documentType .documentTypeNotClosed (behindDocumentType? cs)

/-- Reads markup that begins with `<!`, given what follows.  Its kind is told by the next
character. -/
def readBang (cs : List Char) : Step :=
  match cs with
  | '[' :: _ => readCharacterData cs
  | '-' :: _ => readComment cs
  | 'D' :: _ | 'd' :: _ => readDocumentType cs
  | _ => .error .unknownMarkup

/-- Whether an instruction declares the version of the markup, given what follows `<?`. -/
def isDeclaration (cs : List Char) : Bool :=
  match behindLiteral? ['x', 'm', 'l'] cs with
  | none => false
  | some [] => true
  | some (c :: _) => isSpace c || c = '?'

/-- Reads an instruction or a declaration, given what follows `<?`. -/
def readInstruction (cs : List Char) : Step :=
  let kind := if isDeclaration cs then Filler.declaration else Filler.instruction
  let missing :=
    if isDeclaration cs then Fault.declarationNotClosed else Fault.instructionNotClosed
  if ['>'].isPrefixOf cs then .error .instructionNotClosed
  else Step.filler kind missing (behind? ['?', '>'] cs)

/-- A text without the blanks at its end.  A text of nothing but blanks stays. -/
def trimEnd (cs : List Char) : List Char :=
  match cs.reverse.dropWhile isSpace with
  | [] => cs
  | kept => kept.reverse

/-- Reads a close tag, given what follows `</`. -/
def readCloseTag (cs : List Char) : Step :=
  match splitTag none cs with
  | .error quote => .error (tagFault quote)
  | .ok (content, rest) => .ok (.closeTag (String.ofList (trimEnd content)), rest)

/-- The tag with the given inside. -/
def tagOf (content : List Char) : Tag where
  name := String.ofList (content.takeWhile (!isSpace ·))
  items := attributesOf (content.dropWhile (!isSpace ·))

/-- The event of a tag that begins an element.  A slash at the end leaves the element empty. -/
def openingEvent (content : List Char) : Event :=
  if content.getLast? = some '/' then .emptyTag (tagOf content.dropLast)
  else .openTag (tagOf content)

/-- Reads a tag that begins an element, given what follows `<`. -/
def readOpenTag (cs : List Char) : Step :=
  match splitTag none cs with
  | .error quote => .error (tagFault quote)
  | .ok (content, rest) => .ok (openingEvent content, rest)

/-- Reads markup, given what follows `<`. -/
def readMarkup : List Char → Step
  | [] => .error .tagNotClosed
  | '!' :: cs => readBang cs
  | '?' :: cs => readInstruction cs
  | '/' :: cs => readCloseTag cs
  | cs => readOpenTag cs

/-! ### Between markup -/

/-- The characters that end a run of text. -/
def endsText (c : Char) : Bool :=
  c = '<' || c = '&'

/-- Reads a reference, given what follows `&`.  It ends at the first `;`, and what is referred to
does not matter. -/
def readReference (cs : List Char) : Step :=
  match cs.dropWhile fun c => c ≠ ';' && !endsText c with
  | ';' :: rest => .ok (.filler .reference, rest)
  | _ => .error .referenceNotClosed

/-- Reads the event at the front of a text, given the first character and the rest. -/
def readEvent (c : Char) (cs : List Char) : Step :=
  if c = '<' then readMarkup cs
  else if c = '&' then readReference cs
  else .ok (.filler .text, cs.dropWhile (!endsText ·))

/-! ### What is left is shorter -/

theorem length_of_filler {kind : Filler} {missing : Fault} {found : Option (List Char)}
    {event : Event} {rest cs : List Char}
    (h : Step.filler kind missing found = .ok (event, rest))
    (hf : ∀ r, found = some r → r.length ≤ cs.length) : rest.length ≤ cs.length := by
  cases found with
  | none => simp [Step.filler] at h
  | some r =>
    simp only [Step.filler, Except.ok.injEq, Prod.mk.injEq] at h
    exact h.2 ▸ hf r rfl

theorem length_readBang {cs rest : List Char} {event : Event}
    (h : readBang cs = .ok (event, rest)) : rest.length ≤ cs.length := by
  have hb : ∀ {front literal r : List Char},
      (behindLiteral? front cs).bind (behind? literal) = some r → r.length ≤ cs.length := by
    intro front literal r hr
    obtain ⟨inner, hi, ho⟩ := Option.bind_eq_some_iff.mp hr
    exact Nat.le_trans (length_behind? ho) (length_behindLiteral? hi)
  have hd : readDocumentType cs = .ok (event, rest) → rest.length ≤ cs.length := by
    intro h
    unfold readDocumentType at h
    dsimp only at h
    split at h
    · simp at h
    · split at h
      · simp at h
      · exact length_of_filler h fun r hr => length_behindDocumentType? hr
  unfold readBang at h
  split at h
  · exact length_of_filler h fun r hr => hb hr
  · exact length_of_filler h fun r hr => hb hr
  · exact hd h
  · exact hd h
  · simp at h

theorem length_readMarkup {cs rest : List Char} {event : Event}
    (h : readMarkup cs = .ok (event, rest)) : rest.length ≤ cs.length := by
  unfold readMarkup at h
  split at h
  · simp at h
  · have := length_readBang h
    simp only [List.length_cons]
    omega
  · next inside =>
    unfold readInstruction at h
    dsimp only at h
    split at h
    · simp at h
    · have := length_of_filler h fun r hr => length_behind? hr
      simp only [List.length_cons]
      omega
  · unfold readCloseTag at h
    split at h
    · simp at h
    · next content tail hs =>
      simp only [Except.ok.injEq, Prod.mk.injEq] at h
      have := length_splitTag hs
      simp only [List.length_cons, ← h.2]
      omega
  · unfold readOpenTag at h
    split at h
    · simp at h
    · next content tail hs =>
      simp only [Except.ok.injEq, Prod.mk.injEq] at h
      have := length_splitTag hs
      simp only [← h.2]
      omega

theorem length_readEvent {c : Char} {cs rest : List Char} {event : Event}
    (h : readEvent c cs = .ok (event, rest)) : rest.length ≤ cs.length := by
  unfold readEvent at h
  split at h
  · exact length_readMarkup h
  · split at h
    · unfold readReference at h
      have hd := length_dropWhile_le (fun c => c ≠ ';' && !endsText c) cs
      split at h
      · next tail ht =>
        simp only [Except.ok.injEq, Prod.mk.injEq] at h
        rw [ht, List.length_cons] at hd
        rw [← h.2]
        omega
      · simp at h
    · simp only [Except.ok.injEq, Prod.mk.injEq] at h
      exact h.2 ▸ length_dropWhile_le _ _

/-! ### The whole text -/

/-- Cuts a text into events up to its end or the first lexical fault. -/
def scan : List Char → Reading
  | [] => ⟨[], none⟩
  | c :: cs =>
    match _found : readEvent c cs with
    | .error fault => ⟨[], some fault⟩
    | .ok (event, rest) => (scan rest).cons event
termination_by cs => cs.length
decreasing_by
  have := length_readEvent _found
  simp only [List.length_cons]
  omega

/-- Checks close tags against the names of the open elements, innermost first, up to the first one
that does not fit.  If all fit, the reading ends as it did before. -/
def matchTags (fault? : Option Fault) (opened : List String) : List Event → Reading
  | [] => ⟨[], fault?⟩
  | .openTag tag :: rest => (matchTags fault? (tag.name :: opened) rest).cons (.openTag tag)
  | .closeTag name :: rest =>
    match opened with
    | [] => ⟨[], some (.strayCloseTag name)⟩
    | innermost :: outer =>
      if innermost = name then (matchTags fault? outer rest).cons (.closeTag name)
      else ⟨[], some (.mismatchedCloseTag innermost name)⟩
  | event :: rest => (matchTags fault? opened rest).cons event

/-- A text without one byte order mark in front of it. -/
def withoutMark : List Char → List Char
  | '\uFEFF' :: cs => cs
  | cs => cs

/-- Reads a text up to its end or the first fault. -/
def Reading.ofText (text : String) : Reading :=
  let scanned := scan (withoutMark text.toList)
  matchTags scanned.fault? [] scanned.events

end Companion.Markup
