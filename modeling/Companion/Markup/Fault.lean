/-!
# Faults of a markup text

* `Quote`: the two marks that an attribute value can stand between.
* `Fault`: what ends the reading of a markup text before its end.
* `Fault.message`: its wording.
-/

namespace Companion.Markup

/-- The mark around an attribute value. -/
inductive Quote
  | single
  | double
  deriving DecidableEq, Repr

namespace Quote

/-- The mark as a character. -/
def char : Quote → Char
  | .single => '\''
  | .double => '"'

/-- The mark that a character is, if it is one. -/
def of? (c : Char) : Option Quote :=
  if c = '\'' then some .single else if c = '"' then some .double else none

@[simp] theorem of?_char (quote : Quote) : of? quote.char = some quote := by
  cases quote <;> rfl

end Quote

/-- What ends the reading of a markup text. -/
inductive Fault
  | tagNotClosed
  /-- The text ends in a tag behind an opening quote. -/
  | valueNotClosed (quote : Quote)
  | commentNotClosed
  | characterDataNotClosed
  | documentTypeNotClosed
  | instructionNotClosed
  | declarationNotClosed
  /-- `<!` is followed by something that begins no kind of markup. -/
  | unknownMarkup
  | referenceNotClosed
  | documentTypeWithoutName
  /-- A close tag while no element is open. -/
  | strayCloseTag (found : String)
  /-- A close tag that does not name the innermost open element. -/
  | mismatchedCloseTag (expected found : String)
  deriving DecidableEq, Repr

namespace Fault

/-- Whether the text breaks off or is garbled.  The other faults are those of a text that can be
cut into pieces which do not fit together. -/
def isLexical : Fault → Bool
  | .referenceNotClosed | .documentTypeWithoutName | .strayCloseTag _
  | .mismatchedCloseTag .. => false
  | _ => true

/-- The sentence on a construct whose end is missing. -/
def notClosed (construct close : String) : String :=
  construct ++ " not closed: `" ++ close ++ "` not found before end of input"

/-- The fault without its class. -/
def detail : Fault → String
  | .tagNotClosed => notClosed "tag" ">"
  | .valueNotClosed quote => notClosed "attribute value" quote.char.toString
  | .commentNotClosed => notClosed "comment" "-->"
  | .characterDataNotClosed => notClosed "CDATA" "]]>"
  | .documentTypeNotClosed => notClosed "DOCTYPE" ">"
  | .instructionNotClosed => notClosed "processing instruction" "?>"
  | .declarationNotClosed => notClosed "XML declaration" "?>"
  | .unknownMarkup => "unknown or missed symbol in markup"
  | .referenceNotClosed => notClosed "entity or character reference" ";"
  | .documentTypeWithoutName =>
    "`<!DOCTYPE>` declaration does not contain a name of a document type"
  | .strayCloseTag found => "close tag `</" ++ found ++ ">` does not match any open tag"
  | .mismatchedCloseTag expected found =>
    "expected `</" ++ expected ++ ">`, but `</" ++ found ++ ">` was found"

/-- The wording of a fault. -/
def message (fault : Fault) : String :=
  (if fault.isLexical then "syntax error: " else "ill-formed document: ") ++ fault.detail

end Fault

end Companion.Markup
