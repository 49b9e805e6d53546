import Companion.Markup.Delimiter

/-!
# Attributes of a tag

Attributes are read leniently: what is no attribute is noted as a fault, and reading goes on behind
it.  Keys and values are raw text.

* `Attribute`: a key with its value.
* `AttributeFault`: what stands in the place of an attribute.
* `readAttribute`: the attribute or the fault at hand.
* `attributesOf`: all attributes and faults of a tag, in order.
-/

namespace Companion.Markup

open Text (length_dropWhile_le)

/-- A key with its value. -/
structure Attribute where
  key : String
  value : String
  deriving DecidableEq, Repr

/-- What stands in the place of an attribute. -/
inductive AttributeFault
  /-- A key without `=` behind it. -/
  | missingEquals (key : String)
  /-- A key that the tag has had before. -/
  | repeatedKey (key : String)
  /-- Nothing behind `=`. -/
  | missingValue (key : String)
  /-- A value that begins with no quote. -/
  | unquotedValue (key : String)
  /-- A value without its closing quote. -/
  | valueNotClosed (key : String)
  deriving DecidableEq, Repr

/-- An attribute, or what stands in its place. -/
abbrev AttributeItem := Except AttributeFault Attribute

instance : DecidableEq AttributeItem
  | .ok given, .ok other => decidable_of_iff (given = other) (by rw [Except.ok.injEq])
  | .error fault, .error other => decidable_of_iff (fault = other) (by rw [Except.error.injEq])
  | .ok _, .error _ => isFalse nofun
  | .error _, .ok _ => isFalse nofun

/-- The characters that a key goes on with. -/
def isKeyChar (c : Char) : Bool :=
  c ≠ '=' && !isSpace c

/-- Reads the value of a key, given what follows `=`.  Behind a value that is not quoted the next
attribute begins at the next blank. -/
def readValue (key : List Char) (cs : List Char) : AttributeItem × List Char :=
  let name := String.ofList key
  match cs.dropWhile isSpace with
  | [] => (.error (.missingValue name), [])
  | c :: inside =>
    match Quote.of? c with
    | none => (.error (.unquotedValue name), (c :: inside).dropWhile (!isSpace ·))
    | some quote =>
      match inside.dropWhile (· ≠ quote.char) with
      | [] => (.error (.valueNotClosed name), [])
      | _ :: rest =>
        (.ok ⟨name, String.ofList (inside.takeWhile (· ≠ quote.char))⟩, rest)

/-- Reads one attribute that begins with `c`, which belongs to the key whatever it is.  `keys` holds
the keys so far.  The answer is the attribute or fault, the keys from here on and the rest. -/
def readAttribute (keys : List (List Char)) (c : Char) (cs : List Char) :
    AttributeItem × List (List Char) × List Char :=
  let key := c :: cs.takeWhile isKeyChar
  match (cs.dropWhile isKeyChar).dropWhile isSpace with
  | [] => (.error (.missingEquals (String.ofList key)), keys, [])
  | next :: rest =>
    if next ≠ '=' then (.error (.missingEquals (String.ofList key)), keys, next :: rest)
    else if key ∈ keys then
      (.error (.repeatedKey (String.ofList key)), keys, rest.dropWhile (!isSpace ·))
    else ((readValue key rest).1, key :: keys, (readValue key rest).2)

theorem length_readValue (key cs : List Char) : (readValue key cs).2.length ≤ cs.length := by
  have hd := length_dropWhile_le isSpace cs
  unfold readValue
  split
  · simp
  · next c inside h =>
    rw [h] at hd
    split
    · exact Nat.le_trans (length_dropWhile_le _ _) hd
    · next quote _ =>
      have hi := length_dropWhile_le (· ≠ quote.char) inside
      split
      · simp
      · next mark rest hr =>
        rw [hr] at hi
        simp only [List.length_cons] at hd hi
        simp only
        omega

theorem length_readAttribute (keys : List (List Char)) (c : Char) (cs : List Char) :
    (readAttribute keys c cs).2.2.length ≤ cs.length := by
  have hk := length_dropWhile_le isKeyChar cs
  have hs := length_dropWhile_le isSpace (cs.dropWhile isKeyChar)
  unfold readAttribute
  split
  · simp
  · next next rest h =>
    rw [h] at hs
    simp only [List.length_cons] at hs
    split
    · simp only [List.length_cons]
      omega
    · dsimp only
      split
      · have := length_dropWhile_le (!isSpace ·) rest
        simp only
        omega
      · have := length_readValue (c :: cs.takeWhile isKeyChar) rest
        simp only
        omega

/-- Reads attributes to the end, where `keys` holds the keys so far. -/
def attributesFrom (keys : List (List Char)) (cs : List Char) : List AttributeItem :=
  match _found : cs.dropWhile isSpace with
  | [] => []
  | c :: rest =>
    (readAttribute keys c rest).1 ::
      attributesFrom (readAttribute keys c rest).2.1 (readAttribute keys c rest).2.2
termination_by cs.length
decreasing_by
  have hd := length_dropWhile_le isSpace cs
  rw [_found, List.length_cons] at hd
  have := length_readAttribute keys c rest
  omega

/-- All attributes and faults of a tag, given what follows its name. -/
def attributesOf (cs : List Char) : List AttributeItem :=
  attributesFrom [] cs

end Companion.Markup
