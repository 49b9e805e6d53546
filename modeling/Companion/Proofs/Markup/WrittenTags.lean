import Companion.Proofs.Markup.Wrapping

/-!
# Tags as they are written

A tag is written as its name and its attributes with a blank in front of each, and a value stands between
double quotes.  What is written this way is read back as it was.

* `IsWord`: the names and keys that are written.
* `Writable`: a name and attributes that can stand in a tag.
* `written`: the inside of a tag.
* `passes_written`: no tag ends in the inside of a tag.
* `tagOf_written`: the tag is read back from its inside.
* `scan_openTag`, `scan_emptyTag`, `scan_text`: the event of each piece of a text.
-/

namespace Companion.Markup

/-! ### Words -/

/-- One letter or more. -/
structure IsWord (text : String) : Prop where
  ne_empty : text ≠ ""
  letters : text.toList.all Char.isAlpha = true

theorem IsWord.isAlpha {text : String} (h : IsWord text) : ∀ c ∈ text.toList, c.isAlpha = true :=
  List.all_eq_true.mp h.letters

/-- What is no letter is not in a word. -/
theorem ne_of_isAlpha {c mark : Char} (h : c.isAlpha = true) (hmark : mark.isAlpha = false) :
    c ≠ mark := by
  rintro rfl
  rw [h] at hmark
  exact absurd hmark (by decide)

theorem isSpace_of_isAlpha {c : Char} (h : c.isAlpha = true) : isSpace c = false := by
  have hblank : c ≠ ' ' ∧ c ≠ '\t' ∧ c ≠ '\r' ∧ c ≠ '\n' :=
    ⟨ne_of_isAlpha h (by decide), ne_of_isAlpha h (by decide), ne_of_isAlpha h (by decide),
      ne_of_isAlpha h (by decide)⟩
  simp [isSpace, hblank]

theorem isKeyChar_of_isAlpha {c : Char} (h : c.isAlpha = true) : isKeyChar c = true := by
  simp [isKeyChar, isSpace_of_isAlpha h, ne_of_isAlpha h (show '='.isAlpha = false by decide)]

theorem quote_of_isAlpha {c : Char} (h : c.isAlpha = true) : Quote.of? c = none := by
  rw [Quote.of?, if_neg (ne_of_isAlpha h (by decide)), if_neg (ne_of_isAlpha h (by decide))]

theorem IsWord.isPlain {text : String} (h : IsWord text) : IsPlain text :=
  fun c hc => ⟨ne_of_isAlpha (h.isAlpha c hc) (by decide), quote_of_isAlpha (h.isAlpha c hc),
    isSpace_of_isAlpha (h.isAlpha c hc)⟩

theorem IsWord.exists_cons {text : String} (h : IsWord text) :
    ∃ c cs, text.toList = c :: cs ∧ c.isAlpha = true ∧ ∀ c ∈ cs, c.isAlpha = true := by
  cases htext : text.toList with
  | nil => exact absurd (String.toList_eq_nil_iff.mp htext) h.ne_empty
  | cons c cs => exact ⟨c, cs, rfl, List.forall_mem_cons.mp (htext ▸ h.isAlpha)⟩

/-! ### Writing -/

/-- An attribute with a blank in front of it. -/
def Attribute.written (given : Attribute) : List Char :=
  ' ' :: (given.key.toList ++ '=' :: '"' :: (given.value.toList ++ ['"']))

/-- The inside of a tag. -/
def written (name : String) (attributes : List Attribute) : List Char :=
  name.toList ++ attributes.flatMap Attribute.written

/-- A name and attributes that can stand in a tag. -/
structure Writable (name : String) (attributes : List Attribute) : Prop where
  name_isWord : IsWord name
  key_isWord : ∀ given ∈ attributes, IsWord given.key
  unquoted : ∀ given ∈ attributes, '"' ∉ given.value.toList
  distinct : (attributes.map (·.key)).Nodup

variable {name : String} {attributes : List Attribute}

/-! ### The end of a tag -/

theorem splitTag_quoted {value : List Char} (h : '"' ∉ value) (more : List Char) :
    splitTag (some .double) (value ++ '"' :: more) =
      (splitTag none more).map fun (content, rest) => (value ++ '"' :: content, rest) := by
  induction value with
  | nil => rfl
  | cons c value ih =>
    rw [List.mem_cons, not_or] at h
    have hc : c ≠ Quote.double.char := fun he => h.1 he.symm
    rw [List.cons_append, splitTag, if_neg hc, ih h.2]
    cases splitTag none more with
    | error quote => rfl
    | ok parts => rfl

theorem passes_quoted {value : List Char} (h : '"' ∉ value) :
    Passes ('"' :: (value ++ ['"'])) := by
  intro more
  have hquote : splitTag none ('"' :: (value ++ '"' :: more)) =
      (splitTag (some .double) (value ++ '"' :: more)).map
        fun (content, rest) => ('"' :: content, rest) := rfl
  rw [List.cons_append, List.append_assoc, List.singleton_append, hquote, splitTag_quoted h]
  cases splitTag none more with
  | error quote => rfl
  | ok parts => simp [Except.map]

theorem IsWord.passes {text : String} (h : IsWord text) : Passes text.toList :=
  passes_plain fun c hc => ⟨(h.isPlain c hc).1, (h.isPlain c hc).2.1⟩

theorem Attribute.passes_written {given : Attribute} (hkey : IsWord given.key)
    (hvalue : '"' ∉ given.value.toList) : Passes given.written := by
  have hblank : Passes [' '] := passes_plain (by simp [Quote.of?])
  have hequals : Passes ['='] := passes_plain (by simp [Quote.of?])
  have hall := hblank.append (hkey.passes.append (hequals.append (passes_quoted hvalue)))
  exact hall

theorem passes_written (h : Writable name attributes) : Passes (written name attributes) := by
  refine h.name_isWord.passes.append ?_
  -- That no key comes twice does not matter here.
  have hkeys := h.key_isWord
  have hvalues := h.unquoted
  clear h
  induction attributes with
  | nil => exact passes_nil
  | cons given rest ih =>
    rw [List.forall_mem_cons] at hkeys hvalues
    rw [List.flatMap_cons]
    exact (given.passes_written hkeys.1 hvalues.1).append (ih hkeys.2 hvalues.2)

theorem passes_slash : Passes ['/'] :=
  passes_plain (by simp [Quote.of?])

/-! ### The attributes of a tag -/

theorem attributesFrom_cons {keys : List (List Char)} {cs rest : List Char} {c : Char}
    (h : cs.dropWhile isSpace = c :: rest) :
    attributesFrom keys cs =
      (readAttribute keys c rest).1 ::
        attributesFrom (readAttribute keys c rest).2.1 (readAttribute keys c rest).2.2 := by
  rw [attributesFrom]
  split
  · next hnil => exact absurd (hnil.symm.trans h) (by simp)
  · next c' rest' hcons =>
    obtain ⟨rfl, rfl⟩ := List.cons.inj (hcons.symm.trans h)
    rfl

theorem readValue_written {value : List Char} (key : List Char) (h : '"' ∉ value)
    (more : List Char) :
    readValue key ('"' :: (value ++ '"' :: more)) =
      (.ok ⟨String.ofList key, String.ofList value⟩, more) := by
  have hinside : ∀ c ∈ value, decide (c ≠ Quote.double.char) = true :=
    fun c hc => decide_eq_true fun he => h (show Quote.double.char ∈ value from he ▸ hc)
  have htake : (value ++ '"' :: more).takeWhile (· ≠ Quote.double.char) = value := by
    rw [List.takeWhile_append_of_pos hinside, List.takeWhile_cons_of_neg (by decide), List.append_nil]
  have hdrop : (value ++ '"' :: more).dropWhile (· ≠ Quote.double.char) = '"' :: more := by
    rw [List.dropWhile_append_of_pos hinside, List.dropWhile_cons_of_neg (by decide)]
  have hblank : ('"' :: (value ++ '"' :: more)).dropWhile isSpace = '"' :: (value ++ '"' :: more) :=
    List.dropWhile_cons_of_neg (by decide)
  have hquote : Quote.of? '"' = some .double := rfl
  rw [readValue, hblank]
  dsimp only
  rw [hquote]
  dsimp only
  rw [hdrop, htake]

theorem readAttribute_written {given : Attribute} {keys : List (List Char)} {c : Char}
    {cs : List Char} (hkey : given.key.toList = c :: cs) (hletters : ∀ c ∈ cs, c.isAlpha = true)
    (hvalue : '"' ∉ given.value.toList) (hnew : given.key.toList ∉ keys) (more : List Char) :
    readAttribute keys c (cs ++ '=' :: '"' :: (given.value.toList ++ '"' :: more)) =
      (.ok given, given.key.toList :: keys, more) := by
  have hchars : ∀ c ∈ cs, isKeyChar c = true := fun c hc => isKeyChar_of_isAlpha (hletters c hc)
  have htake : ∀ tail, (cs ++ '=' :: tail).takeWhile isKeyChar = cs := by
    intro tail
    rw [List.takeWhile_append_of_pos hchars, List.takeWhile_cons_of_neg (by decide), List.append_nil]
  have hdrop : ∀ tail, (cs ++ '=' :: tail).dropWhile isKeyChar = '=' :: tail := by
    intro tail
    rw [List.dropWhile_append_of_pos hchars, List.dropWhile_cons_of_neg (by decide)]
  have hblank : ∀ tail, ('=' :: tail).dropWhile isSpace = '=' :: tail :=
    fun tail => List.dropWhile_cons_of_neg (by decide)
  rw [hkey] at hnew
  rw [readAttribute, htake, hdrop, hblank]
  dsimp only
  rw [if_neg (not_not.mpr rfl), if_neg hnew, readValue_written _ hvalue, ← hkey, String.ofList_toList,
    String.ofList_toList]

/-- Attributes with different keys are read back in order. -/
theorem attributesFrom_written {keys : List (List Char)} (hkeys : ∀ given ∈ attributes, IsWord given.key)
    (hvalues : ∀ given ∈ attributes, '"' ∉ given.value.toList)
    (hdistinct : (attributes.map (·.key)).Nodup)
    (hnew : ∀ given ∈ attributes, given.key.toList ∉ keys) :
    attributesFrom keys (attributes.flatMap Attribute.written) = attributes.map .ok := by
  induction attributes generalizing keys with
  | nil =>
    rw [List.flatMap_nil, attributesFrom]
    rfl
  | cons given rest ih =>
    rw [List.forall_mem_cons] at hkeys hvalues hnew
    rw [List.map_cons, List.nodup_cons] at hdistinct
    obtain ⟨c, cs, hkey, hletter, hletters⟩ := hkeys.1.exists_cons
    have hblank : ((given :: rest).flatMap Attribute.written).dropWhile isSpace =
        c :: (cs ++ '=' :: '"' :: (given.value.toList ++ '"' :: rest.flatMap Attribute.written)) := by
      have hspace : ¬ isSpace c = true := by simp [isSpace_of_isAlpha hletter]
      rw [List.flatMap_cons, Attribute.written, hkey, List.cons_append,
        List.dropWhile_cons_of_pos (by decide)]
      simp [List.dropWhile_cons_of_neg hspace]
    have hlater : ∀ other ∈ rest, other.key.toList ∉ given.key.toList :: keys := by
      intro other hother
      rw [List.mem_cons, not_or]
      refine ⟨fun hsame => hdistinct.1 ?_, hnew.2 other hother⟩
      exact List.mem_map.mpr ⟨other, hother, String.toList_injective hsame⟩
    rw [attributesFrom_cons hblank, readAttribute_written hkey hletters hvalues.1 hnew.1,
      ih hkeys.2 hvalues.2 hdistinct.2 hlater, List.map_cons]

/-! ### The tag -/

/-- The inside of a tag is read back. -/
theorem tagOf_written (h : Writable name attributes) :
    tagOf (written name attributes) = ⟨name, attributes.map .ok⟩ := by
  have hname : ∀ c ∈ name.toList, (!isSpace c) = true := by
    intro c hc
    rw [isSpace_of_isAlpha (h.name_isWord.isAlpha c hc)]
    rfl
  have hbehind : (attributes.flatMap Attribute.written).takeWhile (!isSpace ·) = [] ∧
      (attributes.flatMap Attribute.written).dropWhile (!isSpace ·) =
        attributes.flatMap Attribute.written := by
    cases attributes with
    | nil => exact ⟨rfl, rfl⟩
    | cons given rest => exact ⟨rfl, rfl⟩
  rw [tagOf, written, List.takeWhile_append_of_pos hname, List.dropWhile_append_of_pos hname,
    hbehind.1, hbehind.2, List.append_nil, String.ofList_toList, attributesOf,
    attributesFrom_written h.key_isWord h.unquoted h.distinct fun _ _ => List.not_mem_nil]

/-- The inside of a tag does not end with a slash. -/
theorem getLast?_written_ne (h : Writable name attributes) :
    (written name attributes).getLast? ≠ some '/' := by
  rcases List.eq_nil_or_concat attributes with rfl | ⟨before, given, rfl⟩
  · intro hlast
    rw [written, List.flatMap_nil, List.append_nil] at hlast
    exact ne_of_isAlpha (h.name_isWord.isAlpha _ (List.mem_of_getLast? hlast))
      (show '/'.isAlpha = false by decide) rfl
  · have hlast : (written name (before ++ [given])).getLast? = some '"' := by
      have hwritten : given.written =
          (' ' :: given.key.toList ++ '=' :: '"' :: given.value.toList) ++ ['"'] := by
        simp [Attribute.written]
      rw [written, List.flatMap_append, List.flatMap_singleton, hwritten, ← List.append_assoc,
        ← List.append_assoc, List.getLast?_concat]
    rw [List.concat_eq_append, hlast]
    decide

theorem readMarkup_written (h : Writable name attributes) (more : List Char) :
    readMarkup (written name attributes ++ more) = readOpenTag (written name attributes ++ more) := by
  obtain ⟨c, cs, hname, hletter, -⟩ := h.name_isWord.exists_cons
  rw [written, hname, List.append_assoc, List.cons_append, readMarkup]
  · exact fun he => absurd he (List.cons_ne_nil _ _)
  · exact fun _ he => ne_of_isAlpha hletter (show '!'.isAlpha = false by decide) (List.cons.inj he).1
  · exact fun _ he => ne_of_isAlpha hletter (show '?'.isAlpha = false by decide) (List.cons.inj he).1
  · exact fun _ he => ne_of_isAlpha hletter (show '/'.isAlpha = false by decide) (List.cons.inj he).1

/-! ### Pieces of a text -/

theorem scan_openTag (h : Writable name attributes) (more : List Char) :
    scan ('<' :: (written name attributes ++ '>' :: more)) =
      (scan more).cons (.openTag ⟨name, attributes.map .ok⟩) := by
  have hread : readEvent '<' (written name attributes ++ '>' :: more) =
      .ok (.openTag ⟨name, attributes.map .ok⟩, more) := by
    rw [readEvent, if_pos rfl, readMarkup_written h, readOpenTag, (passes_written h).splitTag_eq]
    dsimp only
    rw [openingEvent, if_neg (getLast?_written_ne h), tagOf_written h]
  exact scan_of_readEvent hread

theorem scan_emptyTag (h : Writable name attributes) (more : List Char) :
    scan ('<' :: (written name attributes ++ '/' :: '>' :: more)) =
      (scan more).cons (.emptyTag ⟨name, attributes.map .ok⟩) := by
  have hread : readEvent '<' (written name attributes ++ '/' :: '>' :: more) =
      .ok (.emptyTag ⟨name, attributes.map .ok⟩, more) := by
    have hsplit := ((passes_written h).append passes_slash).splitTag_eq more
    rw [List.append_assoc, List.singleton_append] at hsplit
    rw [readEvent, if_pos rfl, readMarkup_written h, readOpenTag, hsplit]
    dsimp only
    rw [openingEvent, if_pos List.getLast?_concat, List.dropLast_concat, tagOf_written h]
  exact scan_of_readEvent hread

/-- A run of text ends where markup begins or the text ends. -/
theorem scan_text {c : Char} {cs more : List Char} (h : (c :: cs).any endsText = false)
    (hmore : more.dropWhile (!endsText ·) = more) :
    scan (c :: (cs ++ more)) = (scan more).cons (.filler .text) := by
  rw [List.any_cons, Bool.or_eq_false_iff, List.any_eq_false] at h
  obtain ⟨hfirst, hrest⟩ := h
  have hdrop : (cs ++ more).dropWhile (!endsText ·) = more := by
    rw [List.dropWhile_append_of_pos (fun d hd => by simpa using hrest d hd), hmore]
  have hread : readEvent c (cs ++ more) = .ok (.filler .text, more) := by
    have hmarks : c ≠ '<' ∧ c ≠ '&' := by simpa [endsText] using hfirst
    rw [readEvent, if_neg hmarks.1, if_neg hmarks.2, hdrop]
  exact scan_of_readEvent hread

end Companion.Markup
