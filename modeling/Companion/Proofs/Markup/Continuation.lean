import Companion.Markup.Reader
import Mathlib.Data.List.Infix
import Mathlib.Data.List.TakeWhile

/-!
# Texts that go on

What has been read of a text does not depend on what comes behind it.  Each function that looks for
an end finds the same end if the text goes on, and so the events of a text stay the first events of
each text that begins with it.

* `behind?_continue`, `splitTag_continue`, `behindDocumentType?_continue`: ends stay where they are.
* `Passes`: a text in which no tag ends, so that the end is looked for behind it.
* `readEvent_continue`: so does the event at the front, unless it is a run of text that reaches to
  the end.
* `scan_continue`: a text without a fault may go on, and its events stay.
-/

namespace Companion.Markup

variable {literal cs rest more : List Char} {event : Event}

/-! ### Literals -/

theorem isPrefixOf_append (h : literal.length ≤ cs.length) (more : List Char) :
    literal.isPrefixOf (cs ++ more) = literal.isPrefixOf cs := by
  rw [Bool.eq_iff_iff, List.isPrefixOf_iff_prefix, List.isPrefixOf_iff_prefix]
  constructor
  · intro hp
    exact List.prefix_of_prefix_length_le hp (List.prefix_append cs more) h
  · intro hp
    exact hp.trans (List.prefix_append cs more)

/-- A text with a character that a literal does not have begins with it or not, however it goes
on. -/
theorem isPrefixOf_append_of_mem {x : Char} (hx : x ∈ cs) (hn : x ∉ literal) (more : List Char) :
    literal.isPrefixOf (cs ++ more) = literal.isPrefixOf cs := by
  rcases Nat.le_total literal.length cs.length with hle | hle
  · exact isPrefixOf_append hle more
  · have hshort : ∀ tail, literal.isPrefixOf (cs ++ tail) = false := by
      intro tail
      rw [← Bool.not_eq_true, List.isPrefixOf_iff_prefix]
      intro hp
      have hcs := List.prefix_of_prefix_length_le (List.prefix_append cs tail) hp hle
      exact hn (hcs.subset hx)
    have hown := hshort []
    rw [List.append_nil] at hown
    rw [hshort, hown]

theorem eq_append_of_behindLiteral? (h : behindLiteral? literal cs = some rest) :
    cs = literal ++ rest := by
  unfold behindLiteral? at h
  split at h
  · next hp =>
    rw [Option.some.injEq] at h
    rw [← h]
    exact List.prefix_iff_eq_append.mp (List.isPrefixOf_iff_prefix.mp hp) |>.symm
  · exact absurd h (by simp)

theorem behindLiteral?_append_right
    (h : literal.isPrefixOf (cs ++ more) = literal.isPrefixOf cs) :
    behindLiteral? literal (cs ++ more) = (behindLiteral? literal cs).map (· ++ more) := by
  unfold behindLiteral?
  rw [h]
  split
  · next hp =>
    have hle := (List.isPrefixOf_iff_prefix.mp hp).length_le
    rw [List.drop_append_of_le_length hle, Option.map_some]
  · rfl

theorem behindLiteral?_continue (h : behindLiteral? literal cs = some rest) (more : List Char) :
    behindLiteral? literal (cs ++ more) = some (rest ++ more) := by
  rw [eq_append_of_behindLiteral? h, List.append_assoc, behindLiteral?_append]

theorem length_le_of_behind? (h : behind? literal cs = some rest) :
    literal.length ≤ cs.length := by
  induction cs with
  | nil => simp [behind?] at h
  | cons c cs ih =>
    unfold behind? at h
    split at h
    · next found =>
      rw [eq_append_of_behindLiteral? found, List.length_append]
      omega
    · have := ih h
      rw [List.length_cons]
      omega

theorem mem_of_behind? (h : behind? literal cs = some rest) {x : Char} (hx : x ∈ literal) :
    x ∈ cs := by
  induction cs with
  | nil => simp [behind?] at h
  | cons c cs ih =>
    unfold behind? at h
    split at h
    · next found =>
      rw [eq_append_of_behindLiteral? found]
      exact List.mem_append_left _ hx
    · exact List.mem_cons_of_mem _ (ih h)

theorem behind?_continue (h : behind? literal cs = some rest) (more : List Char) :
    behind? literal (cs ++ more) = some (rest ++ more) := by
  induction cs with
  | nil => simp [behind?] at h
  | cons c cs ih =>
    have hle := length_le_of_behind? h
    rw [List.cons_append, behind?, ← List.cons_append,
      behindLiteral?_append_right (isPrefixOf_append hle more)]
    rw [behind?] at h
    cases hfound : behindLiteral? literal (c :: cs) with
    | some found =>
      rw [hfound] at h
      rw [← Option.some.inj h]
      rfl
    | none =>
      rw [hfound] at h
      exact ih h

/-- A literal at the front and the first occurrence of another one behind it. -/
theorem bind_behind?_continue {front : List Char}
    (h : (behindLiteral? front cs).bind (behind? literal) = some rest) (more : List Char) :
    (behindLiteral? front (cs ++ more)).bind (behind? literal) = some (rest ++ more) := by
  obtain ⟨inner, hi, ho⟩ := Option.bind_eq_some_iff.mp h
  rw [behindLiteral?_continue hi, Option.bind_some, behind?_continue ho]

/-! ### Tags -/

theorem splitTag_continue {quote : Option Quote} {content : List Char}
    (h : splitTag quote cs = .ok (content, rest)) (more : List Char) :
    splitTag quote (cs ++ more) = .ok (content, rest ++ more) := by
  -- The text is `content ++ '>' :: rest`, and only `content` has been looked at.
  induction cs generalizing quote content with
  | nil => simp [splitTag] at h
  | cons c cs ih =>
    have hstep : ∀ next, (splitTag next cs).map (fun parts => (c :: parts.1, parts.2)) =
        .ok (content, rest) →
        (splitTag next (cs ++ more)).map (fun parts => (c :: parts.1, parts.2)) =
          .ok (content, rest ++ more) := by
      intro next hnext
      cases hs : splitTag next cs with
      | error e => simp [hs, Except.map] at hnext
      | ok parts =>
        simp only [hs, Except.map, Except.ok.injEq, Prod.mk.injEq] at hnext
        obtain ⟨rfl, rfl⟩ := hnext
        rw [ih hs]
        rfl
    cases quote with
    | none =>
      by_cases hc : c = '>'
      · simp_all [splitTag]
      · simp only [List.cons_append, splitTag, hc, if_false] at h ⊢
        exact hstep _ h
    | some mark =>
      simp only [List.cons_append, splitTag] at h ⊢
      exact hstep _ h

variable {front back : List Char}

/-- A text in which no tag ends, and which leaves no quote open. -/
def Passes (front : List Char) : Prop :=
  ∀ more, splitTag none (front ++ more) =
    (splitTag none more).map fun (content, rest) => (front ++ content, rest)

theorem passes_nil : Passes [] := by
  intro more
  rw [List.nil_append]
  cases splitTag none more with
  | error quote => rfl
  | ok parts => rfl

theorem Passes.append (hfront : Passes front) (hback : Passes back) : Passes (front ++ back) := by
  intro more
  rw [List.append_assoc, hfront, hback]
  cases splitTag none more with
  | error quote => rfl
  | ok parts => simp [Except.map]

/-- The first `>` behind such a text ends the tag. -/
theorem Passes.splitTag_eq (h : Passes front) (more : List Char) :
    splitTag none (front ++ '>' :: more) = .ok (front, more) := by
  rw [h, splitTag, if_pos rfl, Except.map]
  dsimp only
  rw [List.append_nil]

theorem passes_plain (h : ∀ c ∈ front, c ≠ '>' ∧ Quote.of? c = none) : Passes front := by
  induction front with
  | nil => exact passes_nil
  | cons c front ih =>
    rw [List.forall_mem_cons] at h
    obtain ⟨⟨hclose, hquote⟩, hrest⟩ := h
    intro more
    rw [List.cons_append, splitTag, if_neg hclose, hquote, ih hrest]
    cases splitTag none more with
    | error quote => rfl
    | ok parts => rfl

/-! ### Document types -/

theorem mem_of_behindDeclaration? (h : behindDeclaration? cs = some rest) : '>' ∈ cs := by
  unfold behindDeclaration? at h
  split at h
  · next found =>
    rw [eq_append_of_behindLiteral? found]
    exact List.mem_append_right _ (mem_of_behind? h (by simp))
  · next found =>
    rw [eq_append_of_behindLiteral? found]
    exact List.mem_append_right _ (mem_of_behind? h (by simp))
  · split at h
    · cases hs : splitTag none cs with
      | error e => simp [hs, Except.toOption] at h
      | ok parts =>
        rw [splitTag_append hs]
        simp
    · exact mem_of_behind? h (by simp)

theorem behindDeclaration?_continue (h : behindDeclaration? cs = some rest) (more : List Char) :
    behindDeclaration? (cs ++ more) = some (rest ++ more) := by
  -- None of the literals that tell declarations apart has a `>`.
  have hliteral : ∀ literal, '>' ∉ literal →
      List.isPrefixOf literal (cs ++ more) = List.isPrefixOf literal cs :=
    fun literal hnot => isPrefixOf_append_of_mem (mem_of_behindDeclaration? h) hnot more
  have hquestion := behindLiteral?_append_right (hliteral ['?'] (by decide))
  have hcomment := behindLiteral?_append_right (hliteral ['!', '-', '-'] (by decide))
  have hquoting : quotingDeclarations.any (·.isPrefixOf (cs ++ more)) =
      quotingDeclarations.any (·.isPrefixOf cs) := by
    rw [Bool.eq_iff_iff, List.any_eq_true, List.any_eq_true]
    refine exists_congr fun keyword => and_congr_right fun hmem => ?_
    have hnot : ∀ keyword ∈ quotingDeclarations, '>' ∉ keyword := by decide
    rw [hliteral keyword (hnot keyword hmem)]
  unfold behindDeclaration? at h ⊢
  rw [hquestion, hcomment, hquoting]
  cases hq : behindLiteral? ['?'] cs with
  | some inside =>
    rw [hq] at h
    exact behind?_continue h more
  | none =>
    rw [hq] at h
    cases hc : behindLiteral? ['!', '-', '-'] cs with
    | some inside =>
      rw [hc] at h
      exact behind?_continue h more
    | none =>
      rw [hc] at h
      simp only [Option.map_none] at h ⊢
      split at h
      · next hany =>
        rw [if_pos hany]
        cases hs : splitTag none cs with
        | error e => simp [hs, Except.toOption] at h
        | ok parts =>
          simp only [hs, Except.toOption, Option.map_some, Option.some.injEq] at h
          rw [splitTag_continue hs, ← h]
          rfl
      · next hany =>
        rw [if_neg hany]
        exact behind?_continue h more

theorem behindSubset?_continue (h : behindSubset? cs = some rest) (more : List Char) :
    behindSubset? (cs ++ more) = some (rest ++ more) := by
  fun_induction behindSubset? cs with
  | case1 => simp at h
  | case2 cs =>
    rw [Option.some.injEq] at h
    rw [List.cons_append, behindSubset?, if_pos rfl, h]
  | case3 => simp at h
  | case4 cs rest' found hne ih =>
    rw [List.cons_append, behindSubset?, if_neg hne, if_pos rfl]
    split
    · next hnone =>
      rw [behindDeclaration?_continue found] at hnone
      exact absurd hnone (by simp)
    · next rest'' hsome =>
      rw [behindDeclaration?_continue found, Option.some.injEq] at hsome
      rw [← hsome]
      exact ih h
  | case5 c cs hclose hopen ih =>
    rw [List.cons_append, behindSubset?, if_neg hclose, if_neg hopen]
    exact ih h

theorem behindDocumentType?_continue (h : behindDocumentType? cs = some rest) (more : List Char) :
    behindDocumentType? (cs ++ more) = some (rest ++ more) := by
  fun_induction behindDocumentType? cs with
  | case1 => simp at h
  | case2 cs =>
    rw [Option.some.injEq] at h
    rw [List.cons_append, behindDocumentType?, if_pos rfl, h]
  | case3 cs hne =>
    obtain ⟨inner, hi, ho⟩ := Option.bind_eq_some_iff.mp h
    rw [List.cons_append, behindDocumentType?, if_neg hne, if_pos rfl, behindSubset?_continue hi,
      Option.bind_some, behind?_continue ho]
  | case4 c cs hclose hopen hquote ih =>
    rw [List.cons_append, behindDocumentType?, if_neg hclose, if_neg hopen, hquote]
    exact ih h
  | case5 => simp at h
  | case6 c cs hclose hopen quote hquote rest' found ih =>
    rw [List.cons_append, behindDocumentType?, if_neg hclose, if_neg hopen, hquote]
    dsimp only
    split
    · next hnone =>
      rw [behind?_continue found] at hnone
      exact absurd hnone (by simp)
    · next rest'' hsome =>
      rw [behind?_continue found, Option.some.injEq] at hsome
      rw [← hsome]
      exact ih h

/-- Without any of the marks that are looked for there is no end. -/
theorem behindDocumentType?_eq_none (h : ∀ c ∈ cs, c ≠ '>' ∧ c ≠ '[' ∧ Quote.of? c = none) :
    behindDocumentType? cs = none := by
  induction cs with
  | nil => rw [behindDocumentType?]
  | cons c cs ih =>
    rw [List.forall_mem_cons] at h
    obtain ⟨⟨hclose, hopen, hquote⟩, hrest⟩ := h
    rw [behindDocumentType?, if_neg hclose, if_neg hopen, hquote]
    exact ih hrest

/-! ### Events -/

theorem filler_continue {kind : Filler} {missing : Fault} {found found' : Option (List Char)}
    (h : Step.filler kind missing found = .ok (event, rest))
    (hf : ∀ r, found = some r → found' = some (r ++ more)) :
    Step.filler kind missing found' = .ok (event, rest ++ more) := by
  cases found with
  | none => simp [Step.filler] at h
  | some r =>
    simp only [Step.filler, Except.ok.injEq, Prod.mk.injEq] at h
    obtain ⟨rfl, rfl⟩ := h
    rw [hf r rfl]
    rfl

theorem documentTypeKeyword_eq : documentTypeKeyword = ['D', 'O', 'C', 'T', 'Y', 'P', 'E'] := by
  show "DOCTYPE".toList = _
  simp

theorem readDocumentType_continue (h : readDocumentType cs = .ok (event, rest))
    (more : List Char) : readDocumentType (cs ++ more) = .ok (event, rest ++ more) := by
  have hkeyword : (cs.take documentTypeKeyword.length).map Char.toUpper = documentTypeKeyword := by
    by_contra hne
    unfold readDocumentType at h
    dsimp only at h
    rw [if_pos hne] at h
    exact absurd h (by simp)
  have hle : documentTypeKeyword.length ≤ cs.length := by
    have hlength := congrArg List.length hkeyword
    rw [List.length_map, List.length_take] at hlength
    omega
  -- The keyword and blanks alone hold no end.
  have hnamed : (cs.drop documentTypeKeyword.length).dropWhile isSpace ≠ [] := by
    intro hblank
    have hnone : behindDocumentType? cs = none := by
      apply behindDocumentType?_eq_none
      intro c hc
      rw [← List.take_append_drop documentTypeKeyword.length cs, List.mem_append] at hc
      rcases hc with hc | hc
      · have hupper : c.toUpper ∈ documentTypeKeyword := hkeyword ▸ List.mem_map_of_mem hc
        have hmarks : ∀ mark ∈ ['>', '[', '\'', '"'], mark.toUpper ∉ documentTypeKeyword := by
          rw [documentTypeKeyword_eq]
          simp
        simp only [List.forall_mem_cons] at hmarks
        obtain ⟨hclose, hopen, hsingle, hdouble, -⟩ := hmarks
        refine ⟨?_, ?_, ?_⟩
        · rintro rfl
          exact hclose hupper
        · rintro rfl
          exact hopen hupper
        · rw [Quote.of?, if_neg, if_neg]
          · rintro rfl
            exact hdouble hupper
          · rintro rfl
            exact hsingle hupper
      · have hspace : isSpace c = true := by
          rw [List.dropWhile_eq_nil_iff] at hblank
          exact hblank c hc
        refine ⟨?_, ?_, ?_⟩
        · rintro rfl
          exact absurd hspace (by decide)
        · rintro rfl
          exact absurd hspace (by decide)
        · rw [Quote.of?, if_neg, if_neg]
          · rintro rfl
            exact absurd hspace (by decide)
          · rintro rfl
            exact absurd hspace (by decide)
    unfold readDocumentType at h
    dsimp only at h
    rw [if_neg (not_not.mpr hkeyword), hblank, if_neg (by simp), hnone] at h
    exact absurd h (by simp [Step.filler])
  have hname : ['>'].isPrefixOf
      (((cs ++ more).drop documentTypeKeyword.length).dropWhile isSpace) =
        ['>'].isPrefixOf ((cs.drop documentTypeKeyword.length).dropWhile isSpace) := by
    rw [List.drop_append_of_le_length hle, List.dropWhile_append,
      if_neg (by simpa using hnamed)]
    have hpos : ['>'].length ≤ ((cs.drop documentTypeKeyword.length).dropWhile isSpace).length :=
      List.length_pos_iff.mpr hnamed
    exact isPrefixOf_append hpos more
  unfold readDocumentType at h ⊢
  dsimp only at h ⊢
  rw [List.take_append_of_le_length hle, hname]
  rw [if_neg (not_not.mpr hkeyword)] at h ⊢
  split at h
  · exact absurd h (by simp)
  · next hnot =>
    rw [if_neg hnot]
    exact filler_continue h fun r hr => behindDocumentType?_continue hr more

theorem isDeclaration_append (h : '>' ∈ cs) (more : List Char) :
    isDeclaration (cs ++ more) = isDeclaration cs := by
  unfold isDeclaration
  rw [behindLiteral?_append_right (isPrefixOf_append_of_mem h (by decide) more)]
  cases hfound : behindLiteral? ['x', 'm', 'l'] cs with
  | none => rfl
  | some inside =>
    cases inside with
    | nil =>
      rw [eq_append_of_behindLiteral? hfound] at h
      exact absurd h (by decide)
    | cons c inside => rfl

theorem readInstruction_continue (h : readInstruction cs = .ok (event, rest))
    (more : List Char) : readInstruction (cs ++ more) = .ok (event, rest ++ more) := by
  unfold readInstruction at h ⊢
  dsimp only at h ⊢
  split at h
  · exact absurd h (by simp)
  · next hnot =>
    have hfound : ∃ r, behind? ['?', '>'] cs = some r := by
      cases hr : behind? ['?', '>'] cs with
      | none =>
        rw [hr] at h
        exact absurd h (by simp [Step.filler])
      | some r => exact ⟨r, rfl⟩
    obtain ⟨r, hr⟩ := hfound
    have hle := length_le_of_behind? hr
    rw [isDeclaration_append (mem_of_behind? hr (by simp)),
      isPrefixOf_append (Nat.le_trans (by decide) hle), if_neg hnot]
    exact filler_continue h fun r hr => behind?_continue hr more

theorem readBang_continue (h : readBang cs = .ok (event, rest)) (more : List Char) :
    readBang (cs ++ more) = .ok (event, rest ++ more) := by
  unfold readBang at h
  split at h
  · exact filler_continue h fun r hr => bind_behind?_continue hr more
  · exact filler_continue h fun r hr => bind_behind?_continue hr more
  · exact readDocumentType_continue h more
  · exact readDocumentType_continue h more
  · exact absurd h (by simp)

theorem readCloseTag_continue (h : readCloseTag cs = .ok (event, rest)) (more : List Char) :
    readCloseTag (cs ++ more) = .ok (event, rest ++ more) := by
  unfold readCloseTag at h ⊢
  split at h
  · exact absurd h (by simp)
  · next content tail hs =>
    simp only [Except.ok.injEq, Prod.mk.injEq] at h
    rw [splitTag_continue hs, ← h.1, ← h.2]

theorem readOpenTag_continue (h : readOpenTag cs = .ok (event, rest)) (more : List Char) :
    readOpenTag (cs ++ more) = .ok (event, rest ++ more) := by
  unfold readOpenTag at h ⊢
  split at h
  · exact absurd h (by simp)
  · next content tail hs =>
    simp only [Except.ok.injEq, Prod.mk.injEq] at h
    rw [splitTag_continue hs, ← h.1, ← h.2]

theorem readMarkup_continue (h : readMarkup cs = .ok (event, rest)) (more : List Char) :
    readMarkup (cs ++ more) = .ok (event, rest ++ more) := by
  unfold readMarkup at h
  split at h
  · exact absurd h (by simp)
  · exact readBang_continue h more
  · exact readInstruction_continue h more
  · exact readCloseTag_continue h more
  · next hempty hbang hquestion hslash =>
    have hopen : readMarkup (cs ++ more) = readOpenTag (cs ++ more) := by
      cases cs with
      | nil => exact absurd rfl hempty
      | cons c cs =>
        rw [List.cons_append, readMarkup]
        · exact fun he => absurd he (List.cons_ne_nil _ _)
        · exact fun _ he => hbang cs (by rw [(List.cons.inj he).1])
        · exact fun _ he => hquestion cs (by rw [(List.cons.inj he).1])
        · exact fun _ he => hslash cs (by rw [(List.cons.inj he).1])
    rw [hopen]
    exact readOpenTag_continue h more

theorem readReference_continue (h : readReference cs = .ok (event, rest)) (more : List Char) :
    readReference (cs ++ more) = .ok (event, rest ++ more) := by
  unfold readReference at h ⊢
  rw [List.dropWhile_append]
  split at h
  · next tail ht =>
    simp only [Except.ok.injEq, Prod.mk.injEq] at h
    rw [ht, if_neg (by simp), ← h.1, ← h.2]
    rfl
  · exact absurd h (by simp)

/-- The event at the front stays.  Only a run of text that reaches to the end of the text may become
longer. -/
theorem readEvent_continue {c : Char} (h : readEvent c cs = .ok (event, rest))
    (more : List Char) :
    readEvent c (cs ++ more) = .ok (event, rest ++ more) ∨
      rest = [] ∧ readEvent c (cs ++ more) = .ok (event, more.dropWhile (!endsText ·)) := by
  unfold readEvent at h ⊢
  by_cases hmarkup : c = '<'
  · rw [if_pos hmarkup] at h ⊢
    exact Or.inl (readMarkup_continue h more)
  · rw [if_neg hmarkup] at h ⊢
    by_cases hreference : c = '&'
    · rw [if_pos hreference] at h ⊢
      exact Or.inl (readReference_continue h more)
    · rw [if_neg hreference] at h ⊢
      simp only [Except.ok.injEq, Prod.mk.injEq] at h
      obtain ⟨rfl, rfl⟩ := h
      rw [List.dropWhile_append]
      by_cases hend : (cs.dropWhile (!endsText ·)).isEmpty
      · rw [if_pos hend]
        exact Or.inr ⟨List.isEmpty_iff.mp hend, rfl⟩
      · rw [if_neg hend]
        exact Or.inl rfl

/-! ### The whole text -/

/-- A reading with more events in front. -/
def Reading.behind (events : List Event) (reading : Reading) : Reading :=
  { reading with events := events ++ reading.events }

theorem scan_of_readEvent {c : Char} (h : readEvent c cs = .ok (event, rest)) :
    scan (c :: cs) = (scan rest).cons event := by
  rw [scan]
  split
  · next fault hfault =>
    rw [h] at hfault
    exact absurd hfault (by simp)
  · next event' rest' hok =>
    rw [h, Except.ok.injEq, Prod.mk.injEq] at hok
    rw [hok.1, hok.2]

/-- What follows a run of text that reaches to the end of a text may belong to it. -/
def Follows (tail more : List Char) : Prop :=
  tail = more ∨ tail = more.dropWhile (!endsText ·)

/-- A text without a fault may go on, and its events stay.  What comes behind it is read from there,
or from the end of a run of text. -/
theorem scan_continue (h : (scan cs).fault? = none) (more : List Char) :
    ∃ tail, Follows tail more ∧ scan (cs ++ more) = (scan tail).behind (scan cs).events := by
  fun_induction scan cs with
  | case1 => exact ⟨more, Or.inl rfl, rfl⟩
  | case2 c cs fault hfault => exact absurd h (by simp)
  | case3 c cs event rest hok ih =>
    rcases readEvent_continue hok more with hstep | ⟨rfl, hstep⟩
    · obtain ⟨tail, htail, hscan⟩ := ih h
      refine ⟨tail, htail, ?_⟩
      rw [List.cons_append, scan_of_readEvent hstep, hscan]
      rfl
    · refine ⟨more.dropWhile (!endsText ·), Or.inr rfl, ?_⟩
      rw [List.cons_append, scan_of_readEvent hstep, scan]
      rfl

end Companion.Markup
