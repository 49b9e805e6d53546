import Companion.Proofs.Collections.Turns
import Companion.Proofs.Manifest.LinkSteps

/-!
# The search through the scopes around a type

A base text is looked for in the scopes around the type that names it, before it is looked for
elsewhere.  The loop that does so goes from each scope to its parent and keeps no count, so that it would
not end where parents lead in a circle.  While a manifest is linked every scope lies under an earlier
one, also those that linking adds.

* `scopeTurn`: one turn of the loop.
* `SearchEnds`: how the search comes to an end, and which scopes it has visited then.
* `answerWithin_scopeTurn`: around a place with scopes around it the loop ends in one of these ways, by
  induction on these scopes.
* `nodup_of_surround`: where every scope lies under an earlier one, none lies around itself.
* `resolveBase_of_searchEnds`: what the search finds is what the text is resolved to.
* `scopeSearch_spec`: at any time while a draft is linked, the loop ends for all of its bases.
-/

namespace Companion

open Markup (Event)

namespace Compilation

open Turn

variable {c : Compilation} {id : TypeId} {scope : Option NamespaceId} {scopes : List NamespaceId}
  {text : String}

/-! ### The loop -/

/-- Where the search stands.  The visited scopes are kept for the account, the loop does not look at
them. -/
structure ScopeSearch where
  visited : List NamespaceId
  current : Option NamespaceId

/-- What the search comes to. -/
structure ScopeFinding where
  visited : List NamespaceId
  base : Option TypeId
  deriving DecidableEq, Repr

/-- The full name that a text is short for in a scope. -/
def nameIn (c : Compilation) (scope : NamespaceId) (text : String) : String :=
  c.pathOf scope ++ "." ++ text

/-- One turn of the search: the name is looked up in the current scope, and if it is not found the parent
comes next. -/
def scopeTurn (c : Compilation) (text : String) : ScopeSearch → Turn ScopeSearch ScopeFinding
  | ⟨visited, none⟩ => .answers ⟨visited, none⟩
  | ⟨visited, some scope⟩ =>
    match c.lookup? (c.nameIn scope text) with
    | some base => .answers ⟨visited ++ [scope], some base⟩
    | none => .goesOn ⟨visited ++ [scope], (c.namespace? scope).bind (·.parent)⟩

/-- What a text stands for that is not found in a scope: the type with that full name, or else the first
declared type with that simple name, or else an external type. -/
def resolveElsewhere (c : Compilation) (text : String) : Compilation × TypeId :=
  match c.lookup? text with
  | some base => (c, base)
  | none =>
    match c.declaredNamed? text with
    | some base => (c, base)
    | none => c.internExternal text

/-! ### How the loop ends -/

/-- What a search through some scopes comes to. -/
inductive SearchEnds (c : Compilation) (scopes : List NamespaceId) (text : String) :
    ScopeFinding → Prop
  /-- It ends in the first scope that the name is found in. -/
  | inScope {inner outer : List NamespaceId} {scope : NamespaceId} {base : TypeId}
      (split : scopes = inner ++ scope :: outer)
      (missed : ∀ other ∈ inner, c.lookup? (c.nameIn other text) = none)
      (found : c.lookup? (c.nameIn scope text) = some base) :
      SearchEnds c scopes text ⟨inner ++ [scope], some base⟩
  /-- If there is none, it ends behind the outermost one. -/
  | outermost (missed : ∀ other ∈ scopes, c.lookup? (c.nameIn other text) = none) :
      SearchEnds c scopes text ⟨scopes, none⟩

/-- A scope that the name is not found in is visited before all that is visited further out. -/
theorem SearchEnds.cons {innermost : NamespaceId} {finding : ScopeFinding}
    (h : c.SearchEnds scopes text finding)
    (missed : c.lookup? (c.nameIn innermost text) = none) :
    c.SearchEnds (innermost :: scopes) text ⟨innermost :: finding.visited, finding.base⟩ := by
  cases h with
  | @inScope inner outer scope base split missed' found =>
    have hsplit : innermost :: scopes = (innermost :: inner) ++ scope :: outer := by
      rw [split, List.cons_append]
    exact .inScope hsplit (List.forall_mem_cons.mpr ⟨missed, missed'⟩) found
  | outermost missed' => exact .outermost (List.forall_mem_cons.mpr ⟨missed, missed'⟩)

/-- Around a place with scopes around it the search ends.  It takes one turn for each of them at most, and
one to see that there is no further one. -/
theorem answerWithin_scopeTurn (around : c.Surround scope scopes) (text : String)
    (visited : List NamespaceId) :
    ∃ finding, c.SearchEnds scopes text finding ∧
      answerWithin (c.scopeTurn text) (scopes.length + 1) ⟨visited, scope⟩ =
        some ⟨visited ++ finding.visited, finding.base⟩ := by
  induction around generalizing visited with
  | nowhere =>
    refine ⟨⟨[], none⟩, .outermost (by simp), ?_⟩
    rw [List.append_nil]
    exact answerWithin_answers rfl 0
  | @inside id symbol outer known _ ih =>
    cases hl : c.lookup? (c.nameIn id text) with
    | some base =>
      have hsplit : id :: outer = [] ++ id :: outer := rfl
      refine ⟨⟨[id], some base⟩, .inScope hsplit (by simp) hl, ?_⟩
      refine answerWithin_answers ?_ _
      rw [scopeTurn, hl]
    | none =>
      have hturn : c.scopeTurn text ⟨visited, some id⟩ =
          .goesOn ⟨visited ++ [id], symbol.parent⟩ := by
        rw [scopeTurn, hl, known, Option.bind_some]
      obtain ⟨finding, hends, hrun⟩ := ih (visited ++ [id])
      refine ⟨⟨id :: finding.visited, finding.base⟩, hends.cons hl, ?_⟩
      rw [List.length_cons, answerWithin_goesOn hturn, hrun, List.append_assoc,
        List.singleton_append]

/-! ### Scopes around scopes -/

/-- Where every scope lies under an earlier one, a place that lies before some position has no scopes
around it but such as lie before it too. -/
theorem index_lt_of_surround (h : c.ParentsFirst) (around : c.Surround scope scopes) {bound : Nat}
    (before : ∀ id ∈ scope, id.index < bound) : ∀ other ∈ scopes, other.index < bound := by
  induction around generalizing bound with
  | nowhere => simp
  | @inside id symbol outer known _ ih =>
    have hid : id.index < bound := before id rfl
    rw [List.forall_mem_cons]
    refine ⟨hid, fun other hother => ?_⟩
    have hlt : other.index < id.index := ih (fun parent => h id symbol parent known) other hother
    exact Nat.lt_trans hlt hid

/-- And then no scope lies around itself. -/
theorem nodup_of_surround (h : c.ParentsFirst) (around : c.Surround scope scopes) :
    scopes.Nodup := by
  induction around with
  | nowhere => exact List.nodup_nil
  | @inside id symbol outer known further ih =>
    rw [List.nodup_cons]
    refine ⟨fun hagain => ?_, ih⟩
    have hlt := index_lt_of_surround h further (fun parent => h id symbol parent known) id hagain
    exact Nat.lt_irrefl _ hlt

/-! ### What the search is for -/

/-- What the search finds is what the text is resolved to, and if it finds nothing the text is resolved
elsewhere. -/
theorem resolveBase_of_searchEnds {finding : ScopeFinding}
    (names : c.candidateNames id text = c.namesWithin scopes text)
    (ends : c.SearchEnds scopes text finding) :
    c.resolveBase id text =
      match finding.base with
      | some base => (c, base)
      | none => c.resolveElsewhere text := by
  -- The text as it is written is the last of the names, which the loop leaves to what comes behind it.
  have hscoped : (c.namesWithin scopes text).findSome? c.lookup? =
      (scopes.findSome? fun scope => c.lookup? (c.nameIn scope text)).or (c.lookup? text) := by
    rw [namesWithin, List.findSome?_append, List.findSome?_map, List.findSome?_singleton]
    rfl
  rw [resolveBase, names, hscoped]
  cases ends with
  | @inScope inner outer scope base split missed found =>
    rw [split, List.findSome?_append, List.findSome?_eq_none_iff.mpr missed, Option.none_or,
      List.findSome?_cons, found, Option.some_or]
  | outermost missed =>
    rw [List.findSome?_eq_none_iff.mpr missed, Option.none_or]
    rfl

/-- At any time while a draft is linked, and for all types whose base is or was pending, the loop over
the scopes around the type ends.  It visits them in order, the innermost one first and none of them
twice, up to the first one that has a type with the name, or all of them to the outermost one.  What it
finds is what the base text is resolved to. -/
theorem scopeSearch_spec {draft : Draft} {events : List Event}
    (h : Draft.ofEvents events = .ok draft) (arises : draft.Arises c)
    (pending : (id, text) ∈ draft.bases) :
    ∃ symbol scopes finding, c.type? id = some symbol ∧
      (∀ around, c.Surround symbol.scope around ↔ around = scopes) ∧ scopes.Nodup ∧
        c.SearchEnds scopes text finding ∧
        (∀ turns, scopes.length + 1 ≤ turns →
          answerWithin (c.scopeTurn text) turns ⟨[], symbol.scope⟩ = some finding) ∧
        c.resolveBase id text =
          match finding.base with
          | some base => (c, base)
          | none => c.resolveElsewhere text := by
  obtain ⟨-, around, hreads⟩ := Draft.exists_reads_of_ofEvents h
  obtain ⟨d, added, linked, l⟩ := arises.exists_links h
  have hfirst := l.interned.parentsFirst
  have hid : id ∈ c.typeIds := l.extends_.mem_typeIds (hreads.bases.known _ pending)
  obtain ⟨symbol, hs⟩ := exists_type?_of_mem hid
  have hknown := l.interned.knowsScope_of_type? hs
  have hscopes : ∀ around, c.Surround symbol.scope around ↔ around = _ :=
    fun around => surround_iff hfirst hknown
  have haround := (hscopes _).mpr rfl
  obtain ⟨finding, hends, hrun⟩ := answerWithin_scopeTurn haround text []
  have hnames : c.candidateNames id text = _ := candidateNames_eq_namesWithin hfirst hs hknown haround
  refine ⟨symbol, _, finding, hs, hscopes, nodup_of_surround hfirst haround, hends, ?_,
    resolveBase_of_searchEnds hnames hends⟩
  intro turns enough
  exact answerWithin_of_le hrun enough

/-- The base `X` of a class in `N.M` is found in the outer one of the two scopes, where linking the base
of another class has put it. -/
theorem scopeSearch_spec_sharingHalfway :
    Draft.ofEvents sharingEvents = .ok sharingDraft ∧ sharingDraft.Arises sharingHalfway ∧
      (⟨1⟩, "X") ∈ sharingDraft.bases ∧
        (∀ turns, 3 ≤ turns →
          answerWithin (sharingHalfway.scopeTurn "X") turns ⟨[], some ⟨1⟩⟩ =
            some ⟨[⟨1⟩, ⟨0⟩], some ⟨3⟩⟩) ∧
        sharingHalfway.resolveBase ⟨1⟩ "X" = (sharingHalfway, ⟨3⟩) := by
  have hdraft : Draft.ofEvents sharingEvents = .ok sharingDraft := by decide +kernel
  have hpending : (⟨1⟩, "X") ∈ sharingDraft.bases := by decide +kernel
  obtain ⟨symbol, scopes, finding, hs, haround, -, -, hrun, hresolved⟩ :=
    scopeSearch_spec hdraft arises_sharingHalfway hpending
  have hscope : symbol.scope = some ⟨1⟩ := by
    have hown : (sharingHalfway.type? ⟨1⟩).map (·.scope) = some (some ⟨1⟩) := by decide +kernel
    rw [hs] at hown
    exact Option.some.inj hown
  have hinner : sharingHalfway.namespace? ⟨1⟩ = some ⟨"M", some ⟨0⟩⟩ := by decide +kernel
  have houter : sharingHalfway.namespace? ⟨0⟩ = some ⟨"N", none⟩ := by decide +kernel
  have hscopes : [⟨1⟩, ⟨0⟩] = scopes := by
    rw [← haround, hscope]
    exact .inside hinner (.inside houter .nowhere)
  rw [hscope, ← hscopes] at hrun
  have hfinding : finding = ⟨[⟨1⟩, ⟨0⟩], some ⟨3⟩⟩ := by
    have hthree : answerWithin (sharingHalfway.scopeTurn "X") 3 ⟨[], some ⟨1⟩⟩ =
        some ⟨[⟨1⟩, ⟨0⟩], some ⟨3⟩⟩ := by decide +kernel
    rw [hrun 3 (Nat.le_refl 3)] at hthree
    exact Option.some.inj hthree
  subst hfinding
  exact ⟨hdraft, arises_sharingHalfway, hpending, hrun, hresolved⟩

end Compilation

end Companion
