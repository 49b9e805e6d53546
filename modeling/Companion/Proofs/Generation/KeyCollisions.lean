import Companion.Generation.Log
import Companion.Proofs.Generation.Outcome
import Companion.Proofs.Model.Calls
import Companion.Proofs.Model.Symbols

/-!
# Collisions of keys

The key of a unit tells the simple name of its class only.  A pass makes the units of all its classes
and reports those whose key an earlier unit has.

* `ReportsUnit`: what is reported of a unit, given the units before it.
* `ReportsUnits`: what is reported of units in order.
* `owners`: the classes that have had a key last, as a pass keeps account of them.
* `reportsUnits_unitsLog`: a pass reports its units so.
* `madeUnits`: the units of a pass with their types.
* `ReportsUnits.countP_warning`: there are as many warnings as units whose key is not new.
* `keyCollisions_spec`: the units of a pass and all that it reports.
-/

namespace Companion

open FirstOccurrences

namespace Compilation

variable {c : Compilation} {settings : Settings} {id : TypeId} {unit : SourceUnit}
  {before units : List (TypeId × SourceUnit)} {entries : List LogEntry}

/-! ### What is reported of units -/

/-- What is reported of a unit that is made for a type, given the units before it with their
types. -/
inductive ReportsUnit (c : Compilation) (before : List (TypeId × SourceUnit)) (id : TypeId)
    (unit : SourceUnit) : List LogEntry → Prop
  /-- No unit before it has its key. -/
  | alone (fresh : ∀ p ∈ before, p.2.key ≠ unit.key) :
    ReportsUnit c before id unit [.unitGenerated unit.key (c.fullName id)]
  /-- Some unit before it has its key.  The type of the nearest of these is named first. -/
  | collision {front between : List (TypeId × SourceUnit)} {previous : TypeId} {other : SourceUnit}
      (split : before = front ++ (previous, other) :: between) (same : other.key = unit.key)
      (nearest : ∀ p ∈ between, p.2.key ≠ unit.key) :
    ReportsUnit c before id unit
      [.keyCollision unit.key (c.fullName previous) (c.fullName id),
        .unitGenerated unit.key (c.fullName id)]

/-- What is reported of units in order, given the units before them. -/
inductive ReportsUnits (c : Compilation) : List (TypeId × SourceUnit) →
    List (TypeId × SourceUnit) → List LogEntry → Prop
  | nil {before : List (TypeId × SourceUnit)} : ReportsUnits c before [] []
  | cons {before rest : List (TypeId × SourceUnit)} {id : TypeId} {unit : SourceUnit}
      {entries more : List LogEntry} (first : c.ReportsUnit before id unit entries)
      (later : ReportsUnits c (before ++ [(id, unit)]) rest more) :
    ReportsUnits c before ((id, unit) :: rest) (entries ++ more)

/-! ### Keeping account -/

/-- The keys of units with the full names of the types that they are made for, latest first. -/
def owners (c : Compilation) (units : List (TypeId × SourceUnit)) : List (String × String) :=
  units.reverse.map fun p => (p.2.key, c.fullName p.1)

theorem owners_concat (c : Compilation) (units : List (TypeId × SourceUnit)) (id : TypeId)
    (unit : SourceUnit) :
    c.owners (units ++ [(id, unit)]) = (unit.key, c.fullName id) :: c.owners units := by
  rw [owners, List.reverse_append]
  rfl

theorem lookup_owners_eq_none_iff {key : String} :
    (c.owners before).lookup key = none ↔ ∀ p ∈ before, p.2.key ≠ key := by
  rw [owners, List.lookup_eq_none_iff, List.forall_mem_map]
  simp only [List.mem_reverse]
  refine forall₂_congr fun p _ => ?_
  rw [bne_iff_ne, ne_comm]

/-- The owner of a key is the type of the nearest unit that has it. -/
theorem exists_split_of_lookup_owners {key name : String}
    (h : (c.owners before).lookup key = some name) :
    ∃ front previous other between, before = front ++ (previous, other) :: between ∧
      other.key = key ∧ (∀ p ∈ between, p.2.key ≠ key) ∧ c.fullName previous = name := by
  induction before using List.reverseRecOn with
  | nil => exact absurd h (by simp [owners])
  | append_singleton before last ih =>
    obtain ⟨previous, other⟩ := last
    rw [owners_concat, List.lookup_cons] at h
    by_cases hkey : key = other.key
    · rw [beq_iff_eq.mpr hkey] at h
      exact ⟨before, previous, other, [], rfl, hkey.symm, by simp, Option.some.inj h⟩
    · rw [beq_eq_false_iff_ne.mpr hkey] at h
      obtain ⟨front, previous', other', between, rfl, hother, hbetween, hname⟩ := ih h
      refine ⟨front, previous', other', between ++ [(previous, other)], ?_, hother, ?_, hname⟩
      · rw [List.append_assoc, List.cons_append]
      · intro p hp
        rcases List.mem_append.mp hp with hp | hp
        · exact hbetween p hp
        · rw [List.mem_singleton.mp hp]
          exact Ne.symm hkey

/-- What a pass reports of one unit. -/
theorem reportsUnit_of_lookup_owners (c : Compilation) (before : List (TypeId × SourceUnit))
    (id : TypeId) (unit : SourceUnit) :
    c.ReportsUnit before id unit
      ((((c.owners before).lookup unit.key).map fun previous =>
        .keyCollision unit.key previous (c.fullName id)).toList ++
          [.unitGenerated unit.key (c.fullName id)]) := by
  cases hl : (c.owners before).lookup unit.key with
  | none => exact .alone (lookup_owners_eq_none_iff.mp hl)
  | some name =>
    obtain ⟨front, previous, other, between, hsplit, hsame, hnearest, rfl⟩ :=
      exists_split_of_lookup_owners hl
    exact .collision hsplit hsame hnearest

/-- What a pass reports of its units, when it has kept account of the units before them. -/
theorem reportsUnits_unitsLog {ids : List TypeId}
    (h : ∀ id ∈ ids, (c.descriptor? id).isSome = true) (before : List (TypeId × SourceUnit)) :
    c.ReportsUnits before (ids.zip ((ids.filterMap c.descriptor?).map settings.unitFor))
      (unitsLog settings (c.owners before) (ids.filterMap c.descriptor?)) := by
  induction ids generalizing before with
  | nil => exact .nil
  | cons id rest ih =>
    rw [List.forall_mem_cons] at h
    obtain ⟨descriptor, hd⟩ := Option.isSome_iff_exists.mp h.1
    have hkey : settings.keyFor descriptor.name = (settings.unitFor descriptor).key := rfl
    have hlater := ih h.2 (before ++ [(id, settings.unitFor descriptor)])
    rw [owners_concat] at hlater
    rw [List.filterMap_cons_some hd, List.map_cons, List.zip_cons_cons, unitsLog,
      qualifiedName_of_descriptor? hd, hkey, List.append_cons]
    exact .cons (reportsUnit_of_lookup_owners c before id _) hlater

/-! ### Warnings -/

/-- There are as many warnings as units whose key is not new. -/
theorem ReportsUnits.countP_warning (h : c.ReportsUnits before units entries) :
    entries.countP (·.level = .warning) + ((before ++ units).map (·.2.key)).eraseDups.length =
      units.length + (before.map (·.2.key)).eraseDups.length := by
  induction h with
  | nil => simp
  | @cons before rest id unit entries more first later ih =>
    have hkeys : ((before ++ [(id, unit)]).map (·.2.key)).eraseDups =
        if unit.key ∈ before.map (·.2.key) then (before.map (·.2.key)).eraseDups
        else (before.map (·.2.key)).eraseDups ++ [unit.key] := by
      rw [List.map_append, List.map_singleton, eraseDups_concat]
    rw [hkeys, List.append_assoc, List.singleton_append] at ih
    rw [List.countP_append, List.length_cons]
    cases first with
    | alone fresh =>
      have hnew : unit.key ∉ before.map (·.2.key) := by
        intro hmem
        obtain ⟨p, hp, hkey⟩ := List.mem_map.mp hmem
        exact fresh p hp hkey
      rw [if_neg hnew, List.length_append, List.length_singleton] at ih
      have hnone : [LogEntry.unitGenerated unit.key (c.fullName id)].countP
          (·.level = .warning) = 0 := rfl
      rw [hnone]
      omega
    | @collision front between previous other split same nearest =>
      have hold : unit.key ∈ before.map (·.2.key) := by
        rw [split, ← same]
        exact List.mem_map.mpr ⟨(previous, other), by simp, rfl⟩
      rw [if_pos hold] at ih
      have hone : [LogEntry.keyCollision unit.key (c.fullName previous) (c.fullName id),
          LogEntry.unitGenerated unit.key (c.fullName id)].countP (·.level = .warning) = 1 := rfl
      rw [hone]
      omega

/-- A warning names the types of two units, one behind the other. -/
theorem ReportsUnits.exists_of_warning (h : c.ReportsUnits before units entries) {entry : LogEntry}
    (hentry : entry ∈ entries) (hwarning : entry.level = .warning) :
    ∃ key front previous other between id unit back,
      before ++ units = front ++ (previous, other) :: between ++ (id, unit) :: back ∧
        entry = .keyCollision key (c.fullName previous) (c.fullName id) := by
  induction h with
  | nil => exact absurd hentry List.not_mem_nil
  | @cons before rest id unit entries more first later ih =>
    rcases List.mem_append.mp hentry with hfirst | hlater
    · cases first with
      | alone fresh =>
        rw [List.mem_singleton.mp hfirst] at hwarning
        exact absurd hwarning (by simp [LogEntry.level])
      | @collision front between previous other split same nearest =>
        rcases List.mem_cons.mp hfirst with rfl | hgenerated
        · exact ⟨unit.key, front, previous, other, between, id, unit, rest, by rw [split], rfl⟩
        · rw [List.mem_singleton.mp hgenerated] at hwarning
          exact absurd hwarning (by simp [LogEntry.level])
    · have hfound := ih hlater
      rwa [List.append_assoc, List.singleton_append] at hfound

/-- Discovery warns of nothing. -/
theorem level_of_mem_discoveryLog {marker : String} {entry : LogEntry}
    (h : entry ∈ c.discoveryLog marker) : entry.level = .debug := by
  obtain ⟨p, -, hentry⟩ := List.mem_flatMap.mp h
  rcases List.mem_append.mp hentry with hsearch | hskip
  · unfold eligibilityLog at hsearch
    split at hsearch
    · split at hsearch
      · exact absurd hsearch List.not_mem_nil
      · rw [searchLog, Option.mem_toList, Option.map_eq_some_iff] at hsearch
        obtain ⟨again, -, rfl⟩ := hsearch
        rfl
    · exact absurd hsearch List.not_mem_nil
  · unfold skipLog at hskip
    split at hskip
    · exact absurd hskip List.not_mem_nil
    · rw [List.mem_singleton.mp hskip]
      rfl

/-! ### The whole pass -/

/-- The units of a pass with the types that they are made for, in order. -/
def madeUnits (c : Compilation) (settings : Settings) : List (TypeId × SourceUnit) :=
  (c.eligibleTypes settings.marker).zip (c.generate settings)

theorem map_fst_madeUnits (c : Compilation) (settings : Settings) :
    (c.madeUnits settings).map Prod.fst = c.eligibleTypes settings.marker :=
  List.map_fst_zip (Nat.le_of_eq (forall₂_generate c settings).length_eq)

theorem map_snd_madeUnits (c : Compilation) (settings : Settings) :
    (c.madeUnits settings).map Prod.snd = c.generate settings :=
  List.map_snd_zip (Nat.le_of_eq (forall₂_generate c settings).length_eq.symm)

theorem length_madeUnits (c : Compilation) (settings : Settings) :
    (c.madeUnits settings).length = (c.generate settings).length := by
  rw [← map_snd_madeUnits, List.length_map]

/-- No two units are made for the same type. -/
theorem nodup_madeUnits (c : Compilation) (settings : Settings) :
    ((c.madeUnits settings).map Prod.fst).Nodup := by
  rw [map_fst_madeUnits, eligibleTypes]
  exact nodup_eraseDups _

theorem mem_typeIds_of_mem_madeUnits {p : TypeId × SourceUnit} (h : p ∈ c.madeUnits settings) :
    p.1 ∈ c.typeIds := by
  have hmem := List.mem_map_of_mem (f := Prod.fst) h
  rw [map_fst_madeUnits] at hmem
  exact mem_typeIds_of_mem_eligibleTypes hmem

theorem reportsUnits_madeUnits (c : Compilation) (settings : Settings) :
    c.ReportsUnits [] (c.madeUnits settings)
      (unitsLog settings [] (c.descriptors settings.marker)) :=
  reportsUnits_unitsLog (fun _ => isSome_descriptor?_of_mem) []

/-- Different keys are as many as different names. -/
theorem length_eraseDups_keys (c : Compilation) (settings : Settings) :
    ((c.madeUnits settings).map (·.2.key)).eraseDups.length =
      (c.unitNames settings.marker).eraseDups.length := by
  have hkeys : (c.madeUnits settings).map (·.2.key) =
      (c.unitNames settings.marker).map (· ++ settings.suffix) := by
    have hmade : (c.madeUnits settings).map (·.2.key) = (c.generate settings).map (·.key) := by
      rw [← map_snd_madeUnits, List.map_map]
      rfl
    rw [hmade, generate, unitNames, List.map_map, List.map_map]
    rfl
  have hinj : Function.Injective fun name => name ++ settings.suffix :=
    fun _ _ heq => String.append_left_inj settings.suffix |>.mp heq
  rw [hkeys, eraseDups_map hinj, List.length_map]

/-- Where full names tell types apart, so do the reports of units that are made for different types. -/
theorem ReportsUnits.names_ne (h : c.ReportsUnits [] units entries) (hc : c.Interned)
    (hknown : ∀ p ∈ units, p.1 ∈ c.typeIds) (hnodup : (units.map Prod.fst).Nodup)
    {entry : LogEntry} (hentry : entry ∈ entries) (hwarning : entry.level = .warning) :
    ∃ key first second, entry = .keyCollision key first second ∧ first ≠ second := by
  obtain ⟨key, front, previous, other, between, id, unit, back, hunits, rfl⟩ :=
    h.exists_of_warning hentry hwarning
  rw [List.nil_append] at hunits
  refine ⟨key, _, _, rfl, ?_⟩
  intro hsame
  have hprevious : (previous, other) ∈ units := by simp [hunits]
  have hid : (id, unit) ∈ units := by simp [hunits]
  obtain rfl := hc.fullName_inj (hknown _ hprevious) (hknown _ hid) hsame
  rw [hunits, List.map_append, List.nodup_append] at hnodup
  exact hnodup.2.2 previous (by simp) previous (by simp) rfl

/-- A pass makes one unit for each type that is discovered, in the order of discovery.  Discovery warns
of nothing, and of each unit is reported that it collides with an earlier one exactly if there is one
with its key, by the full names of the types of the nearest of these and of itself.  The collisions
are as many as units less the simple names, and none is between types of one full name. -/
theorem keyCollisions_spec (hb : Builds {} c) (settings : Settings) :
    List.Forall₂ (c.IsUnitOf settings) (c.eligibleTypes settings.marker) (c.generate settings) ∧
    (∃ reports, c.ReportsUnits [] (c.madeUnits settings) reports ∧
      c.passLog settings = c.discoveryLog settings.marker ++ reports ++
        [.passComplete c.declarations.length (c.generate settings).length]) ∧
    (∀ entry ∈ c.discoveryLog settings.marker, entry.level ≠ .warning) ∧
    (c.passLog settings).countP (·.level = .warning) +
      (c.unitNames settings.marker).eraseDups.length = (c.generate settings).length ∧
    ∀ entry ∈ c.passLog settings, entry.level = .warning →
      ∃ key first second, entry = .keyCollision key first second ∧ first ≠ second := by
  obtain ⟨h, -⟩ := hb.interned_extends interned_empty
  have hreports := c.reportsUnits_madeUnits settings
  have hquiet : ∀ entry ∈ c.discoveryLog settings.marker, entry.level ≠ .warning := by
    intro entry hentry
    rw [level_of_mem_discoveryLog hentry]
    decide
  refine ⟨forall₂_generate c settings, ⟨_, hreports, rfl⟩, hquiet, ?_, ?_⟩
  · have hcount := hreports.countP_warning
    rw [List.nil_append, length_eraseDups_keys, length_madeUnits] at hcount
    have hdiscovery : (c.discoveryLog settings.marker).countP (·.level = .warning) = 0 := by
      rw [List.countP_eq_zero]
      intro entry hentry
      simpa using hquiet entry hentry
    have hcomplete : [LogEntry.passComplete c.declarations.length
        (c.generate settings).length].countP (·.level = .warning) = 0 := rfl
    rw [passLog, List.countP_append, List.countP_append, hdiscovery, hcomplete, Nat.zero_add,
      Nat.add_zero]
    exact hcount
  · intro entry hentry hwarning
    rw [passLog, List.mem_append, List.mem_append, List.mem_singleton] at hentry
    rcases hentry with (hdiscovery | hunit) | rfl
    · exact absurd hwarning (hquiet entry hdiscovery)
    · exact hreports.names_ne h (fun _ => mem_typeIds_of_mem_madeUnits)
        (c.nodup_madeUnits settings) hunit hwarning
    · exact absurd hwarning (by simp [LogEntry.level])

/-- Three classes of one simple name under a marker, in a namespace each. -/
def threeNamesakes : Compilation :=
  let calls : List Call := [.internExternal "Marker", .internExternal "A.S", .internExternal "B.S",
    .internExternal "C.S", .setBase ⟨1⟩ (some ⟨0⟩), .setBase ⟨2⟩ (some ⟨0⟩),
    .setBase ⟨3⟩ (some ⟨0⟩), .declare ⟨1⟩ true, .declare ⟨2⟩ true, .declare ⟨3⟩ true]
  calls.foldl Call.run {}

theorem builds_threeNamesakes : Builds {} threeNamesakes := by
  refine builds_foldl ?_ {}
  simp [Call.Permitted]

/-- The third unit collides with the second one, not with the first. -/
theorem keyCollisions_spec_threeNamesakes :
    threeNamesakes.passLog { marker := "Marker" } =
        [.unitGenerated "S_g" "A.S", .keyCollision "S_g" "A.S" "B.S", .unitGenerated "S_g" "B.S",
          .keyCollision "S_g" "B.S" "C.S", .unitGenerated "S_g" "C.S", .passComplete 3 3] ∧
      (threeNamesakes.passLog { marker := "Marker" }).countP (·.level = .warning) +
        (threeNamesakes.unitNames "Marker").eraseDups.length =
          (threeNamesakes.generate { marker := "Marker" }).length := by
  obtain ⟨-, -, -, hcount, -⟩ := keyCollisions_spec builds_threeNamesakes { marker := "Marker" }
  exact ⟨by decide +kernel, hcount⟩

end Compilation

end Companion
