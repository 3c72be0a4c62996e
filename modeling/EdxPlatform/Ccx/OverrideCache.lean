import EdxPlatform.Lib.Dict

/-!
# The overrides in the cache of a request

The first look at the overrides of a custom course reads them all into a map, which the later calls of the request
keep beside the table.  The map has three entries for a field: its value, and under the name with `_id` and
`_instance` the row.
-/

namespace EdxPlatform.Ccx

/-- A key of a block of the master course, perhaps in one branch or version of it. -/
structure MasterKey where
  block : String
  branch : Option String := none
  version : Option String := none
  deriving DecidableEq

/-- `_clean_ccx_key` of a key of the master course. -/
def MasterKey.clean (location : MasterKey) : MasterKey := { block := location.block }

@[simp]
theorem MasterKey.clean_clean (location : MasterKey) : location.clean.clean = location.clean := rfl

/-- A row of `CcxFieldOverride`; its value is JSON as text. -/
structure OverrideRow where
  id : Nat
  location : MasterKey
  field : String
  value : String
  deriving DecidableEq

abbrev OverrideRows := Dict (MasterKey × String) OverrideRow

/-- What the map has under a name. -/
inductive Entry (V : Type) where
  | value (value : V)
  | id (id : Nat)
  | row (row : OverrideRow)
  deriving DecidableEq

abbrev OverrideMap (V : Type) := Dict MasterKey (Dict String (Entry V))

variable {V : Type} (dumps : V → String)

namespace OverrideMap

section

variable (map : OverrideMap V) (location : MasterKey) (name : String)

def entry : Option (Entry V) := (map.lookup location).bind fun block => block.lookup name

/-- `map.setdefault(location, {})[name] = value` -/
def set (value : Entry V) : OverrideMap V := map.insert location (((map.lookup location).getD ∅).insert name value)

/-- `map[location].pop(name)`, or none for a `KeyError`. -/
def pop : Option (OverrideMap V) :=
  match map.entry location name with
  | none => none
  | some _ => some (map.insert location (((map.lookup location).getD ∅).erase name))

/-- `clear_ccx_field_info_from_ccx_map`, which stops at the first name that is not there. -/
def clearInfo : OverrideMap V :=
  match map.pop location name with
  | none => map
  | some map =>
    match map.pop location (name ++ "_id") with
    | none => map
    | some map => (map.pop location (name ++ "_instance")).getD map

end

theorem entry_set (map : OverrideMap V) (location other : MasterKey) (name found : String) (value : Entry V) :
    (map.set location name value).entry other found =
      if other = location ∧ found = name then some value else map.entry other found := by
  rw [entry, set, lookup_insert]
  by_cases hoth : other = location
  · subst hoth
    rw [if_pos rfl, bind_some, lookup_insert]
    by_cases hfnd : found = name
    · simp [hfnd]
    · rw [if_neg hfnd, if_neg (fun h => hfnd h.2), entry]
      cases map.lookup other <;> rfl
  · rw [if_neg hoth, if_neg (fun h => hoth h.1), entry]

variable {location : MasterKey}

theorem entry_pop {map after : OverrideMap V} {name : String}
    (hpop : map.pop location name = some after) (other : MasterKey) (found : String) :
    after.entry other found = if other = location ∧ found = name then none else map.entry other found := by
  rw [pop] at hpop
  split at hpop
  · cases hpop
  · injection hpop with hpop
    rw [← hpop, entry, lookup_insert]
    by_cases hoth : other = location
    · subst hoth
      rw [if_pos rfl, bind_some, lookup_erase]
      by_cases hfnd : found = name
      · simp [hfnd]
      · rw [if_neg hfnd, if_neg (fun h => hfnd h.2), entry]
        cases map.lookup other <;> rfl
    · rw [if_neg hoth, if_neg (fun h => hoth h.1), entry]

theorem exists_pop {map : OverrideMap V} {name : String} {value : Entry V}
    (hent : map.entry location name = some value) : ∃ after, map.pop location name = some after := by
  rw [pop, hent]
  exact ⟨_, rfl⟩

theorem clearInfo_of_pop {map first second third : OverrideMap V} {name : String}
    (hfst : map.pop location name = some first) (hsec : first.pop location (name ++ "_id") = some second)
    (hthird : second.pop location (name ++ "_instance") = some third) : map.clearInfo location name = third := by
  rw [clearInfo, hfst]
  dsimp only
  rw [hsec]
  dsimp only
  rw [hthird, getD_some]

end OverrideMap

open OverrideMap

variable (loads : String → V)

section Calls

def putRow (map : OverrideMap V) (row : OverrideRow) : OverrideMap V :=
  ((map.set row.location row.field (.value (loads row.value))).set row.location (row.field ++ "_id")
    (.id row.id)).set row.location (row.field ++ "_instance") (.row row)

def freshMap (rows : OverrideRows) : OverrideMap V := rows.entries.foldl (fun map entry => putRow loads map entry.2) ∅

/-- A request with the table, its map once it is read, and the ids that it has recorded for deletion. -/
structure Request (V : Type) where
  rows : OverrideRows
  nextId : Nat
  cache : Option (OverrideMap V) := none
  recorded : List (Option (Entry V)) := []

namespace Request

variable (request : Request V)

/-- `_get_overrides_for_ccx` -/
def overrides : OverrideMap V := request.cache.getD (freshMap loads request.rows)

/-- `get_override_for_ccx`, where `fromJson` has `from_json` of the fields of the block. -/
def getOverride (fromJson : String → Option (Entry V → Entry V)) (location : MasterKey) (name : String)
    (default : Entry V) : Entry V :=
  match (request.overrides loads).entry location.clean name with
  | some found =>
    match fromJson name with
    | some convert => convert found
    | none => found
  | none => default

/-- The end of `override_field_for_ccx`: the row is saved if it has changes, and the map gets both. -/
def saveOverride (map : OverrideMap V) (location : MasterKey) (name : String) (value : V) (override : OverrideRow) :
    Request V :=
  let saved := { override with value := dumps value }
  { request with
    rows := if dumps value ≠ override.value then request.rows.insert (saved.location, saved.field) saved
      else request.rows
    cache := some ((map.set location.clean name (.value value)).set location.clean (name ++ "_instance")
      (.row saved)) }

section

variable (location : MasterKey) (name : String)

/-- `override_field_for_ccx` with the value as JSON; none where what is cached as a row is none. -/
def overrideField (value : V) : Option (Request V) :=
  let map := request.overrides loads
  match map.entry location.clean (name ++ "_instance") with
  | some (.row override) => some (request.saveOverride dumps map location name value override)
  | some _ => none
  | none =>
    match request.rows.lookup (location, name) with
    | some override => some (request.saveOverride dumps map location name value override)
    | none =>
      let created : OverrideRow := ⟨request.nextId, location, name, dumps value⟩
      let request := { request with
        rows := request.rows.insert (location, name) created
        nextId := request.nextId + 1 }
      some (request.saveOverride dumps (map.set location.clean (name ++ "_id") (.id created.id)) location name value
        created)

/-- `clear_ccx_field_info_from_ccx_map` -/
def clearFieldInfo : Request V :=
  { request with cache := some ((request.overrides loads).clearInfo location.clean name) }

/-- `clear_override_for_ccx` -/
def clearOverride : Request V :=
  match request.rows.lookup (location, name) with
  | some _ => clearFieldInfo loads { request with rows := request.rows.erase (location, name) } location name
  | none => request

def recordAndClear : Request V :=
  clearFieldInfo loads { request with
      recorded := request.recorded ++ [(request.overrides loads).entry location.clean (name ++ "_id")] }
    location name

end

def recordedIds : List Nat :=
  request.recorded.filterMap fun
    | some (.id id) => some id
    | _ => none

/-- `bulk_delete_ccx_override_fields` with what has been recorded. -/
def bulkDelete : Request V :=
  { request with
    rows := Dict.filter (fun row => row.id ∉ request.recordedIds) request.rows
    recorded := [] }

end Request

open Request

/-- A call during a request. -/
inductive OverrideCall (V : Type) where
  | override (location : MasterKey) (name : String) (value : V)
  | clearOverride (location : MasterKey) (name : String)
  | recordAndClear (location : MasterKey) (name : String)
  | bulkDelete

def Request.step (request : Request V) : OverrideCall V → Option (Request V)
  | .override location name value => request.overrideField dumps loads location name value
  | .clearOverride location name => some (request.clearOverride loads location name)
  | .recordAndClear location name => some (request.recordAndClear loads location name)
  | .bulkDelete => some request.bulkDelete

def Request.run (request : Request V) (calls : List (OverrideCall V)) : Option (Request V) :=
  calls.foldlM (Request.step dumps loads) request

end Calls

/-! ## The names of the entries -/

/-- The three entries of a field. -/
inductive Slot where
  | value
  | id
  | row
  deriving DecidableEq

def Slot.name : Slot → String → String
  | .value, field => field
  | .id, field => field ++ "_id"
  | .row, field => field ++ "_instance"

def Slot.entry {V : Type} (loads : String → V) : Slot → OverrideRow → Entry V
  | .value, override => .value (loads override.value)
  | .id, override => .id override.id
  | .row, override => .row override

def Apart (names : Set String) : Prop :=
  ∀ first ∈ names, ∀ second ∈ names, first ≠ second ++ "_id" ∧ first ≠ second ++ "_instance"

theorem id_ne_instance (first second : String) : first ++ "_id" ≠ second ++ "_instance" := by
  intro heq
  have hlast := congrArg (fun text => text.toList.getLast?) heq
  simp at hlast

theorem Apart.name_inj {names : Set String} (hapart : Apart names) {first second : String} (hfst : first ∈ names)
    (hsec : second ∈ names) {slot other : Slot} (heq : slot.name first = other.name second) :
    slot = other ∧ first = second := by
  cases slot with
  | value =>
    cases other with
    | value => exact ⟨rfl, heq⟩
    | id => exact absurd heq (hapart first hfst second hsec).1
    | row => exact absurd heq (hapart first hfst second hsec).2
  | id =>
    cases other with
    | value => exact absurd heq.symm (hapart second hsec first hfst).1
    | id => exact ⟨rfl, String.append_left_inj _ |>.mp heq⟩
    | row => exact absurd heq (id_ne_instance first second)
  | row =>
    cases other with
    | value => exact absurd heq.symm (hapart second hsec first hfst).2
    | id => exact absurd heq.symm (id_ne_instance second first)
    | row => exact ⟨rfl, String.append_left_inj _ |>.mp heq⟩

section Names

variable {loads : String → V} {names : Set String}

def OverrideMap.Follows (loads : String → V) (names : Set String) (map : OverrideMap V)
    (live : MasterKey → String → Option OverrideRow) : Prop :=
  ∀ location : MasterKey, location.clean = location → ∀ field ∈ names, ∀ slot : Slot,
    map.entry location (slot.name field) = (live location field).map (slot.entry loads)

def OverrideMap.SameElsewhere (map after : OverrideMap V) (location : MasterKey) (field : String) : Prop :=
  ∀ other found, (other ≠ location ∨ ∀ slot : Slot, found ≠ slot.name field) →
    after.entry other found = map.entry other found

variable {after : OverrideMap V} {changed : MasterKey → String → Option OverrideRow}
   {field : String} {live : MasterKey → String → Option OverrideRow} {location : MasterKey}
   {map : OverrideMap V}

theorem OverrideMap.Follows.change (hapart : Apart names) (hfol : map.Follows loads names live)
    (hfld : field ∈ names) (hsame : map.SameElsewhere after location field)
    (hents : ∀ slot : Slot, after.entry location (slot.name field) = (changed location field).map (slot.entry loads))
    (hlive : ∀ other found, (other ≠ location ∨ found ≠ field) → changed other found = live other found) :
    after.Follows loads names changed := by
  intro other hclean found hfnd slot
  by_cases hkey : other = location ∧ found = field
  · rw [hkey.1, hkey.2]
    exact hents slot
  · have hne : other ≠ location ∨ found ≠ field := by tauto
    rw [hlive other found hne, ← hfol other hclean found hfnd slot]
    refine hsame other _ (hne.imp_right fun hne another heq => hne ?_)
    exact (hapart.name_inj hfnd hfld heq).2

theorem OverrideMap.sameElsewhere_set (map : OverrideMap V) (location : MasterKey) (field : String) (slot : Slot)
    (value : Entry V) : map.SameElsewhere (map.set location (slot.name field) value) location field := by
  intro other found hne
  rw [entry_set, if_neg]
  rintro ⟨hoth, hfnd⟩
  exact hne.elim (fun hne => hne hoth) (fun hne => hne slot hfnd)

theorem OverrideMap.SameElsewhere.trans {middle : OverrideMap V}
    (hfst : map.SameElsewhere middle location field) (hsec : middle.SameElsewhere after location field) :
    map.SameElsewhere after location field :=
  fun other found hne => (hsec other found hne).trans (hfst other found hne)

theorem OverrideMap.sameElsewhere_pop {slot : Slot} (hpop : map.pop location (slot.name field) = some after) :
    map.SameElsewhere after location field := by
  intro other found hne
  rw [entry_pop hpop, if_neg]
  rintro ⟨hoth, hfnd⟩
  exact hne.elim (fun hne => hne hoth) (fun hne => hne slot hfnd)

theorem OverrideMap.Follows.clearInfo (hapart : Apart names) (hfol : map.Follows loads names live)
    (hclean : location.clean = location) (hfld : field ∈ names)
    (hgone : changed location field = none)
    (hlive : ∀ other found, (other ≠ location ∨ found ≠ field) → changed other found = live other found) :
    (map.clearInfo location field).Follows loads names changed := by
  have hent := hfol location hclean field hfld
  cases hrow : live location field with
  | none =>
    have hnone : map.entry location field = none := by
      have hval := hent .value
      rwa [hrow] at hval
    rw [OverrideMap.clearInfo, OverrideMap.pop, hnone]
    refine hfol.change hapart hfld (fun _ _ _ => rfl) (fun slot => ?_) hlive
    rw [hent slot, hrow, hgone]
  | some override =>
    have hsome (slot : Slot) : map.entry location (slot.name field) = some (slot.entry loads override) := by
      rw [hent slot, hrow]
      rfl
    have hne {slot other : Slot} (hslot : slot ≠ other) : slot.name field ≠ other.name field :=
      fun heq => hslot (hapart.name_inj hfld hfld heq).1
    obtain ⟨first, hfst⟩ := exists_pop (hsome .value)
    have hid : first.entry location (Slot.id.name field) = some (Slot.id.entry loads override) := by
      rw [entry_pop hfst, if_neg (fun h => hne (by decide) h.2), hsome]
    obtain ⟨second, hsec⟩ := exists_pop hid
    have hinst : second.entry location (Slot.row.name field) = some (Slot.row.entry loads override) := by
      rw [entry_pop hsec, if_neg (fun h => hne (by decide) h.2), entry_pop hfst,
        if_neg (fun h => hne (by decide) h.2), hsome]
    obtain ⟨third, hthird⟩ := exists_pop hinst
    have hsame := ((sameElsewhere_pop hfst).trans (sameElsewhere_pop hsec)).trans (sameElsewhere_pop hthird)
    have hclear : map.clearInfo location field = third := clearInfo_of_pop hfst hsec hthird
    rw [hclear]
    refine hfol.change hapart hfld hsame (fun slot => ?_) hlive
    rw [hgone, map_none, entry_pop hthird, entry_pop hsec, entry_pop hfst]
    cases slot with
    | value => simp [Slot.name]
    | id => simp [Slot.name]
    | row => simp [Slot.name]

theorem OverrideMap.entry_putRow (hapart : Apart names) (map : OverrideMap V) {override : OverrideRow}
    (hfld : override.field ∈ names) (location : MasterKey) (hmem : field ∈ names) (slot : Slot) :
    (putRow loads map override).entry location (slot.name field) =
      if location = override.location ∧ field = override.field then some (slot.entry loads override)
      else map.entry location (slot.name field) := by
  have hname (other : Slot) : slot.name field = other.name override.field ↔ slot = other ∧ field = override.field :=
    ⟨hapart.name_inj hmem hfld, fun ⟨hslot, heq⟩ => by rw [hslot, heq]⟩
  have hrow : slot.name field = override.field ++ "_instance" ↔ slot = .row ∧ field = override.field := hname .row
  have hid : slot.name field = override.field ++ "_id" ↔ slot = .id ∧ field = override.field := hname .id
  have hval : slot.name field = override.field ↔ slot = .value ∧ field = override.field := hname .value
  rw [putRow, entry_set, entry_set, entry_set]
  simp only [hrow, hid, hval]
  by_cases hkey : location = override.location ∧ field = override.field
  · cases slot <;> simp [hkey.1, hkey.2, Slot.entry]
  · rw [if_neg (fun h => hkey ⟨h.1, h.2.2⟩), if_neg (fun h => hkey ⟨h.1, h.2.2⟩),
      if_neg (fun h => hkey ⟨h.1, h.2.2⟩), if_neg hkey]

/-- Each row of the table is stored under its own location and field, and the fields are those of blocks. -/
def Filed (names : Set String) (rows : OverrideRows) : Prop :=
  ∀ key row, rows.lookup key = some row → key = (row.location, row.field) ∧ row.field ∈ names

theorem entry_foldl_putRow (hapart : Apart names) {entries : List (Σ _ : MasterKey × String, OverrideRow)}
    (hnod : (entries.map Sigma.fst).Nodup)
    (hfiled : ∀ entry ∈ entries, entry.1 = (entry.2.location, entry.2.field) ∧ entry.2.field ∈ names)
    (map : OverrideMap V) (location : MasterKey) (hfld : field ∈ names) (slot : Slot) :
    (entries.foldl (fun map entry => putRow loads map entry.2) map).entry location (slot.name field) =
      ((entries.dlookup (location, field)).map (slot.entry loads)).or (map.entry location (slot.name field)) := by
  induction entries generalizing map with
  | nil => rfl
  | cons first entries ih =>
    obtain ⟨key, override⟩ := first
    rw [map_cons, nodup_cons] at hnod
    rw [forall_mem_cons] at hfiled
    obtain ⟨hkey, hmem⟩ := hfiled.1
    dsimp only at hkey hmem
    rw [foldl_cons, ih hnod.2 hfiled.2, entry_putRow hapart map hmem location hfld slot]
    by_cases hown : (location, field) = key
    · have hnone : entries.dlookup (location, field) = none := List.dlookup_eq_none.mpr (by rw [hown]; exact hnod.1)
      rw [if_pos (by simpa using hown.trans hkey), hnone, hown, dlookup_cons_eq]
      rfl
    · rw [if_neg (fun h => hown (by rw [hkey, h.1, h.2])), dlookup_cons_ne _ _ hown]

theorem follows_freshMap (hapart : Apart names) {rows : OverrideRows} (hfiled : Filed names rows) :
    (freshMap loads rows).Follows loads names fun location field => rows.lookup (location, field) := by
  intro location hclean field hfld slot
  rw [freshMap, entry_foldl_putRow hapart rows.nodupKeys _ ∅ location hfld slot]
  · exact or_none
  · intro entry hent
    exact hfiled entry.1 entry.2 (mem_lookup_iff.mpr hent)

end Names

/-! ## The map follows the table -/

namespace Request

variable {dumps : V → String} {loads : String → V} {names : Set String} {request : Request V}

def live (request : Request V) (location : MasterKey) (field : String) : Option OverrideRow :=
  (request.rows.lookup (location, field)).filter fun row => row.id ∉ request.recordedIds

/-- The map has the rows that are not recorded for deletion. -/
structure Kept (loads : String → V) (names : Set String) (request : Request V) : Prop where
  follows : (request.overrides loads).Follows loads names request.live
  filed : Filed names request.rows
  given : ∀ key row, request.rows.lookup key = some row → row.id < request.nextId
  distinct : ∀ key row other found, request.rows.lookup key = some row → request.rows.lookup other = some found →
    row.id = found.id → key = other
  recordedGiven : ∀ id ∈ request.recordedIds, id < request.nextId
  unread : request.cache = none → request.recorded = []

theorem live_of_recorded_nil (hrecd : request.recorded = []) (location : MasterKey) (field : String) :
    request.live location field = request.rows.lookup (location, field) := by
  rw [live, recordedIds, hrecd]
  cases request.rows.lookup (location, field) <;> simp

variable {location : MasterKey}

theorem live_eq_some {field : String} {row : OverrideRow} : request.live location field = some row ↔
      request.rows.lookup (location, field) = some row ∧ row.id ∉ request.recordedIds := by
  rw [live, filter_eq_some_iff, decide_eq_true_eq]

theorem Kept.write {after : Request V} {map : OverrideMap V} (row : OverrideRow) (hapart : Apart names)
    (hkept : request.Kept loads names) (hclean : row.location.clean = row.location) (hfld : row.field ∈ names)
    (hrows : ∀ key, after.rows.lookup key =
      if key = (row.location, row.field) then some row else request.rows.lookup key)
    (hnxt : request.nextId ≤ after.nextId) (hgiven : row.id < after.nextId) (hlive : row.id ∉ request.recordedIds)
    (huniq : ∀ key found, request.rows.lookup key = some found → found.id = row.id → key = (row.location, row.field))
    (hrecd : after.recorded = request.recorded) (hcache : after.cache = some map)
    (hsame : (request.overrides loads).SameElsewhere map row.location row.field)
    (hents : ∀ slot : Slot, map.entry row.location (slot.name row.field) = some (slot.entry loads row)) :
    after.Kept loads names := by
  have hids : after.recordedIds = request.recordedIds := by rw [recordedIds, recordedIds, hrecd]
  have haft : ∀ key found, after.rows.lookup key = some found → (key = (row.location, row.field) ∧ found = row) ∨
        (key ≠ (row.location, row.field) ∧ request.rows.lookup key = some found) := by
    intro key found hfnd
    rw [hrows] at hfnd
    split at hfnd
    · next heq => exact .inl ⟨heq, (some.inj hfnd).symm⟩
    · next hne => exact .inr ⟨hne, hfnd⟩
  refine ⟨?_, ?_, ?_, ?_, ?_, fun hnone => ?_⟩
  · have hove : after.overrides loads = map := by rw [overrides, hcache, getD_some]
    rw [hove]
    refine hkept.follows.change hapart hfld hsame (fun slot => ?_) fun other found hne => ?_
    · have hsome : after.live row.location row.field = some row :=
        live_eq_some.mpr ⟨by rw [hrows, if_pos rfl], hids ▸ hlive⟩
      rw [hents, hsome, map_some]
    · rw [live, live, hids, hrows, if_neg]
      exact fun heq => hne.elim (fun hne => hne (Prod.mk.inj heq).1) (fun hne => hne (Prod.mk.inj heq).2)
  · intro key found hfnd
    rcases haft key found hfnd with ⟨hkey, rfl⟩ | ⟨-, hold⟩
    · exact ⟨hkey, hfld⟩
    · exact hkept.filed key found hold
  · intro key found hfnd
    rcases haft key found hfnd with ⟨-, rfl⟩ | ⟨-, hold⟩
    · exact hgiven
    · exact Nat.lt_of_lt_of_le (hkept.given key found hold) hnxt
  · intro key found other second hfnd hsec heq
    rcases haft key found hfnd with ⟨hkey, rfl⟩ | ⟨-, hold⟩
    · rcases haft other second hsec with ⟨hoth, -⟩ | ⟨-, hoth⟩
      · rw [hkey, hoth]
      · rw [hkey, huniq other second hoth heq.symm]
    · rcases haft other second hsec with ⟨hoth, rfl⟩ | ⟨-, hoth⟩
      · rw [hoth, huniq key found hold heq]
      · exact hkept.distinct key found other second hold hoth heq
  · intro id hid
    rw [hids] at hid
    exact Nat.lt_of_lt_of_le (hkept.recordedGiven id hid) hnxt
  · rw [hcache] at hnone
    cases hnone

theorem entry_saved (row : OverrideRow) (hapart : Apart names) {map : OverrideMap V} (hfld : row.field ∈ names)
    {value : V} (hval : loads row.value = value)
    (hid : map.entry row.location (row.field ++ "_id") = some (.id row.id)) (slot : Slot) :
    ((map.set row.location row.field (.value value)).set row.location (row.field ++ "_instance")
      (.row row)).entry row.location (slot.name row.field) = some (slot.entry loads row) := by
  have hne (first second : Slot) (hslot : first ≠ second) : first.name row.field ≠ second.name row.field :=
    fun heq => hslot (hapart.name_inj hfld hfld heq).1
  rw [entry_set, entry_set]
  cases slot with
  | value =>
    have hrow : Slot.value.name row.field ≠ row.field ++ "_instance" := hne .value .row (by decide)
    rw [if_neg (fun h => hrow h.2), if_pos ⟨rfl, rfl⟩, Slot.entry, hval]
  | id =>
    have hrow : Slot.id.name row.field ≠ row.field ++ "_instance" := hne .id .row (by decide)
    have hown : Slot.id.name row.field ≠ row.field := hne .id .value (by decide)
    rw [if_neg (fun h => hrow h.2), if_neg (fun h => hown h.2)]
    exact hid
  | row => rw [if_pos ⟨rfl, rfl⟩, Slot.entry]

theorem lookup_saveOverride {override : OverrideRow}
    (hrow : request.rows.lookup (override.location, override.field) = some override) (map : OverrideMap V)
    (location : MasterKey) (name : String) (value : V) (key : MasterKey × String) :
    (request.saveOverride dumps map location name value override).rows.lookup key =
      if key = (override.location, override.field) then some { override with value := dumps value }
      else request.rows.lookup key := by
  rw [saveOverride]
  by_cases hchan : dumps value = override.value
  · simp only [hchan, ne_eq, not_true_eq_false, if_false]
    split
    · next heq => rw [heq, hrow]
    · rfl
  · simp only [ne_eq, hchan, not_false_eq_true, if_true]
    exact lookup_insert _ _ _ _

theorem kept_overrideField (hapart : Apart names) (hkept : request.Kept loads names)
    (hclean : location.clean = location) {name : String} (hname : name ∈ names) {value : V}
    (hval : loads (dumps value) = value)
    (hfree : ∀ row, request.rows.lookup (location, name) = some row → row.id ∉ request.recordedIds) :
    ∃ after, request.overrideField dumps loads location name value = some after ∧ after.Kept loads names := by
  have hent := hkept.follows location hclean name hname
  have hrowE : (request.overrides loads).entry location.clean (name ++ "_instance") =
      (request.live location name).map Entry.row := by rw [hclean]; exact hent .row
  rw [overrideField, hrowE]
  cases hlive : request.live location name with
  | some override =>
    obtain ⟨hrow, hnot⟩ := live_eq_some.mp hlive
    obtain ⟨hkey, -⟩ := hkept.filed _ override hrow
    injection hkey with hloc hfld
    have hid := hent .id
    rw [hlive] at hid
    subst hloc hfld
    refine ⟨_, rfl, hkept.write { override with value := dumps value } hapart hclean hname
      (lookup_saveOverride hrow _ _ _ _) le_rfl (hkept.given _ override hrow) hnot (fun key found hfnd heq =>
        hkept.distinct key found _ override hfnd hrow heq) rfl rfl ?_ ?_⟩
    · rw [hclean]
      exact (sameElsewhere_set _ _ _ .value _).trans (sameElsewhere_set _ _ _ .row _)
    · rw [hclean]
      exact entry_saved { override with value := dumps value } hapart hname hval hid
  | none =>
    have hnone : request.rows.lookup (location, name) = none := by
      by_contra hsome
      obtain ⟨row, hrow⟩ := ne_none_iff_exists'.mp hsome
      rw [live_eq_some.mpr ⟨hrow, hfree row hrow⟩] at hlive
      cases hlive
    rw [hnone]
    let created : OverrideRow := ⟨request.nextId, location, name, dumps value⟩
    have hunu : ∀ key found, request.rows.lookup key = some found → found.id ≠ request.nextId :=
      fun key found hfnd => Nat.ne_of_lt (hkept.given key found hfnd)
    refine ⟨_, rfl, hkept.write created hapart hclean hname (fun key => ?_) (le_succ _) (lt_succ_self _)
      (fun hmem => absurd (hkept.recordedGiven _ hmem) (Nat.lt_irrefl _)) (fun key found hfnd heq =>
        absurd heq (hunu key found hfnd)) rfl rfl ?_ ?_⟩
    · rw [lookup_saveOverride (lookup_insert_self _ _ _)]
      dsimp only
      rw [lookup_insert]
      split
      · rfl
      · rfl
    · rw [hclean]
      exact ((sameElsewhere_set _ _ _ .id _).trans (sameElsewhere_set _ _ _ .value _)).trans
        (sameElsewhere_set _ _ _ .row _)
    · rw [hclean]
      refine entry_saved created hapart hname hval ?_
      rw [entry_set, if_pos ⟨rfl, rfl⟩]

theorem follows_of_unread (hapart : Apart names) (hfiled : Filed names request.rows)
    (hcache : request.cache = none) (hrecd : request.recorded = []) :
    (request.overrides loads).Follows loads names request.live := by
  intro location hclean field hfld slot
  rw [overrides, hcache, getD_none, live_of_recorded_nil hrecd]
  exact follows_freshMap hapart hfiled location hclean field hfld slot

section

variable (hapart : Apart names) (hkept : request.Kept loads names)
  (hclean : location.clean = location) {name : String} (hname : name ∈ names)
include hapart hkept hclean hname

theorem kept_clearOverride : (request.clearOverride loads location name).Kept loads names := by
  rw [clearOverride]
  cases hrow : request.rows.lookup (location, name) with
  | none => exact hkept
  | some row =>
    dsimp only
    let erased : Request V := { request with rows := request.rows.erase (location, name) }
    have hlook : ∀ key found, erased.rows.lookup key = some found → request.rows.lookup key = some found := by
      intro key found hfnd
      rw [lookup_erase] at hfnd
      split at hfnd
      · cases hfnd
      · exact hfnd
    have hgone : erased.live location name = none := by
      rw [live, lookup_erase, if_pos rfl]
      rfl
    have hoth : ∀ other found, (other ≠ location ∨ found ≠ name) →
        erased.live other found = request.live other found := by
      intro other found hne
      rw [live, lookup_erase, if_neg]
      · rfl
      · exact fun heq => hne.elim (fun hne => hne (Prod.mk.inj heq).1) (fun hne => hne (Prod.mk.inj heq).2)
    have hfiled : Filed names erased.rows := fun key found hfnd => hkept.filed key found (hlook key found hfnd)
    refine ⟨?_, hfiled, fun key found hfnd => hkept.given key found (hlook key found hfnd),
      fun key found other second hfnd hsec =>
        hkept.distinct key found other second (hlook key found hfnd) (hlook other second hsec),
      hkept.recordedGiven, fun hnone => by cases hnone⟩
    change ((erased.overrides loads).clearInfo location.clean name).Follows loads names erased.live
    rw [hclean]
    rcases Option.eq_none_or_eq_some request.cache with hcache | ⟨map, hcache⟩
    · have hfol : (erased.overrides loads).Follows loads names erased.live :=
        follows_of_unread hapart hfiled hcache (hkept.unread hcache)
      exact hfol.clearInfo hapart hclean hname hgone fun _ _ _ => rfl
    · have hsame : erased.overrides loads = request.overrides loads := by
        rw [overrides, overrides, hcache, getD_some, getD_some]
      rw [hsame]
      exact hkept.follows.clearInfo hapart hclean hname hgone hoth

theorem kept_recordAndClear : (request.recordAndClear loads location name).Kept loads names := by
  have hent : (request.overrides loads).entry location.clean (name ++ "_id") =
      (request.live location name).map fun row => .id row.id := by
    rw [hclean]
    exact hkept.follows location hclean name hname .id
  let after := request.recordAndClear loads location name
  have hids : after.recordedIds = request.recordedIds ++ ((request.live location name).map OverrideRow.id).toList := by
    change (request.recorded ++ [(request.overrides loads).entry location.clean (name ++ "_id")]).filterMap _ = _
    rw [hent, filterMap_append]
    cases request.live location name with
    | none => rfl
    | some row => rfl
  have hgone : after.live location name = none := by
    rw [Option.eq_none_iff_forall_not_mem]
    intro row hmem
    obtain ⟨hrow, hnot⟩ := live_eq_some.mp hmem
    rw [hids, mem_append, not_or] at hnot
    have hlive : request.live location name = some row := live_eq_some.mpr ⟨hrow, hnot.1⟩
    rw [hlive] at hnot
    exact hnot.2 (by simp)
  have hoth : ∀ other found, (other ≠ location ∨ found ≠ name) →
      after.live other found = request.live other found := by
    intro other found hne
    ext row
    rw [live_eq_some, live_eq_some, hids, mem_append, not_or]
    refine ⟨fun ⟨hrow, hnot⟩ => ⟨hrow, hnot.1⟩, fun ⟨hrow, hnot⟩ => ⟨hrow, hnot, fun hmem => ?_⟩⟩
    -- the recorded id is that of another row
    rw [Option.mem_toList, map_eq_some_iff] at hmem
    obtain ⟨own, hown, hid⟩ := hmem
    have hkey := hkept.distinct _ own _ row (live_eq_some.mp hown).1 hrow hid
    exact hne.elim (fun hne => hne (Prod.mk.inj hkey).1.symm) (fun hne => hne (Prod.mk.inj hkey).2.symm)
  refine ⟨?_, hkept.filed, hkept.given, hkept.distinct, ?_, fun hnone => by cases hnone⟩
  · change ((request.overrides loads).clearInfo location.clean name).Follows loads names after.live
    rw [hclean]
    exact hkept.follows.clearInfo hapart hclean hname hgone hoth
  · intro id hid
    change id ∈ after.recordedIds at hid
    rw [hids] at hid
    rcases mem_append.mp hid with hid | hid
    · exact hkept.recordedGiven id hid
    · rw [Option.mem_toList, map_eq_some_iff] at hid
      obtain ⟨row, hrow, rfl⟩ := hid
      exact hkept.given _ row (live_eq_some.mp hrow).1

end

theorem kept_bulkDelete (hapart : Apart names) (hkept : request.Kept loads names) :
    request.bulkDelete.Kept loads names := by
  have hlook : ∀ key, request.bulkDelete.rows.lookup key =
      (request.rows.lookup key).filter fun row => row.id ∉ request.recordedIds :=
    fun key => Dict.lookup_filter _ _ _
  have hold : ∀ key row, request.bulkDelete.rows.lookup key = some row → request.rows.lookup key = some row := by
    intro key row hrow
    rw [hlook, filter_eq_some_iff] at hrow
    exact hrow.1
  have hfiled : Filed names request.bulkDelete.rows := fun key row hrow => hkept.filed key row (hold key row hrow)
  have hlive : request.bulkDelete.live = request.live := by
    funext location field
    rw [live_of_recorded_nil rfl, hlook]
    rfl
  refine ⟨?_, hfiled, fun key row hrow => hkept.given key row (hold key row hrow),
    fun key row other found hrow hfnd => hkept.distinct key row other found (hold key row hrow)
      (hold other found hfnd), fun id hid => absurd hid not_mem_nil, fun _ => rfl⟩
  rcases Option.eq_none_or_eq_some request.cache with hcache | ⟨map, hcache⟩
  · exact follows_of_unread hapart hfiled hcache rfl
  · have hsame : request.bulkDelete.overrides loads = request.overrides loads := by
      rw [overrides, overrides, bulkDelete, hcache, getD_some, getD_some]
    rw [hsame, hlive]
    exact hkept.follows

end Request

/-! ## Runs -/

section Runs

variable (names : Set String)

/-- A call that the map can follow: it goes to a clean key and a field of a block, and an override has a value that
comes back from JSON and a row, if it has one, that is not recorded for deletion. -/
def OverrideCall.Follows (request : Request V) : OverrideCall V → Prop
  | .override location name value =>
    location.clean = location ∧ name ∈ names ∧ loads (dumps value) = value ∧
      ∀ row, request.rows.lookup (location, name) = some row → row.id ∉ request.recordedIds
  | .clearOverride location name => location.clean = location ∧ name ∈ names
  | .recordAndClear location name => location.clean = location ∧ name ∈ names
  | .bulkDelete => True

def Request.AllFollow (request : Request V) : List (OverrideCall V) → Prop
  | [] => True
  | call :: calls => call.Follows dumps loads names request ∧
    ∀ after, request.step dumps loads call = some after → after.AllFollow calls

def Request.AnswersAsTable (request : Request V) : Prop :=
  ∀ fromJson location name default, name ∈ names → request.getOverride loads fromJson location name default =
      Request.getOverride loads { request with cache := none } fromJson location name default

/-- The table of a custom course before a request. -/
structure OverrideTable where
  rows : OverrideRows
  nextId : Nat
  filed : Filed names rows
  given : ∀ key row, rows.lookup key = some row → row.id < nextId
  distinct : ∀ key row other found, rows.lookup key = some row → rows.lookup other = some found →
    row.id = found.id → key = other

def Request.start (table : OverrideTable names) : Request V where
  rows := table.rows
  nextId := table.nextId

variable {dumps loads names}

theorem Request.kept_start (hapart : Apart names) (table : OverrideTable names) :
    (Request.start names table : Request V).Kept loads names :=
  ⟨follows_of_unread hapart table.filed rfl rfl, table.filed, table.given, table.distinct,
    fun _ hid => absurd hid not_mem_nil, fun _ => rfl⟩

variable {request : Request V}

section

variable (hapart : Apart names) (hkept : request.Kept loads names)
include hapart hkept

theorem Request.kept_step {call : OverrideCall V} (hfol : call.Follows dumps loads names request) :
    ∃ after, request.step dumps loads call = some after ∧ after.Kept loads names := by
  cases call with
  | override location name value =>
    obtain ⟨hclean, hname, hval, hfree⟩ := hfol
    exact kept_overrideField hapart hkept hclean hname hval hfree
  | clearOverride location name => exact ⟨_, rfl, kept_clearOverride hapart hkept hfol.1 hfol.2⟩
  | recordAndClear location name => exact ⟨_, rfl, kept_recordAndClear hapart hkept hfol.1 hfol.2⟩
  | bulkDelete => exact ⟨_, rfl, kept_bulkDelete hapart hkept⟩

theorem Request.kept_run {calls : List (OverrideCall V)} (hfoll : request.AllFollow dumps loads names calls) :
    ∃ after, request.run dumps loads calls = some after ∧ after.Kept loads names := by
  induction calls generalizing request with
  | nil => exact ⟨request, rfl, hkept⟩
  | cons call calls ih =>
    obtain ⟨hcall, hcalls⟩ := hfoll
    obtain ⟨middle, hmid, hkep⟩ := kept_step hapart hkept hcall
    obtain ⟨after, haft, hkeptA⟩ := ih hkep (hcalls middle hmid)
    refine ⟨after, ?_, hkeptA⟩
    rw [run, foldlM_cons, hmid]
    exact haft

theorem Request.Kept.answersAsTable (hrecd : request.recorded = []) : request.AnswersAsTable loads names := by
  intro fromJson location name default hname
  have hfresh : (overrides loads { request with cache := none }).Follows loads names request.live :=
    follows_of_unread hapart hkept.filed rfl hrecd
  have hent : (request.overrides loads).entry location.clean name =
      (overrides loads { request with cache := none }).entry location.clean name :=
    (hkept.follows location.clean rfl name hname .value).trans (hfresh location.clean rfl name hname .value).symm
  rw [getOverride, getOverride, hent]

end

/-- In a run of calls that the map can follow, the request answers as the table whenever nothing is to be deleted. -/
theorem Request.run_answersAsTable (hapart : Apart names) (table : OverrideTable names)
    {calls : List (OverrideCall V)} (hfollow : (Request.start names table).AllFollow dumps loads names calls) :
    ∃ after, (Request.start names table).run dumps loads calls = some after ∧
      (after.recorded = [] → after.AnswersAsTable loads names) := by
  obtain ⟨after, hafter, hkept⟩ := Request.kept_run hapart (Request.kept_start hapart table) hfollow
  exact ⟨after, hafter, hkept.answersAsTable hapart⟩

end Runs

def dateFields : Set String := {"start", "due"}

theorem apart_dateFields : Apart dateFields := by
  rintro first (rfl | rfl) second (rfl | rfl)
  · decide
  · decide
  · decide
  · decide

def emptyTable : OverrideTable dateFields where
  rows := ∅
  nextId := 1
  filed key row hrow := by cases hrow
  given key row hrow := by cases hrow
  distinct key row other found hrow := by cases hrow

def chapterKey : MasterKey := { block := "chapter" }

/-- An override that is cleared, deleted and made again. -/
theorem emptyTable_run_answersAsTable : ∃ after : Request String,
    (Request.start dateFields emptyTable).run id id [.override chapterKey "start" "2015",
        .recordAndClear chapterKey "start", .bulkDelete, .override chapterKey "start" "2016"] = some after ∧
      (after.recorded = [] → after.AnswersAsTable id dateFields) := by
  have hstart : "start" ∈ dateFields := .inl rfl
  refine Request.run_answersAsTable apart_dateFields emptyTable ?_
  refine ⟨⟨rfl, hstart, rfl, fun row hrow => by cases hrow⟩, fun first _ => ?_⟩
  refine ⟨⟨rfl, hstart⟩, fun second _ => ⟨trivial, fun third hthird => ?_⟩⟩
  obtain rfl := some.inj hthird
  exact ⟨⟨rfl, hstart, rfl, fun row _ => not_mem_nil⟩, fun _ _ => trivial⟩

def Request.differs (request : Request String) (location : MasterKey) : Bool :=
  request.recorded.isEmpty && request.getOverride id (fun _ => none) location "start" (.value "") ≠
      Request.getOverride id { request with cache := none } (fun _ => none) location "start" (.value "")

theorem exists_not_answersAsTable {calls : List (OverrideCall String)} (location : MasterKey)
    (hdif : ((Request.start dateFields emptyTable).run id id calls).any (·.differs location) = true) :
    ∃ after : Request String, (Request.start dateFields emptyTable).run id id calls = some after ∧
      after.recorded = [] ∧ ¬ after.AnswersAsTable id dateFields := by
  obtain ⟨after, haft, hdif⟩ := (Option.any_eq_true _ _).mp hdif
  rw [Request.differs, and_eq_true, isEmpty_iff, decide_eq_true_eq] at hdif
  exact ⟨after, haft, hdif.1, fun hans => hdif.2 (hans _ _ _ _ (.inl rfl))⟩

/-- A block of a branch is not found in the table again; a row that is deleted later keeps its override in the
map. -/
theorem calls_not_answersAsTable : (∃ after : Request String, (Request.start dateFields emptyTable).run id id
          [.override { chapterKey with branch := some "draft" } "start" "2015"] = some after ∧
        after.recorded = [] ∧ ¬ after.AnswersAsTable id dateFields) ∧
      ∃ after : Request String, (Request.start dateFields emptyTable).run id id
          [.override chapterKey "start" "2015", .recordAndClear chapterKey "start",
            .override chapterKey "start" "2016", .bulkDelete] = some after ∧
        after.recorded = [] ∧ ¬ after.AnswersAsTable id dateFields :=
  ⟨exists_not_answersAsTable chapterKey (by decide +kernel), exists_not_answersAsTable chapterKey (by decide +kernel)⟩

end EdxPlatform.Ccx
