import Mathlib.Data.Prod.Lex
import EdxPlatform.Lib.Dict
import EdxPlatform.Lib.Python

/-!
# Field overrides of a custom course

The table of the overrides, the map that a request keeps of it, and the functions
that write both.  Dates are deleted from the map first and from the table later.
-/

namespace EdxPlatform.Ccx

open Dict

/-- A `datetime` in UTC without seconds. -/
structure DateTime where
  year : Int
  month : Int
  day : Int
  hour : Int
  minute : Int
  deriving DecidableEq, Repr

namespace DateTime

def tuple (date : DateTime) : Int ×ₗ Int ×ₗ Int ×ₗ Int ×ₗ Int :=
  toLex (date.year, toLex (date.month, toLex (date.day, toLex (date.hour, date.minute))))

instance : LinearOrder DateTime := LinearOrder.lift' tuple fun first second heq => by
  cases first
  cases second
  simpa [tuple] using heq

end DateTime

/-- A section of the grader; its other entries are copied as they are. -/
structure GraderSection where
  type : Option String
  minCount : Option Int
  deriving DecidableEq, Repr

inductive Field where
  | start
  | due
  | visibleToStaffOnly
  | gradingPolicy
  deriving DecidableEq, Repr

inductive Value where
  | date (date : DateTime)
  | flag (flag : Bool)
  | policy (grader : List GraderSection)
  deriving DecidableEq, Repr

abbrev Key := String × Field

/-- A `CcxFieldOverride`; ids are positive. -/
structure FieldOverride where
  id : Nat
  value : Value
  deriving DecidableEq, Repr

/-- The overrides of a custom course. -/
structure Table where
  rows : Dict Key FieldOverride
  nextId : Nat
  given : ∀ key row, rows.lookup key = some row → row.id < nextId
  distinct : ∀ key row other found, rows.lookup key = some row → rows.lookup other = some found →
    row.id = found.id → key = other

/-- The table during a request with its map, in which `values` stands for the entries
under the names of fields, `ids` and `instances` for those under `name_id` and
`name_instance`. -/
structure Store where
  rows : Dict Key FieldOverride
  nextId : Nat
  values : Dict Key Value
  ids : Dict Key Nat
  instances : Dict Key FieldOverride

def mapOf (rows : Dict Key FieldOverride) : Dict Key Value :=
  ofList (rows.entries.map fun entry => (entry.1, entry.2.value))

theorem lookup_mapOf (rows : Dict Key FieldOverride) (key : Key) :
    (mapOf rows).lookup key = (rows.lookup key).map FieldOverride.value :=
  lookup_ofList_map rows FieldOverride.value key

namespace Store

/-- `_get_overrides_for_ccx`: the map is read from the table. -/
def load (table : Table) : Store where
  rows := table.rows
  nextId := table.nextId
  values := mapOf table.rows
  ids := ofList (table.rows.entries.map fun entry => (entry.1, entry.2.id))
  instances := table.rows

variable (store : Store)

/-- `override_field_for_ccx`. -/
def overrideField (key : Key) (value : Value) : Store :=
  let write (override : FieldOverride) (store : Store) : Store :=
    let override := { override with value }
    { store with
      rows := store.rows.insert key override
      values := store.values.insert key value
      instances := store.instances.insert key override }
  match store.instances.lookup key with
  | some override => write override store
  | none =>
    match store.rows.lookup key with
    | some override => write override store
    | none =>
      write ⟨store.nextId, value⟩ { store with nextId := store.nextId + 1, ids := store.ids.insert key store.nextId }

/-- `clear_ccx_field_info_from_ccx_map`, which stops at the first missing entry. -/
def clearFieldInfo (key : Key) : Store :=
  if key ∉ store.values then store
  else if key ∉ store.ids then { store with values := store.values.erase key }
  else { store with
    values := store.values.erase key
    ids := store.ids.erase key
    instances := store.instances.erase key }

/-- `clear_override_for_ccx`. -/
def clearOverride (key : Key) : Store :=
  if key ∈ store.rows then clearFieldInfo { store with rows := store.rows.erase key } key
  else store

/-- `bulk_delete_ccx_override_fields`. -/
def bulkDelete (ids : List (Option Nat)) : Store :=
  { store with rows := filter (fun row => row.id ∉ ids.reduceOption) store.rows }

/-- The map has the values of the table but for those whose rows are yet to be
deleted. -/
structure Synced (pending : List Nat) : Prop where
  cached : ∀ key value, store.values.lookup key = some value → ∃ row,
    store.rows.lookup key = some row ∧ row.value = value ∧ store.ids.lookup key = some row.id ∧
    store.instances.lookup key = some row ∧ row.id ∉ pending
  uncached : ∀ key, store.values.lookup key = none → store.ids.lookup key = none ∧ store.instances.lookup key = none ∧
    ∀ row, store.rows.lookup key = some row → row.id ∈ pending
  given : ∀ key row, store.rows.lookup key = some row → row.id < store.nextId
  distinct : ∀ key row other found, store.rows.lookup key = some row →
    store.rows.lookup other = some found → row.id = found.id → key = other
  pending : ∀ id ∈ pending, id < store.nextId

def Free (key : Key) : Prop := store.values.lookup key = none → store.rows.lookup key = none

/-- A change of the table and its map only at the given keys. -/
structure Writes (keys : Key → Prop) (after : Store) : Prop where
  values : ∀ key, ¬ keys key → after.values.lookup key = store.values.lookup key
  rows : ∀ key, ¬ keys key → after.rows.lookup key = store.rows.lookup key

end Store

variable {store middle after : Store} {keys more : Key → Prop}

namespace Store

theorem Writes.refl : store.Writes keys store := ⟨fun _ _ => rfl, fun _ _ => rfl⟩

theorem Writes.trans (hfst : store.Writes keys middle) (hsec : middle.Writes keys after) : store.Writes keys after :=
  ⟨fun key hkey => (hsec.values key hkey).trans (hfst.values key hkey),
    fun key hkey => (hsec.rows key hkey).trans (hfst.rows key hkey)⟩

theorem Writes.mono (hwr : store.Writes keys after) (hle : ∀ key, keys key → more key) : store.Writes more after :=
  ⟨fun key hkey => hwr.values key fun hmem => hkey (hle key hmem),
    fun key hkey => hwr.rows key fun hmem => hkey (hle key hmem)⟩

variable {key : Key}

theorem Writes.free (hwr : store.Writes keys after) (hkey : ¬ keys key) (hfree : store.Free key) : after.Free key := by
  intro hnone
  rw [hwr.values key hkey] at hnone
  rw [hwr.rows key hkey]
  exact hfree hnone

variable {pending : List Nat}

theorem Synced.insert (hsync : store.Synced pending)
    {value : Value} {id nextId : Nat} {ids : Dict Key Nat} (hid : ids.lookup key = some id)
    (hids : ∀ other, other ≠ key → ids.lookup other = store.ids.lookup other)
    (hgiven : id < nextId) (hnxt : store.nextId ≤ nextId) (hpend : id ∉ pending)
    (huniq : ∀ other row, store.rows.lookup other = some row → id = row.id → key = other) :
    Synced ⟨store.rows.insert key ⟨id, value⟩, nextId, store.values.insert key value, ids,
      store.instances.insert key ⟨id, value⟩⟩ pending := by
  refine ⟨fun other found hfnd => ?_, fun other hnone => ?_, fun other row hrow => ?_,
    fun first row second found hrow hfnd heq => ?_, fun other hoth => (hsync.pending other hoth).trans_le hnxt⟩
  · dsimp only at hfnd ⊢
    rw [lookup_insert] at hfnd ⊢
    rw [lookup_insert]
    by_cases hoth : other = key
    · rw [if_pos hoth] at hfnd
      rw [if_pos hoth, if_pos hoth, hoth]
      exact ⟨_, rfl, some.inj hfnd, hid, rfl, hpend⟩
    · rw [if_neg hoth] at hfnd
      rw [if_neg hoth, if_neg hoth, hids other hoth]
      exact hsync.cached other found hfnd
  · dsimp only at hnone ⊢
    rw [lookup_insert] at hnone
    by_cases hoth : other = key
    · rw [if_pos hoth] at hnone
      cases hnone
    · rw [if_neg hoth] at hnone
      rw [lookup_insert, lookup_insert, if_neg hoth, if_neg hoth, hids other hoth]
      exact hsync.uncached other hnone
  · dsimp only at hrow
    rw [lookup_insert] at hrow
    split at hrow
    · obtain rfl := some.inj hrow
      exact hgiven
    · exact (hsync.given other row hrow).trans_le hnxt
  · dsimp only at hrow hfnd
    rw [lookup_insert] at hrow hfnd
    split at hrow
    · next hfst =>
      split at hfnd
      · next hsec => rw [hfst, hsec]
      · obtain rfl := some.inj hrow
        rw [hfst]
        exact huniq second found hfnd heq
    · split at hfnd
      · next hsec =>
        obtain rfl := some.inj hfnd
        rw [hsec]
        exact (huniq first row hrow heq.symm).symm
      · exact hsync.distinct first row second found hrow hfnd heq

theorem overrideField_spec (hsync : store.Synced pending) (hfree : store.Free key) (value : Value) :
    (store.overrideField key value).Synced pending ∧ store.Writes (· = key) (store.overrideField key value) ∧
      (store.overrideField key value).values.lookup key = some value := by
  cases hval : store.values.lookup key with
  | some old =>
    obtain ⟨row, hrow, -, hid, hinst, hpend⟩ := hsync.cached key old hval
    have heq : store.overrideField key value = ⟨store.rows.insert key ⟨row.id, value⟩,
        store.nextId, store.values.insert key value, store.ids,
        store.instances.insert key ⟨row.id, value⟩⟩ := by
      simp only [overrideField, hinst]
    rw [heq]
    refine ⟨hsync.insert hid (fun _ _ => rfl) (hsync.given key row hrow) le_rfl hpend
      fun other found hfnd => hsync.distinct key row other found hrow hfnd, ⟨?_, ?_⟩, ?_⟩
    · exact fun other hne => lookup_insert_of_ne hne value store.values
    · exact fun other hne => lookup_insert_of_ne hne _ store.rows
    · exact lookup_insert_self key value store.values
  | none =>
    obtain ⟨-, hinst, -⟩ := hsync.uncached key hval
    have heq : store.overrideField key value = ⟨store.rows.insert key ⟨store.nextId, value⟩,
        store.nextId + 1, store.values.insert key value, store.ids.insert key store.nextId,
        store.instances.insert key ⟨store.nextId, value⟩⟩ := by
      simp only [overrideField, hinst, hfree hval]
    rw [heq]
    refine ⟨hsync.insert (lookup_insert_self key _ _)
      (fun other hne => lookup_insert_of_ne hne _ _) (lt_succ_self _) (le_succ _)
      (fun hmem => absurd (hsync.pending _ hmem) (lt_irrefl _))
      fun other row hrow hid => absurd (hsync.given other row hrow) (hid ▸ lt_irrefl _),
      ⟨?_, ?_⟩, ?_⟩
    · exact fun other hne => lookup_insert_of_ne hne value store.values
    · exact fun other hne => lookup_insert_of_ne hne _ store.rows
    · exact lookup_insert_self key value store.values

/-- All that the map says of the key is gone. -/
structure Cleared (store : Store) (key : Key) (after : Store) : Prop where
  nextId : after.nextId = store.nextId
  values : ∀ other, after.values.lookup other = if other = key then none else store.values.lookup other
  ids : ∀ other, after.ids.lookup other = if other = key then none else store.ids.lookup other
  instances : ∀ other, after.instances.lookup other = if other = key then none else store.instances.lookup other

theorem clearFieldInfo_cleared (hsync : store.Synced pending) (key : Key) (rows : Dict Key FieldOverride) :
    store.Cleared key (clearFieldInfo { store with rows } key) := by
  unfold clearFieldInfo
  cases hval : store.values.lookup key with
  | none =>
    obtain ⟨hid, hinst, -⟩ := hsync.uncached key hval
    rw [if_pos (lookup_eq_none.mp hval)]
    refine ⟨rfl, fun other => ?_, fun other => ?_, fun other => ?_⟩
    · split
      · next heq => rw [heq, hval]
      · rfl
    · split
      · next heq => rw [heq, hid]
      · rfl
    · split
      · next heq => rw [heq, hinst]
      · rfl
  | some value =>
    obtain ⟨row, -, -, hid, -⟩ := hsync.cached key value hval
    rw [if_neg fun hmem => hmem (mem_of_lookup hval), if_neg fun hmem => hmem (mem_iff_lookup.mpr ⟨row.id, hid⟩)]
    exact ⟨rfl, fun other => lookup_erase key other store.values, fun other => lookup_erase key other store.ids,
      fun other => lookup_erase key other store.instances⟩

theorem clearFieldInfo_rows (store : Store) (key : Key) : (store.clearFieldInfo key).rows = store.rows := by
  unfold clearFieldInfo
  split
  · rfl
  split
  · rfl
  · rfl

theorem Cleared.synced {more : List Nat} (hsync : store.Synced pending) (hclear : store.Cleared key after)
    (hkept : ∀ other, other ≠ key → after.rows.lookup other = store.rows.lookup other)
    (hgone : ∀ row, after.rows.lookup key = some row → store.rows.lookup key = some row ∧ row.id ∈ more)
    (hmore : ∀ id ∈ more, id ∈ pending ∨ store.ids.lookup key = some id)
    (hpend : ∀ id ∈ pending, id ∈ more) : after.Synced more := by
  have hrows : ∀ other row, after.rows.lookup other = some row → store.rows.lookup other = some row := by
    intro other row hrow
    by_cases heq : other = key
    · rw [heq] at hrow ⊢
      exact (hgone row hrow).1
    · rw [hkept other heq] at hrow
      exact hrow
  have hid : ∀ id, store.ids.lookup key = some id → ∃ row, store.rows.lookup key = some row ∧ row.id = id := by
    intro id hid
    cases hval : store.values.lookup key with
    | none => rw [(hsync.uncached key hval).1] at hid; cases hid
    | some value =>
      obtain ⟨row, hrow, -, hsame, -⟩ := hsync.cached key value hval
      exact ⟨row, hrow, some_unique hsame hid⟩
  refine ⟨fun other value hval => ?_, fun other hnone => ?_, fun other row hrow => ?_,
    fun first row second found hrow hfnd =>
      hsync.distinct first row second found (hrows first row hrow) (hrows second found hfnd),
    fun id hmem => ?_⟩
  · rw [hclear.values] at hval
    rw [hclear.ids, hclear.instances]
    by_cases heq : other = key
    · rw [if_pos heq] at hval
      cases hval
    · rw [if_neg heq] at hval
      obtain ⟨row, hrow, hsame, hids, hinst, hnot⟩ := hsync.cached other value hval
      rw [if_neg heq, if_neg heq, hkept other heq]
      refine ⟨row, hrow, hsame, hids, hinst, fun hmem => ?_⟩
      rcases hmore row.id hmem with hold | hkey
      · exact hnot hold
      · obtain ⟨keyed, hkeyed, hsame⟩ := hid row.id hkey
        exact heq (hsync.distinct other row key keyed hrow hkeyed hsame.symm)
  · rw [hclear.values] at hnone
    rw [hclear.ids, hclear.instances]
    by_cases heq : other = key
    · rw [if_pos heq, if_pos heq, heq]
      exact ⟨rfl, rfl, fun row hrow => (hgone row hrow).2⟩
    · rw [if_neg heq] at hnone
      obtain ⟨hids, hinst, hold⟩ := hsync.uncached other hnone
      rw [if_neg heq, if_neg heq, hkept other heq]
      exact ⟨hids, hinst, fun row hrow => hpend row.id (hold row hrow)⟩
  · rw [hclear.nextId]
    exact hsync.given other row (hrows other row hrow)
  · rw [hclear.nextId]
    rcases hmore id hmem with hold | hkey
    · exact hsync.pending id hold
    · obtain ⟨row, hrow, rfl⟩ := hid id hkey
      exact hsync.given key row hrow

theorem clearFieldInfo_spec (hsync : store.Synced pending) (key : Key) :
    (store.clearFieldInfo key).Synced (pending ++ (store.ids.lookup key).toList) ∧
      store.Writes (· = key) (store.clearFieldInfo key) ∧
      (store.clearFieldInfo key).values.lookup key = none := by
  have hclear := clearFieldInfo_cleared hsync key store.rows
  have hrows := clearFieldInfo_rows store key
  refine ⟨hclear.synced hsync (fun other _ => by rw [← hrows]) (fun row hrow => ?_)
    (fun id hmem => ?_) fun id hmem => mem_append_left _ hmem,
    ⟨fun other hne => ?_, fun other _ => by rw [hrows]⟩, ?_⟩
  · have hrow : store.rows.lookup key = some row := by rw [← hrows]; exact hrow
    refine ⟨hrow, mem_append.mpr ?_⟩
    cases hval : store.values.lookup key with
    | none => exact .inl ((hsync.uncached key hval).2.2 row hrow)
    | some value =>
      obtain ⟨found, hfnd, -, hid, -⟩ := hsync.cached key value hval
      rw [hid, some_unique hrow hfnd]
      exact .inr (mem_singleton_self _)
  · rcases mem_append.mp hmem with hold | hkey
    · exact .inl hold
    · exact .inr (Option.mem_toList.mp hkey)
  · exact (hclear.values other).trans (if_neg hne)
  · exact (hclear.values key).trans (if_pos rfl)

theorem clearOverride_spec (hsync : store.Synced pending) (key : Key) :
    (store.clearOverride key).Synced pending ∧ store.Writes (· = key) (store.clearOverride key) := by
  unfold clearOverride
  split
  · have hclear := clearFieldInfo_cleared hsync key (store.rows.erase key)
    have hrows := clearFieldInfo_rows { store with rows := store.rows.erase key } key
    refine ⟨hclear.synced hsync (fun other hne => ?_) (fun row hrow => ?_)
      (fun id hmem => .inl hmem) fun id hmem => hmem, ⟨fun other hne => ?_, fun other hne => ?_⟩⟩
    · rw [hrows]
      exact (lookup_erase key other store.rows).trans (if_neg hne)
    · rw [hrows] at hrow
      rw [AList.lookup_erase] at hrow
      cases hrow
    · exact (hclear.values other).trans (if_neg hne)
    · rw [hrows]
      exact (lookup_erase key other store.rows).trans (if_neg hne)
  · exact ⟨hsync, Writes.refl⟩

theorem bulkDelete_synced {ids : List (Option Nat)} (hsync : store.Synced ids.reduceOption) :
    (store.bulkDelete ids).Synced [] := by
  have hrows : ∀ key, (store.bulkDelete ids).rows.lookup key =
      (store.rows.lookup key).filter fun row => row.id ∉ ids.reduceOption :=
    lookup_filter _ store.rows
  have hold : ∀ key row, (store.bulkDelete ids).rows.lookup key = some row →
      store.rows.lookup key = some row ∧ row.id ∉ ids.reduceOption := by
    intro key row hrow
    rw [hrows, filter_eq_some_iff, decide_eq_true_eq] at hrow
    exact hrow
  refine ⟨fun key value hval => ?_, fun key hnone => ?_, fun key row hrow =>
    hsync.given key row (hold key row hrow).1, fun key row other found hrow hfnd =>
    hsync.distinct key row other found (hold key row hrow).1 (hold other found hfnd).1,
    fun id hid => nomatch hid⟩
  · obtain ⟨row, hrow, hsame, hid, hinst, hpend⟩ := hsync.cached key value hval
    refine ⟨row, ?_, hsame, hid, hinst, not_mem_nil⟩
    rw [hrows, filter_eq_some_iff, decide_eq_true_eq]
    exact ⟨hrow, hpend⟩
  · obtain ⟨hid, hinst, hgone⟩ := hsync.uncached key hnone
    refine ⟨hid, hinst, fun row hrow => ?_⟩
    obtain ⟨hfnd, hpend⟩ := hold key row hrow
    exact absurd (hgone row hfnd) hpend

theorem Synced.lookup_mapOf (hsync : store.Synced []) (key : Key) :
    (mapOf store.rows).lookup key = store.values.lookup key := by
  rw [Ccx.lookup_mapOf]
  cases hval : store.values.lookup key with
  | none =>
    rw [map_eq_none_iff]
    exact eq_none_iff_forall_ne_some.mpr fun row hrow => absurd ((hsync.uncached key hval).2.2 row hrow) not_mem_nil
  | some value =>
    obtain ⟨row, hrow, hsame, -⟩ := hsync.cached key value hval
    rw [hrow, ← hsame]
    rfl

theorem load_synced (table : Table) : (load table).Synced [] := by
  have hids : ∀ key, (load table).ids.lookup key = (table.rows.lookup key).map FieldOverride.id :=
    lookup_ofList_map table.rows FieldOverride.id
  refine ⟨fun key value hval => ?_, fun key hnone => ?_, table.given, table.distinct, fun id hid => nomatch hid⟩
  · rw [load, lookup_mapOf, map_eq_some_iff] at hval
    obtain ⟨row, hrow, hsame⟩ := hval
    exact ⟨row, hrow, hsame, by rw [hids, hrow]; rfl, hrow, not_mem_nil⟩
  · rw [load, lookup_mapOf, map_eq_none_iff] at hnone
    refine ⟨by rw [hids, hnone]; rfl, hnone, fun row hrow => ?_⟩
    rw [show table.rows.lookup key = some row from hrow] at hnone
    cases hnone

theorem Synced.free (hsync : store.Synced pending) (hnone : pending = []) (key : Key) : store.Free key := by
  intro hval
  refine eq_none_iff_forall_ne_some.mpr fun row hrow => ?_
  have hpend := (hsync.uncached key hval).2.2 row hrow
  rw [hnone] at hpend
  cases hpend

end Store

end EdxPlatform.Ccx
