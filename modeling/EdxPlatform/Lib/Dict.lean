import EdxPlatform.Lib.ShortNames

/-!
# Python dictionaries

A dictionary is an association list without repeated keys.  The order of the
entries stands for the iteration order, which no result below depends on.
-/

namespace EdxPlatform

/-- A Python dictionary with keys in `κ` and values in `ν`. -/
abbrev Dict (κ ν : Type) := AList (fun _ : κ => ν)

namespace Dict

variable {κ ν : Type} [DecidableEq κ]

/-- The dictionary display `{k₁: v₁, ...}`; a later key wins. -/
def ofList (entries : List (κ × ν)) : Dict κ ν := entries.foldl (fun dict entry => dict.insert entry.1 entry.2) ∅

/-- In-place update of the value stored under `key`, if there is one. -/
def modify (key : κ) (change : ν → ν) (dict : Dict κ ν) : Dict κ ν :=
  match dict.lookup key with
  | none => dict
  | some value => dict.insert key (change value)

/-- `dict.setdefault(key, value)` -/
def setDefault (key : κ) (value : ν) (dict : Dict κ ν) : Dict κ ν :=
  if key ∈ dict then dict else dict.insert key value

/-- `dict == other`, which ignores the order of the entries. -/
def same [DecidableEq ν] (dict other : Dict κ ν) : Bool :=
  (dict.keys ++ other.keys).all fun key => dict.lookup key = other.lookup key

/-- `dict.update(other)`: the entries of `other` win. -/
def update (dict other : Dict κ ν) : Dict κ ν := other ∪ dict

/-- The entries whose value satisfies `keep`. -/
def filter (keep : ν → Bool) (dict : Dict κ ν) : Dict κ ν :=
  ⟨dict.entries.filter fun entry => keep entry.2, (List.filter_sublist.map Sigma.fst).nodup dict.nodupKeys⟩

@[simp]
theorem lookup_insert_self (key : κ) (value : ν) (dict : Dict κ ν) : (dict.insert key value).lookup key = some value :=
  AList.lookup_insert dict

variable {key : κ}

theorem lookup_insert_of_ne {other : κ} (hne : other ≠ key) (value : ν)
    (dict : Dict κ ν) : (dict.insert key value).lookup other = dict.lookup other :=
  AList.lookup_insert_ne hne

theorem lookup_insert (key other : κ) (value : ν) (dict : Dict κ ν) : (dict.insert key value).lookup other =
      if other = key then some value else dict.lookup other := by
  by_cases heq : other = key
  · subst heq
    simp
  · rw [if_neg heq, lookup_insert_of_ne heq]

theorem lookup_erase (key other : κ) (dict : Dict κ ν) : (dict.erase key).lookup other =
      if other = key then none else dict.lookup other := by
  by_cases heq : other = key
  · subst heq
    simp
  · rw [if_neg heq, lookup_erase_ne heq]

theorem lookup_eraseAll (keys : List κ) (dict : Dict κ ν) (key : κ) :
    (keys.foldl (fun (dict : Dict κ ν) other => dict.erase other) dict).lookup key =
      if key ∈ keys then none else dict.lookup key := by
  induction keys generalizing dict with
  | nil => simp
  | cons other keys ih =>
    rw [foldl_cons, ih, lookup_erase]
    by_cases hkey : key ∈ keys
    · simp [hkey]
    · by_cases heq : key = other <;> simp [hkey, heq]

theorem lookup_modify (key other : κ) (change : ν → ν) (dict : Dict κ ν) : (modify key change dict).lookup other =
      if other = key then (dict.lookup key).map change else dict.lookup other := by
  unfold modify
  cases hkey : dict.lookup key with
  | none =>
    by_cases heq : other = key
    · rw [if_pos heq, heq, hkey]; rfl
    · rw [if_neg heq]
  | some value => exact lookup_insert key other (change value) dict

variable {dict : Dict κ ν}

theorem mem_iff_lookup : key ∈ dict ↔ ∃ value, dict.lookup key = some value := by
  rw [← AList.lookup_isSome, isSome_iff_exists]

variable {value : ν}

theorem mem_of_lookup (hlook : dict.lookup key = some value) : key ∈ dict := mem_iff_lookup.mpr ⟨value, hlook⟩

theorem mem_items_iff : (key, value) ∈ (dict.entries.map fun entry => (entry.1, entry.2)) ↔
      dict.lookup key = some value := by
  rw [mem_map]
  constructor
  · rintro ⟨⟨other, found⟩, hfnd, heq⟩
    obtain ⟨rfl, rfl⟩ := Prod.mk.inj heq
    exact AList.mem_lookup_iff.mpr hfnd
  · exact fun hlook => ⟨⟨key, value⟩, AList.mem_lookup_iff.mp hlook, rfl⟩

theorem lookup_setDefault (key other : κ) (value : ν) (dict : Dict κ ν) : (setDefault key value dict).lookup other =
      if other = key then some ((dict.lookup key).getD value) else dict.lookup other := by
  unfold setDefault
  by_cases hmem : key ∈ dict
  · obtain ⟨found, hfnd⟩ := mem_iff_lookup.mp hmem
    rw [if_pos hmem, hfnd, getD_some]
    split
    · next heq => rw [heq, hfnd]
    · rfl
  · rw [if_neg hmem, lookup_insert, AList.lookup_eq_none.mpr hmem, getD_none]

@[simp]
theorem mem_modify (key other : κ) (change : ν → ν) (dict : Dict κ ν) :
    other ∈ modify key change dict ↔ other ∈ dict := by
  rw [← AList.lookup_isSome, ← AList.lookup_isSome, lookup_modify]
  by_cases heq : other = key
  · rw [if_pos heq, heq, isSome_map]
  · rw [if_neg heq]

variable {other : Dict κ ν}

theorem same_iff [DecidableEq ν] : same dict other ↔ ∀ key, dict.lookup key = other.lookup key := by
  unfold same
  rw [all_eq_true]
  constructor
  · intro hsame key
    by_cases hmem : key ∈ dict.keys ++ other.keys
    · exact of_decide_eq_true (hsame key hmem)
    · rw [mem_append, not_or] at hmem
      rw [AList.lookup_eq_none.mpr hmem.1, AList.lookup_eq_none.mpr hmem.2]
  · intro hsame key _
    exact decide_eq_true (hsame key)

theorem same_comm [DecidableEq ν] (dict other : Dict κ ν) : same dict other = same other dict := by
  rw [eq_iff_iff, same_iff, same_iff]
  exact forall_congr' fun key => eq_comm

theorem lookup_filter (keep : ν → Bool) (dict : Dict κ ν) (key : κ) :
    (filter keep dict).lookup key = (dict.lookup key).filter keep := by
  apply Option.ext
  intro value
  rw [filter_eq_some_iff, ← mem_def, ← mem_def, AList.mem_lookup_iff, AList.mem_lookup_iff]
  exact mem_filter

theorem exists_entries_split {old : ν} (hold : dict.lookup key = some old) (value : ν) : ∃ before after,
      dict.entries = before ++ ⟨key, old⟩ :: after ∧
      (dict.insert key value).entries = ⟨key, value⟩ :: (before ++ after) := by
  have hmem : key ∈ dict.entries.keys := mem_iff_lookup.mpr ⟨old, hold⟩
  obtain ⟨found, before, after, -, hspl, hker⟩ := List.exists_of_kerase hmem
  have hfnd : dict.lookup key = some found := AList.mem_lookup_iff.mpr (by simp [hspl])
  obtain rfl := some.inj (hfnd.symm.trans hold)
  exact ⟨before, after, hspl, by rw [← hker]; rfl⟩

theorem lookup_update (dict other : Dict κ ν) (key : κ) : (update dict other).lookup key =
      (other.lookup key).or (dict.lookup key) := by
  unfold update
  by_cases hmem : key ∈ other
  · rw [AList.lookup_union_left hmem]
    obtain ⟨value, hval⟩ := mem_iff_lookup.mp hmem
    rw [hval]; rfl
  · rw [AList.lookup_union_right hmem, AList.lookup_eq_none.mpr hmem]; rfl

theorem lookup_ofList_append_singleton (entries : List (κ × ν)) (last : κ × ν) (key : κ) :
    (ofList (entries ++ [last])).lookup key = if key = last.1 then some last.2 else (ofList entries).lookup key := by
  unfold ofList
  rw [foldl_append]
  exact lookup_insert last.1 key last.2 _

variable {entries : List (κ × ν)}

theorem mem_of_lookup_ofList (hlook : (ofList entries).lookup key = some value) : (key, value) ∈ entries := by
  induction entries using reverseRecOn with
  | nil => simp [ofList] at hlook
  | append_singleton entries last ih =>
    rw [lookup_ofList_append_singleton] at hlook
    rw [mem_append, mem_singleton]
    split at hlook
    · next hkey => exact .inr (Prod.ext hkey (some.inj hlook).symm)
    · exact .inl (ih hlook)

theorem lookup_ofList_iff_last : (ofList entries).lookup key = some value ↔
      ∃ before after, entries = before ++ (key, value) :: after ∧ ∀ entry ∈ after, entry.1 ≠ key := by
  constructor
  · intro hlook
    induction entries using reverseRecOn with
    | nil => simp [ofList] at hlook
    | append_singleton entries last ih =>
      rw [lookup_ofList_append_singleton] at hlook
      split at hlook
      · next hkey =>
          have hlast : last = (key, value) := Prod.ext hkey.symm (some.inj hlook)
          exact ⟨entries, [], by rw [hlast], fun entry hent => nomatch hent⟩
      · next hkey =>
          obtain ⟨before, after, rfl, haft⟩ := ih hlook
          refine ⟨before, after ++ [last], by rw [append_assoc, cons_append], fun entry hent => ?_⟩
          rcases mem_append.mp hent with hent | hlast
          · exact haft entry hent
          · rw [mem_singleton.mp hlast]
            exact Ne.symm hkey
  · rintro ⟨before, after, rfl, haft⟩
    induction after using reverseRecOn with
    | nil => rw [lookup_ofList_append_singleton, if_pos rfl]
    | append_singleton after last ih =>
      have hlast : key ≠ last.1 := (haft last (mem_append_right _ mem_cons_self)).symm
      rw [← cons_append, ← append_assoc, lookup_ofList_append_singleton, if_neg hlast]
      exact ih fun entry hent => haft entry (mem_append_left _ hent)

theorem mem_update : key ∈ dict.update other ↔ key ∈ dict ∨ key ∈ other := by
  unfold update
  rw [AList.mem_union]
  exact Or.comm

theorem lookup_ofList (hfun : ∀ entry ∈ entries, ∀ other ∈ entries, entry.1 = other.1 → entry.2 = other.2)
    (key : κ) (value : ν) :
    (ofList entries).lookup key = some value ↔ (key, value) ∈ entries := by
  refine ⟨mem_of_lookup_ofList, fun hent => ?_⟩
  induction entries using reverseRecOn with
  | nil => cases hent
  | append_singleton entries last ih =>
    have hmem : last ∈ entries ++ [last] := mem_append_right _ mem_cons_self
    rw [lookup_ofList_append_singleton]
    by_cases hkey : key = last.1
    · rw [if_pos hkey]
      exact congrArg some (hfun last hmem _ hent hkey.symm)
    · rw [if_neg hkey]
      refine ih (fun entry hent other hoth => hfun entry (mem_append_left _ hent) other (mem_append_left _ hoth)) ?_
      refine (mem_append.mp hent).resolve_right fun hlast => hkey ?_
      rw [← mem_singleton.mp hlast]

theorem mem_ofList : key ∈ ofList entries ↔ key ∈ entries.map Prod.fst := by
  rw [mem_iff_lookup]
  induction entries using reverseRecOn with
  | nil => simp [ofList]
  | append_singleton entries last ih =>
    rw [lookup_ofList_append_singleton, map_append, mem_append, ← ih]
    by_cases hkey : key = last.1
    · simp [hkey]
    · simp [hkey]

theorem length_ofList_le (entries : List (κ × ν)) : (ofList entries).entries.length ≤ entries.length := by
  induction entries using reverseRecOn with
  | nil => exact le_rfl
  | append_singleton entries last ih =>
    have hins : ofList (entries ++ [last]) = (ofList entries).insert last.1 last.2 := foldl_append
    have herase : ((ofList entries).entries.kerase last.1).length ≤
        (ofList entries).entries.length := (List.kerase_sublist _ _).length_le
    rw [hins, AList.entries_insert, length_cons, length_append, length_singleton]
    omega

theorem lookup_ofList_mapWith {μ : Type} (dict : Dict κ ν) (change : κ → ν → μ) (key : κ) :
    (ofList (dict.entries.map fun entry => (entry.1, change entry.1 entry.2))).lookup key =
      (dict.lookup key).map (change key) := by
  have hfun : ∀ entry ∈ dict.entries.map (fun entry => (entry.1, change entry.1 entry.2)),
      ∀ other ∈ dict.entries.map (fun entry => (entry.1, change entry.1 entry.2)),
        entry.1 = other.1 → entry.2 = other.2 := by
    simp only [mem_map]
    rintro - ⟨⟨first, value⟩, hfst, rfl⟩ - ⟨⟨second, other⟩, hsec, rfl⟩ heq
    change first = second at heq
    subst heq
    have := (AList.mem_lookup_iff.mpr hfst).symm.trans (AList.mem_lookup_iff.mpr hsec)
    exact congrArg (change first) (some.inj this)
  apply Option.ext
  intro value
  rw [lookup_ofList hfun, mem_map, map_eq_some_iff]
  constructor
  · rintro ⟨⟨other, found⟩, hfnd, heq⟩
    obtain ⟨rfl, rfl⟩ := Prod.mk.inj heq
    exact ⟨found, AList.mem_lookup_iff.mpr hfnd, rfl⟩
  · rintro ⟨found, hfnd, rfl⟩
    exact ⟨⟨key, found⟩, AList.mem_lookup_iff.mp hfnd, rfl⟩

theorem lookup_ofList_map {μ : Type} (dict : Dict κ ν) (change : ν → μ) (key : κ) :
    (ofList (dict.entries.map fun entry => (entry.1, change entry.2))).lookup key = (dict.lookup key).map change :=
  lookup_ofList_mapWith dict (fun _ => change) key

section

variable {μ β : Type} (change : κ → μ → β → β)

def changeAt (found : κ → β) (entry : Sigma fun _ : κ => μ) : κ → β :=
  Function.update found entry.1 (change entry.1 entry.2 (found entry.1))

def overlay (updates : Dict κ μ) (found : κ → β) (key : κ) : β :=
  match updates.lookup key with
  | none => found key
  | some value => change key value (found key)

theorem foldl_changeAt (updates : Dict κ μ) (found : κ → β) :
    updates.entries.foldl (changeAt change) found = overlay change updates found := by
  funext key
  have hloop : ∀ (entries : List (Sigma fun _ : κ => μ)) (found : κ → β), entries.NodupKeys →
      entries.foldl (changeAt change) found key = match entries.dlookup key with
        | none => found key
        | some value => change key value (found key) := by
    intro entries
    induction entries with
    | nil => exact fun found _ => rfl
    | cons entry entries ih =>
      intro found hnod
      obtain ⟨hnew, hrest⟩ := nodupKeys_cons.mp hnod
      rw [foldl_cons, ih _ hrest]
      by_cases heq : key = entry.1
      · subst heq
        rw [List.dlookup_eq_none.mpr hnew, dlookup_cons_eq]
        exact update_self ..
      · rw [dlookup_cons_ne entries entry heq, changeAt, update_of_ne heq]
  exact hloop updates.entries found updates.nodupKeys

end

end Dict

export Dict (lookup_erase lookup_insert lookup_insert_of_ne lookup_insert_self lookup_modify lookup_update
  mem_iff_lookup mem_items_iff mem_of_lookup)

end EdxPlatform
